import TreeWalk.Name
import TreeWalk.Number
import TreeWalk.Operator

/-!
# Program trees

A program is a list of nodes.  There are ten kinds of node; a tree is built once
and is only read from then on.

## Main definitions

* `Node`: a statement or expression
* `Function`: parameter names and a body, the one kind of value that is not data
* `Kind`: which of the ten kinds a node is

## Design notes

A function literal and a function definition carry their parameters and body
directly, so that the tree is a single inductive type.  `Function` is the pair
of the two as a value.  An absent second branch of a conditional and an empty
one are different trees, though they run alike.
-/

namespace TreeWalk

/-- A node of a program tree. -/
inductive Node where
  /-- An integer literal. -/
  | number (value : Number)
  /-- The value of a name, looked up from the current scope outward. -/
  | reference (name : Name)
  | unary (op : UnaryOp) (operand : Node)
  /-- Both operands are evaluated, the left one first. -/
  | binary (op : BinaryOp) (left right : Node)
  /-- A function literal.  Evaluating it runs the body in the current scope. -/
  | literal (params : List Name) (body : List Node)
  /-- Binds a function under a name in the current scope. -/
  | define (name : Name) (params : List Name) (body : List Node)
  | call (callee : Node) (args : List Node)
  /-- The branches run in the current scope. -/
  | conditional (condition : Node) (ifTrue : List Node) (ifFalse : Option (List Node))
  /-- Emits the number that the operand evaluates to. -/
  | print (operand : Node)
  /-- Reads one number from the input and binds it in the current scope. -/
  | read (name : Name)

instance : Inhabited Node := ⟨.number 0⟩

/-- A function: the names of its parameters and the statements of its body. -/
structure Function where
  params : List Name
  body : List Node
  deriving Inhabited

/-- The number of parameters. -/
def Function.arity (f : Function) : Nat := f.params.length

/-- The kinds of node. -/
inductive Kind where
  | number
  | reference
  | unaryOperation
  | binaryOperation
  | function
  | functionDefinition
  | functionCall
  | conditional
  | print
  | read
  deriving DecidableEq, Repr

/-- The name under which a kind is reported. -/
def Kind.text : Kind → String
  | .number => "Number"
  | .reference => "Reference"
  | .unaryOperation => "UnaryOperation"
  | .binaryOperation => "BinaryOperation"
  | .function => "Function"
  | .functionDefinition => "FunctionDefinition"
  | .functionCall => "FunctionCall"
  | .conditional => "Conditional"
  | .print => "Print"
  | .read => "Read"

/-- The kind of a node. -/
def Node.kind : Node → Kind
  | .number _ => .number
  | .reference _ => .reference
  | .unary .. => .unaryOperation
  | .binary .. => .binaryOperation
  | .literal .. => .function
  | .define .. => .functionDefinition
  | .call .. => .functionCall
  | .conditional .. => .conditional
  | .print _ => .print
  | .read _ => .read

end TreeWalk
