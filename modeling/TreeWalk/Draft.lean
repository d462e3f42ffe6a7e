import TreeWalk.Value

/-!
# Drafts

A draft is a tree as its author writes it: identifiers are texts, operators are
symbols.  Building a draft enters the texts into a name table and looks up the
symbols.

## Main definitions

* `Identifier`: a text, or a name that needs no table
* `Draft`, `ValueDraft`: trees and values before building
* `Builder`: what building needs and leaves behind
* `Draft.build`, `ValueDraft.build`: the tree and the value

## Design notes

**Building is post-order**: the operands of an operator are built before its own
symbol is looked up, so that of several unknown symbols the one deepest to the
left is reported.  Texts are entered in the order in which they are met, from
left to right.  Those entered before an unknown symbol stay in the table.
-/

namespace TreeWalk

/-- An identifier in a draft. -/
inductive Identifier where
  /-- A text, to be entered into the table. -/
  | text (s : String)
  /-- A name as it is, whether or not the table knows it. -/
  | name (n : Name)
  deriving DecidableEq, Repr

/-- A tree before its identifiers and symbols are resolved. -/
inductive Draft where
  | number (value : Number)
  | reference (name : Identifier)
  | unary (symbol : String) (operand : Draft)
  | binary (left : Draft) (symbol : String) (right : Draft)
  | literal (params : List Identifier) (body : List Draft)
  | define (name : Identifier) (params : List Identifier) (body : List Draft)
  | call (callee : Draft) (args : List Draft)
  | conditional (condition : Draft) (ifTrue : List Draft) (ifFalse : Option (List Draft))
  | print (operand : Draft)
  | read (name : Identifier)

instance : Inhabited Draft := ⟨.number 0⟩

/-- A value before its identifiers and symbols are resolved. -/
inductive ValueDraft where
  | number (value : Number)
  | truth (b : Bool)
  | void
  | function (params : List Identifier) (body : List Draft)

/-- Building carries the name table along, also past the point of failure. -/
abbrev Builder := ExceptT UnknownSymbol (StateM NameTable)

/-- The name of an identifier. -/
def Identifier.build : Identifier → Builder Name
  | .text s => modifyGet fun names => names.intern s
  | .name n => pure n

/-- The names of several identifiers, first to last. -/
def Identifier.buildAll (xs : List Identifier) : Builder (List Name) := xs.mapM build

namespace Draft

mutual

/-- The tree of a draft. -/
def build : Draft → Builder Node
  | .number n => pure (.number n)
  | .reference x => return .reference (← x.build)
  | .unary symbol operand => do
    let operand ← build operand
    return .unary (← UnaryOp.ofSymbol symbol) operand
  | .binary left symbol right => do
    let left ← build left
    let right ← build right
    return .binary (← BinaryOp.ofSymbol symbol) left right
  | .literal params body => do
    let params ← Identifier.buildAll params
    return .literal params (← buildAll body)
  | .define name params body => do
    let name ← name.build
    let params ← Identifier.buildAll params
    return .define name params (← buildAll body)
  | .call callee args => do
    let callee ← build callee
    return .call callee (← buildAll args)
  | .conditional condition ifTrue ifFalse => do
    let condition ← build condition
    let ifTrue ← buildAll ifTrue
    return .conditional condition ifTrue (← buildBranch ifFalse)
  | .print operand => return .print (← build operand)
  | .read x => return .read (← x.build)

/-- The trees of several drafts, first to last. -/
def buildAll : List Draft → Builder (List Node)
  | [] => pure []
  | d :: ds => do
    let n ← build d
    return n :: (← buildAll ds)

/-- The trees of a branch that may be absent. -/
def buildBranch : Option (List Draft) → Builder (Option (List Node))
  | none => pure none
  | some ds => return some (← buildAll ds)

end

end Draft

/-- The value of a draft. -/
def ValueDraft.build : ValueDraft → Builder Value
  | .number n => pure (.number n)
  | .truth b => pure (.ofBool b)
  | .void => pure .void
  | .function params body => do
    let params ← Identifier.buildAll params
    return .function ⟨params, ← Draft.buildAll body⟩

/-- A name with its value. -/
def ValueDraft.buildBinding (binding : Identifier × ValueDraft) : Builder (Name × Value) := do
  let name ← binding.1.build
  return (name, ← binding.2.build)

/-- Several names with their values, first to last. -/
def ValueDraft.buildBindings (bindings : List (Identifier × ValueDraft)) :
    Builder (List (Name × Value)) := bindings.mapM buildBinding

namespace Builder

/-- Build with a table: the result, and the table with all texts that were met. -/
def runWith {α : Type} (b : Builder α) (names : NameTable) : Except EvalError α × NameTable :=
  match StateT.run (ExceptT.run b) names with
  | (.ok a, names) => (.ok a, names)
  | (.error e, names) => (.error (.ofUnknownSymbol e), names)

end Builder

end TreeWalk
