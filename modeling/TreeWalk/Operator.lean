/-!
# Operators

The set of operators is closed: two that take one operand and thirteen that take
two.  A symbol is turned into an operator when a tree is built, so evaluation
never meets a symbol that it does not know.

## Main definitions

* `UnaryOp`, `BinaryOp`: the operators
* `UnaryOp.symbol`, `BinaryOp.symbol`: their written form
* `UnaryOp.ofSymbol`, `BinaryOp.ofSymbol`: the operator of a symbol, or the
  symbol that names none
-/

namespace TreeWalk

/-- A symbol that names no operator. -/
structure UnknownSymbol where
  symbol : String
  deriving DecidableEq, Repr

namespace UnknownSymbol

/-- The wording of the complaint quotes the symbol as it was written. -/
def message (e : UnknownSymbol) : String := "unknown operator `" ++ e.symbol ++ "`"

end UnknownSymbol

/-- Operators on one operand. -/
inductive UnaryOp where
  /-- Arithmetic negation, `-`. -/
  | neg
  /-- Logical negation, `!`. -/
  | not
  deriving DecidableEq, Repr

namespace UnaryOp

/-- Every unary operator. -/
def all : List UnaryOp := [.neg, .not]

/-- The written form. -/
def symbol : UnaryOp → String
  | .neg => "-"
  | .not => "!"

/-- The operator that a symbol names. -/
def ofSymbol (s : String) : Except UnknownSymbol UnaryOp :=
  match all.find? (·.symbol = s) with
  | some op => .ok op
  | none => .error ⟨s⟩

theorem mem_all (op : UnaryOp) : op ∈ all := by cases op <;> decide

@[simp] theorem ofSymbol_symbol (op : UnaryOp) : ofSymbol op.symbol = .ok op := by
  cases op <;> rfl

end UnaryOp

/-- Operators on two operands. -/
inductive BinaryOp where
  | add
  | sub
  | mul
  /-- Division rounded toward negative infinity, `/`. -/
  | floorDiv
  /-- The remainder of that division, `%`; it has the sign of the divisor. -/
  | mod
  | eq
  | notEq
  | lt
  | ltEq
  | gt
  | gtEq
  | and
  | or
  deriving DecidableEq, Repr

namespace BinaryOp

/-- Every binary operator: arithmetic, then comparison, then logic. -/
def all : List BinaryOp :=
  [.add, .sub, .mul, .floorDiv, .mod, .eq, .notEq, .lt, .ltEq, .gt, .gtEq, .and, .or]

/-- The written form. -/
def symbol : BinaryOp → String
  | .add => "+"
  | .sub => "-"
  | .mul => "*"
  | .floorDiv => "/"
  | .mod => "%"
  | .eq => "=="
  | .notEq => "!="
  | .lt => "<"
  | .ltEq => "<="
  | .gt => ">"
  | .gtEq => ">="
  | .and => "&&"
  | .or => "||"

/-- The operators whose result is always `0` or `1`. -/
def isBoolean : BinaryOp → Bool
  | .add | .sub | .mul | .floorDiv | .mod => false
  | _ => true

/-- The operator that a symbol names. -/
def ofSymbol (s : String) : Except UnknownSymbol BinaryOp :=
  match all.find? (·.symbol = s) with
  | some op => .ok op
  | none => .error ⟨s⟩

/-- The place of an operator in `all`. -/
def position (op : BinaryOp) : Nat := all.idxOf op

theorem mem_all (op : BinaryOp) : op ∈ all := by cases op <;> decide

@[simp] theorem ofSymbol_symbol (op : BinaryOp) : ofSymbol op.symbol = .ok op := by
  cases op <;> rfl

end BinaryOp

end TreeWalk
