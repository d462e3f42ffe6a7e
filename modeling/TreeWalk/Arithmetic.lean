import TreeWalk.Number.Checked
import TreeWalk.Value

/-!
# Arithmetic

Operators work on numbers and give numbers.  Where a result does not fit into a number
the operation overflows, and the error names it.

## Main definitions

* `UnaryOp.apply`, `BinaryOp.apply`: operators on numbers
* `UnaryOp.evaluate`, `BinaryOp.evaluate`: operators on values, where an operand
  may turn out not to be a number

## Design notes

Division rounds toward negative infinity and the remainder goes with it, so the
remainder is zero or has the sign of the divisor.  A zero divisor is an error of
its own, before the range of the result is looked at.
-/

namespace TreeWalk

/-- The result of an operation, or an overflow in it where there is none. -/
def checked (operation : String) (result : Option Number) : Except EvalError Number :=
  match result with
  | some n => .ok n
  | none => .error (.integerOverflow operation)

theorem checked_eq_error_iff {operation : String} {result : Option Number} {e : EvalError} :
    checked operation result = .error e ↔
      result = none ∧ e = .integerOverflow operation := by
  cases result <;> simp [checked, eq_comm]

namespace UnaryOp

/-- An operator on a number. -/
def apply (op : UnaryOp) (a : Number) : Except EvalError Number :=
  match op with
  | .neg => checked "negation" a.neg?
  | .not => .ok (.ofBool (a = 0))

/-- An operator on a value, which has to be a number. -/
def evaluate (op : UnaryOp) (operand : Value) : Except EvalError Value := do
  let a ← operand.toNumber
  return .number (← op.apply a)

/-- An operator sees no more of a value than its number, and its result is a
number again. -/
theorem evaluate_eq_map (op : UnaryOp) (v : Value) :
    op.evaluate v = (v.toNumber >>= op.apply).map Value.number := by
  unfold evaluate
  rcases v.toNumber with e | a
  · rfl
  · show (op.apply a >>= fun k => pure (Value.number k)) = (op.apply a).map Value.number
    rcases op.apply a with e | k <;> rfl

end UnaryOp

namespace BinaryOp

/-- An operator on two numbers. -/
def apply (op : BinaryOp) (a b : Number) : Except EvalError Number :=
  match op with
  | .add => checked "addition" (a.add? b)
  | .sub => checked "subtraction" (a.sub? b)
  | .mul => checked "multiplication" (a.mul? b)
  | .floorDiv => if b = 0 then .error .divisionByZero else checked "division" (a.floorDiv? b)
  | .mod => if b = 0 then .error .moduloByZero else checked "modulo" (a.floorMod? b)
  | .eq => .ok (.ofBool (a = b))
  | .notEq => .ok (.ofBool (a ≠ b))
  | .lt => .ok (.ofBool (a < b))
  | .ltEq => .ok (.ofBool (a ≤ b))
  | .gt => .ok (.ofBool (a > b))
  | .gtEq => .ok (.ofBool (a ≥ b))
  | .and => .ok (.ofBool (a ≠ 0 ∧ b ≠ 0))
  | .or => .ok (.ofBool (a ≠ 0 ∨ b ≠ 0))

/-- An operator on two values.  Both have to be numbers, and the left one is
looked at first. -/
def evaluate (op : BinaryOp) (left right : Value) : Except EvalError Value := do
  let a ← left.toNumber
  let b ← right.toNumber
  return .number (← op.apply a b)

theorem evaluate_eq_map (op : BinaryOp) (left right : Value) :
    op.evaluate left right =
      (left.toNumber >>= fun a => right.toNumber >>= op.apply a).map Value.number := by
  unfold evaluate
  rcases left.toNumber with e | a
  · rfl
  · rcases right.toNumber with e | b
    · rfl
    · show (op.apply a b >>= fun k => pure (Value.number k)) = (op.apply a b).map Value.number
      rcases op.apply a b with e | k <;> rfl

end BinaryOp

end TreeWalk
