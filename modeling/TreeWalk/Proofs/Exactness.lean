import Mathlib.Algebra.Order.Floor.Ring
import Mathlib.Data.Rat.Floor
import Mathlib.Tactic.Linarith
import TreeWalk.Arithmetic

/-!
# Operators are exact

Numbers are words of 64 bits.  Division of words rounds the wrong way and is corrected,
and each step of the correction is checked on its own.  None of this can be seen from
outside: **every operator gives the result of exact integer arithmetic, or says why there
is none.**

## Main definitions

* `Yields`: the outcome of an operator is the number of an integer
* `YieldsInRange`: the same, or an overflow where the integer is out of range
* `BinaryOp.Holds`: what a boolean operator says of two integers

## Main statements

* `fdiv_eq_floor`: floor division is the floor of the rational quotient
* `evaluate_floorDiv`, `evaluate_mod`, `evaluate_isBoolean`: what division, remainder and
  the boolean operators come to
* `operators_exact`: what every operator comes to, on all operands
-/

namespace TreeWalk

/-! ## Exact outcomes -/

/-- The outcome is the number of the integer `i`. -/
def Yields (outcome : Except EvalError Value) (i : Int) : Prop :=
  ∃ k : Number, outcome = .ok (.number k) ∧ k.toInt = i

/-- The outcome is the number of the integer `i` if that is in range, and otherwise an
overflow in the named operation. -/
def YieldsInRange (operation : String) (outcome : Except EvalError Value) (i : Int) : Prop :=
  if -2 ^ 63 ≤ i ∧ i < 2 ^ 63 then Yields outcome i
  else outcome = .error (.integerOverflow operation)

/-- What a boolean operator says of two integers.  The others say nothing. -/
def BinaryOp.Holds (op : BinaryOp) (i j : Int) : Prop :=
  match op with
  | .eq => i = j
  | .notEq => i ≠ j
  | .lt => i < j
  | .ltEq => i ≤ j
  | .gt => i > j
  | .gtEq => i ≥ j
  | .and => i ≠ 0 ∧ j ≠ 0
  | .or => i ≠ 0 ∨ j ≠ 0
  | .add | .sub | .mul | .floorDiv | .mod => False

theorem yields_checked (operation : String) {i : Int} (h : Number.Fits i) :
    Yields ((checked operation (Number.ofInt? i)).map .number) i := by
  have there : Number.ofInt? i ≠ none := mt Number.ofInt?_eq_none_iff.mp (not_not.mpr h)
  obtain ⟨k, found⟩ := Option.ne_none_iff_exists'.mp there
  rw [found]
  exact ⟨k, rfl, Number.ofInt?_eq_some_iff.mp found⟩

/-- An exact result that is checked for its range. -/
theorem yieldsInRange_checked (operation : String) (i : Int) :
    YieldsInRange operation ((checked operation (Number.ofInt? i)).map .number) i := by
  unfold YieldsInRange
  split
  · next inRange => exact yields_checked operation ⟨inRange.1, Int.le_of_lt_add_one inRange.2⟩
  · next outOfRange =>
    have none : Number.ofInt? i = none :=
      Number.ofInt?_eq_none_iff.mpr fun fits => outOfRange ⟨fits.1, Int.lt_add_one_of_le fits.2⟩
    rw [none]
    rfl

/-! ## Integers and rationals -/

/-- Floor division is the floor of the rational quotient. -/
theorem fdiv_eq_floor {i j : Int} (h : j ≠ 0) : i.fdiv j = ⌊(i / j : ℚ)⌋ := by
  symm
  rw [Int.floor_eq_iff]
  rcases Int.lt_or_gt_of_ne h with negative | positive
  · obtain ⟨whole, above, below⟩ := (Int.fdiv_fmod_unique' (a := i) negative).mp ⟨rfl, rfl⟩
    have divisor : (j : ℚ) < 0 := by exact_mod_cast negative
    rw [le_div_iff_of_neg divisor, div_lt_iff_of_neg divisor]
    constructor
    · exact_mod_cast (by linarith : i ≤ i.fdiv j * j)
    · exact_mod_cast (by linarith : (i.fdiv j + 1) * j < i)
  · obtain ⟨whole, above, below⟩ := (Int.fdiv_fmod_unique (a := i) positive).mp ⟨rfl, rfl⟩
    have divisor : (0 : ℚ) < j := by exact_mod_cast positive
    rw [le_div_iff₀ divisor, div_lt_iff₀ divisor]
    constructor
    · exact_mod_cast (by linarith : i.fdiv j * j ≤ i)
    · exact_mod_cast (by linarith : i < (i.fdiv j + 1) * j)

/-- A remainder is smaller than the divisor, and has its sign unless it is zero. -/
theorem fmod_bounds (i : Int) {j : Int} (h : j ≠ 0) :
    |i.fmod j| < |j| ∧ (i.fmod j = 0 ∨ (i.fmod j).sign = j.sign) := by
  rcases Int.lt_or_gt_of_ne h with negative | positive
  · obtain ⟨-, above, below⟩ := (Int.fdiv_fmod_unique' (a := i) negative).mp ⟨rfl, rfl⟩
    refine ⟨?_, below.eq_or_lt.imp_right fun strictly => ?_⟩
    · rw [abs_of_nonpos below, abs_of_neg negative]
      exact neg_lt_neg above
    · rw [Int.sign_eq_neg_one_of_neg strictly, Int.sign_eq_neg_one_of_neg negative]
  · obtain ⟨-, above, below⟩ := (Int.fdiv_fmod_unique (a := i) positive).mp ⟨rfl, rfl⟩
    refine ⟨?_, above.eq_or_lt.imp Eq.symm fun strictly => ?_⟩
    · rw [abs_of_nonneg above, abs_of_pos positive]
      exact below
    · rw [Int.sign_eq_one_of_pos strictly, Int.sign_eq_one_of_pos positive]

/-! ## Operators -/

namespace Number

theorem ofBool_eq_zero_or_one (t : Bool) : ofBool t = 0 ∨ ofBool t = 1 := by
  cases t <;> decide

theorem ofBool_eq_one_iff {t : Bool} : ofBool t = 1 ↔ t = true := by
  cases t <;> decide

end Number

namespace UnaryOp

theorem evaluate_of_not_number (op : UnaryOp) (v : Value) (h : ∀ k, v ≠ .number k) :
    op.evaluate v = .error (.typeMismatch "number" v.typeName) := by
  rw [evaluate_eq_map, Value.toNumber_eq_error_iff.mpr ⟨h, rfl⟩]
  rfl

/-- What negation comes to: only the least number has no counterpart. -/
theorem evaluate_neg (a : Number) :
    if a.toInt = -2 ^ 63 then neg.evaluate (.number a) = .error (.integerOverflow "negation")
    else Yields (neg.evaluate (.number a)) (-a.toInt) := by
  split
  · next least =>
    obtain rfl : a = Int64.minValue := Int64.toInt_inj.mp least
    rfl
  · next other =>
    obtain ⟨low, high⟩ := Number.fits_toInt a
    exact yields_checked "negation" ⟨by omega, by omega⟩

/-- What logical negation comes to. -/
theorem evaluate_not (a : Number) :
    ∃ k : Number, not.evaluate (.number a) = .ok (.number k) ∧ (k = 0 ∨ k = 1) ∧
      (k = 1 ↔ a.toInt = 0) := by
  refine ⟨.ofBool (a = 0), rfl, Number.ofBool_eq_zero_or_one _, ?_⟩
  rw [Number.ofBool_eq_one_iff, decide_eq_true_iff, Number.toInt_eq_zero_iff]

end UnaryOp

namespace BinaryOp

/-- On numbers, an operator comes to what it comes to on their words. -/
theorem evaluate_number (op : BinaryOp) (a b : Number) :
    op.evaluate (.number a) (.number b) = (op.apply a b).map .number := op.evaluate_eq_map _ _

theorem evaluate_of_left_not_number (op : BinaryOp) (v w : Value) (h : ∀ k, v ≠ .number k) :
    op.evaluate v w = .error (.typeMismatch "number" v.typeName) := by
  rw [evaluate_eq_map, Value.toNumber_eq_error_iff.mpr ⟨h, rfl⟩]
  rfl

theorem evaluate_of_right_not_number (op : BinaryOp) (a : Number) (w : Value)
    (h : ∀ k, w ≠ .number k) :
    op.evaluate (.number a) w = .error (.typeMismatch "number" w.typeName) := by
  rw [evaluate_eq_map, Value.toNumber_eq_error_iff.mpr ⟨h, rfl⟩]
  rfl

variable (a b : Number)

/-- What division comes to.  There is a floor unless the divisor is zero, and of all floors
one is out of range. -/
theorem evaluate_floorDiv :
    if b.toInt = 0 then
      floorDiv.evaluate (.number a) (.number b) = .error .divisionByZero
    else if a.toInt = -2 ^ 63 ∧ b.toInt = -1 then
      floorDiv.evaluate (.number a) (.number b) = .error (.integerOverflow "division")
    else Yields (floorDiv.evaluate (.number a) (.number b)) ⌊(a.toInt / b.toInt : ℚ)⌋ := by
  split
  · next zero =>
    obtain rfl : b = 0 := Int64.toInt_inj.mp zero
    rfl
  · next nonzero =>
    split
    · next least =>
      obtain rfl : a = Int64.minValue := Int64.toInt_inj.mp least.1
      obtain rfl : b = -1 := Int64.toInt_inj.mp least.2
      rfl
    · next other =>
      have divisor : b ≠ 0 := fun zero => nonzero (congrArg Int64.toInt zero)
      have fits : Number.Fits (a.toInt.fdiv b.toInt) := by
        refine (Number.fits_fdiv_iff divisor).mpr ?_
        rintro ⟨rfl, rfl⟩
        exact other ⟨rfl, rfl⟩
      rw [evaluate_number, apply, if_neg divisor, Number.floorDiv?_eq_ofInt? divisor,
        ← fdiv_eq_floor nonzero]
      exact yields_checked "division" fits

/-- What a remainder comes to.  It always fits, is smaller than the divisor, and has its
sign unless it is zero. -/
theorem evaluate_mod :
    if b.toInt = 0 then mod.evaluate (.number a) (.number b) = .error .moduloByZero
    else
      ∃ k : Number, mod.evaluate (.number a) (.number b) = .ok (.number k) ∧
        k.toInt = a.toInt - b.toInt * ⌊(a.toInt / b.toInt : ℚ)⌋ ∧
        |k.toInt| < |b.toInt| ∧ (k.toInt = 0 ∨ k.toInt.sign = b.toInt.sign) := by
  split
  · next zero =>
    obtain rfl : b = 0 := Int64.toInt_inj.mp zero
    rfl
  · next nonzero =>
    have divisor : b ≠ 0 := fun zero => nonzero (congrArg Int64.toInt zero)
    rw [evaluate_number, apply, if_neg divisor, Number.floorMod?_eq_ofInt? divisor]
    have fits : Number.Fits (a.toInt.fmod b.toInt) := Number.fits_fmod divisor
    obtain ⟨k, outcome, value⟩ := yields_checked "modulo" fits
    obtain ⟨small, sign⟩ := fmod_bounds a.toInt nonzero
    rw [← value] at small sign
    exact ⟨k, outcome, by rw [value, Int.fmod_def, fdiv_eq_floor nonzero], small, sign⟩

/-- On words, a boolean operator decides what it says of integers. -/
theorem apply_isBoolean {op : BinaryOp} (h : op.isBoolean) :
    ∃ t : Bool, op.apply a b = .ok (.ofBool t) ∧ (t = true ↔ op.Holds a.toInt b.toInt) := by
  cases op with
  | add | sub | mul | floorDiv | mod => cases h
  | eq | notEq =>
    refine ⟨_, rfl, ?_⟩
    simp only [decide_eq_true_iff, Holds, ne_eq, Int64.toInt_inj]
  | lt | gt =>
    refine ⟨_, rfl, ?_⟩
    simp only [decide_eq_true_iff, Holds, gt_iff_lt, Int64.lt_iff_toInt_lt]
  | ltEq | gtEq =>
    refine ⟨_, rfl, ?_⟩
    simp only [decide_eq_true_iff, Holds, ge_iff_le, Int64.le_iff_toInt_le]
  | and | or =>
    refine ⟨_, rfl, ?_⟩
    simp only [decide_eq_true_iff, Holds, ne_eq, Number.toInt_eq_zero_iff]

/-- A boolean operator always comes to `0` or `1`, and to `1` exactly if what it says is
so. -/
theorem evaluate_isBoolean {op : BinaryOp} (h : op.isBoolean) :
    ∃ k : Number, op.evaluate (.number a) (.number b) = .ok (.number k) ∧ (k = 0 ∨ k = 1) ∧
      (k = 1 ↔ op.Holds a.toInt b.toInt) := by
  obtain ⟨t, outcome, decides⟩ := apply_isBoolean a b h
  refine ⟨.ofBool t, ?_, Number.ofBool_eq_zero_or_one t, Number.ofBool_eq_one_iff.trans decides⟩
  rw [evaluate_number, outcome]
  rfl

end BinaryOp

/-- **Every operator is exact.**  An operand that is no number is a type mismatch; of two
operands the left one is looked at first.  On numbers, the results are those of exact
integer arithmetic. -/
theorem operators_exact :
    (∀ (op : UnaryOp) (v : Value), (∀ k, v ≠ .number k) →
      op.evaluate v = .error (.typeMismatch "number" v.typeName)) ∧
    (∀ (op : BinaryOp) (v w : Value), (∀ k, v ≠ .number k) →
      op.evaluate v w = .error (.typeMismatch "number" v.typeName)) ∧
    (∀ (op : BinaryOp) (a : Number) (w : Value), (∀ k, w ≠ .number k) →
      op.evaluate (.number a) w = .error (.typeMismatch "number" w.typeName)) ∧
    ∀ a b : Number,
      YieldsInRange "addition" (BinaryOp.add.evaluate (.number a) (.number b))
        (a.toInt + b.toInt) ∧
      YieldsInRange "subtraction" (BinaryOp.sub.evaluate (.number a) (.number b))
        (a.toInt - b.toInt) ∧
      YieldsInRange "multiplication" (BinaryOp.mul.evaluate (.number a) (.number b))
        (a.toInt * b.toInt) ∧
      (if b.toInt = 0 then
        BinaryOp.floorDiv.evaluate (.number a) (.number b) = .error .divisionByZero
      else if a.toInt = -2 ^ 63 ∧ b.toInt = -1 then
        BinaryOp.floorDiv.evaluate (.number a) (.number b) =
          .error (.integerOverflow "division")
      else
        Yields (BinaryOp.floorDiv.evaluate (.number a) (.number b))
          ⌊(a.toInt / b.toInt : ℚ)⌋) ∧
      (if b.toInt = 0 then
        BinaryOp.mod.evaluate (.number a) (.number b) = .error .moduloByZero
      else
        ∃ k : Number, BinaryOp.mod.evaluate (.number a) (.number b) = .ok (.number k) ∧
          k.toInt = a.toInt - b.toInt * ⌊(a.toInt / b.toInt : ℚ)⌋ ∧
          |k.toInt| < |b.toInt| ∧ (k.toInt = 0 ∨ k.toInt.sign = b.toInt.sign)) ∧
      (∀ op : BinaryOp, op.isBoolean →
        ∃ k : Number, op.evaluate (.number a) (.number b) = .ok (.number k) ∧
          (k = 0 ∨ k = 1) ∧ (k = 1 ↔ op.Holds a.toInt b.toInt)) ∧
      (if a.toInt = -2 ^ 63 then
        UnaryOp.neg.evaluate (.number a) = .error (.integerOverflow "negation")
      else Yields (UnaryOp.neg.evaluate (.number a)) (-a.toInt)) ∧
      ∃ k : Number, UnaryOp.not.evaluate (.number a) = .ok (.number k) ∧
        (k = 0 ∨ k = 1) ∧ (k = 1 ↔ a.toInt = 0) := by
  refine ⟨UnaryOp.evaluate_of_not_number, BinaryOp.evaluate_of_left_not_number,
    BinaryOp.evaluate_of_right_not_number, fun a b => ?_⟩
  exact ⟨yieldsInRange_checked .., yieldsInRange_checked .., yieldsInRange_checked ..,
    BinaryOp.evaluate_floorDiv a b, BinaryOp.evaluate_mod a b,
    fun _ => BinaryOp.evaluate_isBoolean a b, UnaryOp.evaluate_neg a, UnaryOp.evaluate_not a⟩

/-- The least number and `-1`: the quotient is the one that does not fit, and the remainder
is zero all the same.  Where both operands are wrong, the error names the left one. -/
theorem operators_exact_least_by_minus_one :
    (∀ k, Value.void ≠ .number k) ∧
      BinaryOp.mod.evaluate .void (.function ⟨[], []⟩) = .error (.typeMismatch "number" "void") ∧
      BinaryOp.floorDiv.evaluate (.number Int64.minValue) (.number (-1)) =
        .error (.integerOverflow "division") ∧
      Yields (BinaryOp.mod.evaluate (.number Int64.minValue) (.number (-1))) 0 := by
  obtain ⟨-, left, -, numbers⟩ := operators_exact
  obtain ⟨-, -, -, quotient, remainder, -⟩ := numbers Int64.minValue (-1)
  rw [if_neg (by decide), if_pos (by decide)] at quotient
  rw [if_neg (by decide)] at remainder
  obtain ⟨k, outcome, -, small, -⟩ := remainder
  have zero : k.toInt = 0 := Int.abs_lt_one_iff.mp small
  exact ⟨fun _ => nofun, left .mod .void _ fun _ => nofun, quotient, k, outcome, zero⟩

end TreeWalk
