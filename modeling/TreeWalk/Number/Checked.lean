import TreeWalk.Number

/-!
# Checked arithmetic on numbers

A number is a word of 64 bits, and not every result fits into one.  Each operation here
gives a number, or nothing where the result does not fit or where there is none.

## Main definitions

* `Number.add?`, `Number.sub?`, `Number.mul?`, `Number.neg?`: the exact result, if it fits
* `Number.quotient?`, `Number.remainder?`: division of words, which rounds toward zero
* `Number.floorDiv?`, `Number.floorMod?`: division that rounds toward negative infinity

## Main statements

* `Number.floorDiv?_eq_ofInt?`, `Number.floorMod?_eq_ofInt?`: corrected division is floor
  division of exact integers
* `Number.fits_fmod`, `Number.fits_fdiv_iff`: a remainder always fits, and a floor always
  but once

## Design notes

Words divide toward zero.  **The floor is a correction of that**: where the division
leaves a remainder whose sign is not that of the divisor, the quotient goes down by one
and the remainder up by one divisor.  The least number divided by `-1` does not fit, and
words refuse to give the remainder of that division too, although it is `0`.  So
`floorMod?` looks out for `-1` first.
-/

namespace TreeWalk.Number

/-- The sum, if it fits. -/
def add? (a b : Number) : Option Number := ofInt? (a.toInt + b.toInt)

/-- The difference, if it fits. -/
def sub? (a b : Number) : Option Number := ofInt? (a.toInt - b.toInt)

/-- The product, if it fits. -/
def mul? (a b : Number) : Option Number := ofInt? (a.toInt * b.toInt)

/-- The number with the other sign, if it fits. -/
def neg? (a : Number) : Option Number := ofInt? (-a.toInt)

/-- The divisions of words that are refused: by zero, and the one whose quotient does not
fit. -/
def Undivided (a b : Number) : Prop := b = 0 ∨ a = Int64.minValue ∧ b = -1

instance (a b : Number) : Decidable (Undivided a b) := inferInstanceAs (Decidable (_ ∨ _))

/-- The quotient, rounded toward zero. -/
def quotient? (a b : Number) : Option Number := if Undivided a b then none else some (a / b)

/-- The remainder of that division; it has the sign of `a`. -/
def remainder? (a b : Number) : Option Number := if Undivided a b then none else some (a % b)

/-- Whether a division with remainder `r` was rounded up. -/
def RoundedUp (r b : Number) : Prop := r ≠ 0 ∧ ¬ (r < 0 ↔ b < 0)

instance (r b : Number) : Decidable (RoundedUp r b) := inferInstanceAs (Decidable (_ ∧ _))

/-- The quotient, rounded toward negative infinity. -/
def floorDiv? (a b : Number) : Option Number := do
  let q ← a.quotient? b
  let r ← a.remainder? b
  if RoundedUp r b then q.sub? 1 else some q

/-- The remainder of that division; it has the sign of `b`. -/
def floorMod? (a b : Number) : Option Number :=
  if b = -1 then some 0
  else do
    let r ← a.remainder? b
    if RoundedUp r b then r.add? b else some r

/-! ## Words and integers -/

section

variable {a b : Number}

theorem toInt_eq_zero_iff : a.toInt = 0 ↔ a = 0 := Int64.toInt_inj (y := 0)

theorem toInt_ne_zero (h : b ≠ 0) : b.toInt ≠ 0 := mt toInt_eq_zero_iff.mp h

/-- A division that is not refused is that of the integers. -/
theorem toInt_div (h : ¬ Undivided a b) : (a / b).toInt = a.toInt.tdiv b.toInt := by
  by_cases least : a = Int64.minValue
  · exact Int64.toInt_div_of_ne_right a b fun unit => h (.inr ⟨least, unit⟩)
  · exact Int64.toInt_div_of_ne_left a b least

theorem roundedUp_mod_iff :
    RoundedUp (a % b) b ↔
      a.toInt.tmod b.toInt ≠ 0 ∧ ¬ (a.toInt.tmod b.toInt < 0 ↔ b.toInt < 0) := by
  rw [RoundedUp, Int64.lt_iff_toInt_lt, Int64.lt_iff_toInt_lt, ne_eq, ← Int64.toInt_inj,
    Int64.toInt_mod]
  rfl

theorem natAbs_tmod_lt (i : Int) {j : Int} (h : j ≠ 0) : (i.tmod j).natAbs < j.natAbs := by
  rw [Int.natAbs_tmod]
  exact Nat.mod_lt _ (Int.natAbs_pos.mpr h)

/-- A division that was rounded up is corrected, quotient and remainder together. -/
theorem fdiv_fmod_of_roundedUp (h : b ≠ 0) (up : RoundedUp (a % b) b) :
    a.toInt.fdiv b.toInt = a.toInt.tdiv b.toInt - 1 ∧
      a.toInt.fmod b.toInt = a.toInt.tmod b.toInt + b.toInt := by
  rw [roundedUp_mod_iff] at up
  have small := natAbs_tmod_lt a.toInt (toInt_ne_zero h)
  have whole : a.toInt.tmod b.toInt + b.toInt + b.toInt * (a.toInt.tdiv b.toInt - 1) =
      a.toInt := by
    rw [Int.tmod_def, Int.mul_sub, Int.mul_one]
    omega
  rcases Int.lt_or_gt_of_ne (toInt_ne_zero h) with negative | positive
  · exact (Int.fdiv_fmod_unique' negative).mpr ⟨whole, by omega, by omega⟩
  · exact (Int.fdiv_fmod_unique positive).mpr ⟨whole, by omega, by omega⟩

/-- A division that was not rounded up stays as it is. -/
theorem fdiv_fmod_of_not_roundedUp (h : b ≠ 0) (down : ¬ RoundedUp (a % b) b) :
    a.toInt.fdiv b.toInt = a.toInt.tdiv b.toInt ∧
      a.toInt.fmod b.toInt = a.toInt.tmod b.toInt := by
  rw [roundedUp_mod_iff] at down
  have small := natAbs_tmod_lt a.toInt (toInt_ne_zero h)
  have whole : a.toInt.tmod b.toInt + b.toInt * a.toInt.tdiv b.toInt = a.toInt := by
    rw [Int.tmod_def]
    omega
  rcases Int.lt_or_gt_of_ne (toInt_ne_zero h) with negative | positive
  · exact (Int.fdiv_fmod_unique' negative).mpr ⟨whole, by omega, by omega⟩
  · exact (Int.fdiv_fmod_unique positive).mpr ⟨whole, by omega, by omega⟩

/-! ## Floor division -/

/-- **Corrected division is floor division of exact integers**, and gives nothing only
where the floor does not fit. -/
theorem floorDiv?_eq_ofInt? (h : b ≠ 0) : floorDiv? a b = ofInt? (a.toInt.fdiv b.toInt) := by
  by_cases refused : Undivided a b
  · obtain ⟨rfl, rfl⟩ := refused.resolve_left h
    rfl
  · have divided : floorDiv? a b =
        if RoundedUp (a % b) b then (a / b).sub? 1 else some (a / b) := by
      rw [floorDiv?, quotient?, remainder?, if_neg refused, if_neg refused]
      rfl
    rw [divided]
    split
    · next up =>
      rw [(fdiv_fmod_of_roundedUp h up).1, sub?, toInt_div refused]
      rfl
    · next down =>
      rw [(fdiv_fmod_of_not_roundedUp h down).1, ← toInt_div refused, ofInt?_toInt]

theorem floorMod?_neg_one (a : Number) : floorMod? a (-1) = ofInt? (a.toInt.fmod (-1)) := by
  have rest : a.toInt.fmod (-1) = 0 :=
    ((Int.fdiv_fmod_unique' (q := -a.toInt) (by decide)).mpr ⟨by omega, by decide, by decide⟩).2
  rw [rest]
  rfl

/-- **The corrected remainder is that of floor division of exact integers.** -/
theorem floorMod?_eq_ofInt? (h : b ≠ 0) : floorMod? a b = ofInt? (a.toInt.fmod b.toInt) := by
  by_cases unit : b = -1
  · subst unit
    exact floorMod?_neg_one a
  · have divided : floorMod? a b =
        if RoundedUp (a % b) b then (a % b).add? b else some (a % b) := by
      have allowed : ¬ Undivided a b := fun refused => refused.elim h fun both => unit both.2
      rw [floorMod?, if_neg unit, remainder?, if_neg allowed]
      rfl
    rw [divided]
    split
    · next up => rw [(fdiv_fmod_of_roundedUp h up).2, add?, Int64.toInt_mod]
    · next down =>
      rw [(fdiv_fmod_of_not_roundedUp h down).2, ← Int64.toInt_mod, ofInt?_toInt]

/-! ## Which results fit -/

/-- A remainder lies between zero and the divisor, so it fits. -/
theorem fits_fmod (h : b ≠ 0) : Fits (a.toInt.fmod b.toInt) := by
  obtain ⟨low, high⟩ := fits_toInt b
  rcases Int.lt_or_gt_of_ne (toInt_ne_zero h) with negative | positive
  · obtain ⟨-, above, below⟩ := (Int.fdiv_fmod_unique' (a := a.toInt) negative).mp ⟨rfl, rfl⟩
    exact ⟨by omega, by omega⟩
  · obtain ⟨-, above, below⟩ := (Int.fdiv_fmod_unique (a := a.toInt) positive).mp ⟨rfl, rfl⟩
    exact ⟨by omega, by omega⟩

/-- The floor of every division that is not refused fits. -/
theorem fits_fdiv (h : ¬ Undivided a b) : Fits (a.toInt.fdiv b.toInt) := by
  have divisor : b ≠ 0 := fun zero => h (.inl zero)
  by_cases up : RoundedUp (a % b) b
  · -- There is a remainder, so the divisor is not a unit and the quotient is far from the
    -- ends of the range.
    rw [(fdiv_fmod_of_roundedUp divisor up).1]
    have two : 2 ≤ b.toInt.natAbs := by
      have small := natAbs_tmod_lt a.toInt (toInt_ne_zero divisor)
      have remains := (roundedUp_mod_iff.mp up).1
      omega
    have half : (a.toInt.tdiv b.toInt).natAbs ≤ a.toInt.natAbs / 2 := by
      rw [Int.natAbs_tdiv]
      exact Nat.div_le_div_left two (by decide)
    obtain ⟨low, high⟩ := fits_toInt a
    exact ⟨by omega, by omega⟩
  · rw [(fdiv_fmod_of_not_roundedUp divisor up).1, ← toInt_div h]
    exact fits_toInt _

/-- **Of all floors only one does not fit.** -/
theorem fits_fdiv_iff (h : b ≠ 0) :
    Fits (a.toInt.fdiv b.toInt) ↔ ¬ (a = Int64.minValue ∧ b = -1) := by
  constructor
  · rintro fits ⟨rfl, rfl⟩
    exact absurd fits (by decide)
  · intro other
    exact fits_fdiv fun refused => refused.elim h other

end

end TreeWalk.Number
