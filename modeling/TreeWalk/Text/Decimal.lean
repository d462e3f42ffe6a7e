/-!
# Decimal notation

Numbers are written in decimal digits with a minus sign if they are negative.
They are read with or without a sign in front.  Single underscores may divide the
digits into groups.

## Main definitions

* `Decimal.write`: an integer in decimal
* `Decimal.plain?`: the value of plain digits
* `Decimal.signed?`: a notation with an optional sign in front
* `Decimal.Misgrouped`: underscores that do not divide digits
* `Decimal.grouped?`: the value of digits in groups, with an optional sign in front

## Design notes

The readers do not know a range: they give an integer of any size, and whoever
asked decides whether it fits.  Only the digits `0` to `9` count, and leading
zeros are allowed.

**Underscores are looked at first and then dropped.**  They are looked at behind the
sign, and they are dropped from the whole text, which is then read as if it had been
plain.
-/

namespace TreeWalk.Text.Decimal

/-- An integer in decimal, with a sign only if it is negative. -/
def write (i : Int) : List Char :=
  if i < 0 then '-' :: Nat.toDigits 10 i.natAbs else Nat.toDigits 10 i.natAbs

/-- The value of a list of digits. -/
def value (digits : List Char) : Nat := Nat.ofDigitChars 10 digits 0

/-- The value of one or more plain digits. -/
def plain? (cs : List Char) : Option Nat :=
  if cs ≠ [] ∧ cs.all Char.isDigit then some (value cs) else none

/-- Read one sign, if there is one, and then digits as `digits?` reads them. -/
def signed? (digits? : List Char → Option Nat) : List Char → Option Int
  | '+' :: cs => (digits? cs).map fun n : Nat => (n : Int)
  | '-' :: cs => (digits? cs).map fun n : Nat => -(n : Int)
  | cs => (digits? cs).map fun n : Nat => (n : Int)

/-- A text without the sign in front of it, if there is one. -/
def dropSign : List Char → List Char
  | '+' :: cs => cs
  | '-' :: cs => cs
  | cs => cs

/-- An underscore stands at an end, or next to another one. -/
def Misgrouped (cs : List Char) : Prop :=
  cs.head? = some '_' ∨ cs.getLast? = some '_' ∨ ['_', '_'] <:+: cs

instance (cs : List Char) : Decidable (Misgrouped cs) := inferInstanceAs (Decidable (_ ∨ _))

/-- Read one sign, if there is one, and then groups of digits that are divided by single
underscores. -/
def grouped? (cs : List Char) : Option Int :=
  if Misgrouped (dropSign cs) then none else signed? plain? (cs.filter (· ≠ '_'))

/-! ## Reading what was written -/

theorem all_isDigit_toDigits (n : Nat) : (Nat.toDigits 10 n).all Char.isDigit = true :=
  List.all_eq_true.2 fun _ h => Nat.isDigit_of_mem_toDigits (by decide) (by decide) h

/-- Plain digits of a number read as that number. -/
theorem plain?_toDigits (n : Nat) : plain? (Nat.toDigits 10 n) = some n := by
  simp [plain?, value, all_isDigit_toDigits, Nat.toDigits_ne_nil]

/-- A written integer reads as itself. -/
theorem signed?_plain?_write (i : Int) : signed? plain? (write i) = some i := by
  unfold write
  split
  · next h =>
    simp only [signed?, plain?_toDigits, Option.map_some, Option.some.injEq]
    omega
  · next h =>
    have digits := all_isDigit_toDigits i.natAbs
    have read := plain?_toDigits i.natAbs
    generalize Nat.toDigits 10 i.natAbs = cs at digits read
    unfold signed?
    split
    · simp [Char.isDigit] at digits
    · simp [Char.isDigit] at digits
    · rw [read]
      simp only [Option.map_some, Option.some.injEq]
      omega

end TreeWalk.Text.Decimal
