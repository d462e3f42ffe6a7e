import TreeWalk.Text.Decimal

/-!
# Numbers

Programs compute with whole numbers of 64 bits, from `-2^63` to `2^63 - 1`.
Arithmetic is exact: a result is formed in `Int` and then has to fit.

## Main definitions

* `Number`: a signed 64-bit number
* `Number.ofInt?`: the number of an integer, if it is in range
* `Number.ofBool`: truth as `1` and falsity as `0`
* `Number.text`: the decimal form
* `Number.ofPlain?`, `Number.ofGrouped?`: the two notations that are read
-/

namespace TreeWalk

/-- The numbers of the language. -/
abbrev Number := Int64

namespace Number

/-- The integers that a number can hold, from `-2^63` to `2^63 - 1`. -/
def Fits (i : Int) : Prop := -9223372036854775808 ≤ i ∧ i ≤ 9223372036854775807

instance (i : Int) : Decidable (Fits i) := inferInstanceAs (Decidable (_ ∧ _))

/-- The number of an integer, if it is in range. -/
def ofInt? (i : Int) : Option Number := if Fits i then some (Int64.ofInt i) else none

/-- Truth values are the numbers `0` and `1`. -/
def ofBool (b : Bool) : Number := if b then 1 else 0

/-- The decimal form of a number. -/
def text (n : Number) : String := String.ofList (Text.Decimal.write n.toInt)

/-- Read an optional sign and plain digits. -/
def ofPlain? (cs : List Char) : Option Number :=
  (Text.Decimal.signed? Text.Decimal.plain? cs).bind ofInt?

/-- Read an optional sign and digits in groups. -/
def ofGrouped? (cs : List Char) : Option Number := (Text.Decimal.grouped? cs).bind ofInt?

/-- Every number is in range. -/
theorem fits_toInt (n : Number) : Fits n.toInt :=
  ⟨n.le_toInt, Int.le_of_lt_add_one n.toInt_lt⟩

/-- An integer has a number exactly if it is the value of one. -/
theorem ofInt?_eq_some_iff {i : Int} {n : Number} : ofInt? i = some n ↔ n.toInt = i := by
  unfold ofInt?
  split
  · next h =>
    have hi : (Int64.ofInt i).toInt = i := Int64.toInt_ofInt_of_le h.1 (Int.lt_add_one_of_le h.2)
    constructor
    · intro e
      cases e
      exact hi
    · intro e
      rw [← e, Int64.ofInt_toInt]
  · next h =>
    constructor
    · intro e
      cases e
    · intro e
      exact absurd (e ▸ fits_toInt n) h

/-- An integer without a number is out of range. -/
theorem ofInt?_eq_none_iff {i : Int} : ofInt? i = none ↔ ¬ Fits i := by
  simp [ofInt?]

@[simp] theorem ofInt?_toInt (n : Number) : ofInt? n.toInt = some n :=
  ofInt?_eq_some_iff.2 rfl

/-- The decimal form of a number reads as that number. -/
theorem ofPlain?_text (n : Number) : ofPlain? n.text.toList = some n := by
  simp [ofPlain?, text, Text.Decimal.signed?_plain?_write]

@[simp] theorem ofBool_true : ofBool true = 1 := rfl

@[simp] theorem ofBool_false : ofBool false = 0 := rfl

end Number

end TreeWalk
