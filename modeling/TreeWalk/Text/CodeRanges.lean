/-!
# Sets of characters as ranges of code points

The classes of characters that matter here are published as sorted lists of
closed intervals of code points.  A class is kept in that form and asked whether
it covers a code point.

## Main definitions

* `CodeRanges`: closed intervals, in increasing order
* `CodeRanges.covers`: membership, which stops at the first interval that begins
  beyond the code point

## Main statements

* `CodeRanges.covers_iff`: a code point is covered exactly if one of the intervals
  holds it

## Design notes

**The order that makes stopping early right is part of the type.**  A table is
checked where it is written down, and nothing that is said of membership has to
mention the order again.
-/

namespace TreeWalk.Text

namespace CodeRanges

/-- The intervals begin at or above `least`, are not empty and do not touch. -/
def increasingFrom : Nat → List (Nat × Nat) → Bool
  | _, [] => true
  | least, (lo, hi) :: rest => least ≤ lo && lo ≤ hi && increasingFrom (hi + 2) rest

/-- Whether some interval holds the code point; later intervals are not looked
at once one begins beyond it. -/
def search : List (Nat × Nat) → Nat → Bool
  | [], _ => false
  | (lo, hi) :: rest, n => lo ≤ n && (n ≤ hi || search rest n)

end CodeRanges

/-- Closed intervals of code points in increasing order, with a gap after each. -/
structure CodeRanges where
  intervals : List (Nat × Nat)
  increasing : CodeRanges.increasingFrom 0 intervals = true

namespace CodeRanges

/-- Whether a class has the code point. -/
def covers (rs : CodeRanges) (n : Nat) : Bool := search rs.intervals n

theorem least_le_of_mem {intervals : List (Nat × Nat)} {least : Nat}
    (h : increasingFrom least intervals = true) : ∀ r ∈ intervals, least ≤ r.1 := by
  induction intervals generalizing least with
  | nil => simp
  | cons r rest ih =>
    obtain ⟨lo, hi⟩ := r
    simp only [increasingFrom, Bool.and_eq_true, decide_eq_true_eq] at h
    intro r hr
    rcases List.mem_cons.1 hr with rfl | hr
    · exact h.1.1
    · have := ih h.2 r hr
      omega

/-- A search through increasing intervals finds a code point exactly if one of
them holds it. -/
theorem search_iff {intervals : List (Nat × Nat)} {least : Nat}
    (h : increasingFrom least intervals = true) (n : Nat) :
    search intervals n = true ↔ ∃ r ∈ intervals, r.1 ≤ n ∧ n ≤ r.2 := by
  induction intervals generalizing least with
  | nil => simp [search]
  | cons r rest ih =>
    obtain ⟨lo, hi⟩ := r
    simp only [increasingFrom, Bool.and_eq_true, decide_eq_true_eq] at h
    have above := least_le_of_mem h.2
    simp only [search, Bool.and_eq_true, Bool.or_eq_true, decide_eq_true_eq, ih h.2,
      List.mem_cons]
    constructor
    · rintro ⟨hlo, hhi | ⟨r, hr, inside⟩⟩
      · exact ⟨_, .inl rfl, hlo, hhi⟩
      · exact ⟨r, .inr hr, inside⟩
    · rintro ⟨r, rfl | hr, hlo, hhi⟩
      · exact ⟨hlo, .inl hhi⟩
      · have := above r hr
        exact ⟨by omega, .inr ⟨r, hr, hlo, hhi⟩⟩

/-- **A class has a code point exactly if one of its intervals holds it.** -/
theorem covers_iff (rs : CodeRanges) (n : Nat) :
    rs.covers n = true ↔ ∃ r ∈ rs.intervals, r.1 ≤ n ∧ n ≤ r.2 :=
  search_iff rs.increasing n

end CodeRanges

end TreeWalk.Text
