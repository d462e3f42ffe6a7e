import TreeWalk.Text.CodeRanges

/-!
# Blank characters

A character is blank if it has the Unicode property `White_Space`.  Blanks at
either end of a text are dropped before the text is read as a number.

## Main definitions

* `isBlank`: the property
* `trim`: a text without the blanks at its ends

## Main statements

* `isBlank_iff`: a character is blank exactly if the table holds it
-/

namespace TreeWalk.Text

/-- The code points with the property `White_Space`. -/
def blankRanges : CodeRanges where
  intervals := [
    (0x0009, 0x000d), (0x0020, 0x0020), (0x0085, 0x0085), (0x00a0, 0x00a0), (0x1680, 0x1680),
    (0x2000, 0x200a), (0x2028, 0x2029), (0x202f, 0x202f), (0x205f, 0x205f), (0x3000, 0x3000)]
  increasing := by decide

/-- Whether a character is blank. -/
def isBlank (c : Char) : Bool := blankRanges.covers c.toNat

theorem isBlank_iff {c : Char} :
    isBlank c ↔ ∃ r ∈ blankRanges.intervals, r.1 ≤ c.toNat ∧ c.toNat ≤ r.2 :=
  blankRanges.covers_iff c.toNat

theorem isBlank_newline : isBlank '\n' := by decide

/-- Drop the blanks at the start. -/
def trimStart (cs : List Char) : List Char := cs.dropWhile isBlank

/-- Drop the blanks at the end. -/
def trimEnd (cs : List Char) : List Char := (trimStart cs.reverse).reverse

/-- Drop the blanks at both ends. -/
def trim (cs : List Char) : List Char := trimEnd (trimStart cs)

/-- A blank at the end does not count, whatever stands before it. -/
theorem trim_append_singleton {c : Char} (h : isBlank c) (cs : List Char) :
    trim (cs ++ [c]) = trim cs := by
  unfold trim trimStart
  rw [List.dropWhile_append]
  split
  · next only_blanks =>
    rw [List.isEmpty_iff.mp only_blanks, List.dropWhile_cons_of_pos h, List.dropWhile_nil]
  · unfold trimEnd trimStart
    rw [List.reverse_append, List.reverse_singleton, List.singleton_append,
      List.dropWhile_cons_of_pos h]

end TreeWalk.Text
