/-!
# Lines

A text or a stream of bytes is cut into lines *after* each line end, so that the
pieces put together again give the whole.

## Main definitions

* `cutAfter`: the first piece, up to and including the first line end, and the
  rest
* `splitAfter`: all pieces
* `dropLineEnd`: a piece without its newline, and without one carriage return
  before that newline
* `lines`: the lines of a text without their line ends

## Design notes

The cuts are generic in the items and in the test for a line end: a stream of
bytes and a text of characters are cut by one function.  A carriage return is
part of the line end only where a newline follows it.
-/

namespace TreeWalk.Text

variable {α : Type}

/-- The items up to and including the first that ends a line, and the rest. -/
def cutAfter (isEnd : α → Bool) (xs : List α) : List α × List α :=
  match xs.dropWhile fun x => !isEnd x with
  | [] => (xs, [])
  | x :: rest => (xs.takeWhile (fun x => !isEnd x) ++ [x], rest)

/-- Put an item in front of pieces: it joins the first one, unless it is a line
end, which makes a piece of its own. -/
def splitStep (isEnd : α → Bool) (x : α) (pieces : List (List α)) : List (List α) :=
  if isEnd x then [x] :: pieces
  else match pieces with
    | [] => [[x]]
    | piece :: rest => (x :: piece) :: rest

/-- Cut after every line end.  A last piece without one is kept if it is not
empty. -/
def splitAfter (isEnd : α → Bool) (xs : List α) : List (List α) :=
  xs.foldr (splitStep isEnd) []

/-- The newline character ends a line of text. -/
def isNewline (c : Char) : Bool := c = '\n'

/-- The byte of a newline. -/
def newlineByte : UInt8 := 10

/-- Drop the newline at the end of a piece, and one carriage return before it. -/
def dropLineEnd (piece : List Char) : List Char :=
  match piece.reverse with
  | '\n' :: '\r' :: rest => rest.reverse
  | '\n' :: rest => rest.reverse
  | _ => piece

/-- The lines of a text, without their ends. -/
def lines (cs : List Char) : List (List Char) := (splitAfter isNewline cs).map dropLineEnd

@[simp] theorem splitAfter_nil (isEnd : α → Bool) : splitAfter isEnd [] = [] := rfl

@[simp] theorem splitAfter_cons (isEnd : α → Bool) (x : α) (xs : List α) :
    splitAfter isEnd (x :: xs) = splitStep isEnd x (splitAfter isEnd xs) := rfl

@[simp] theorem cutAfter_nil (isEnd : α → Bool) : cutAfter isEnd [] = ([], []) := rfl

/-- A line end closes the piece. -/
theorem cutAfter_cons_of_isEnd {isEnd : α → Bool} {x : α} (h : isEnd x) (xs : List α) :
    cutAfter isEnd (x :: xs) = ([x], xs) := by
  simp [cutAfter, h]

/-- Any other item joins the piece. -/
theorem cutAfter_cons_of_not_isEnd {isEnd : α → Bool} {x : α} (h : ¬ isEnd x) (xs : List α) :
    cutAfter isEnd (x :: xs) = (x :: (cutAfter isEnd xs).1, (cutAfter isEnd xs).2) := by
  simp only [cutAfter, List.dropWhile_cons, List.takeWhile_cons, h]
  cases xs.dropWhile fun x => !isEnd x <;> rfl

/-- Items without a line end join the piece together. -/
theorem cutAfter_append_of_not_isEnd {isEnd : α → Bool} {ys : List α} (h : ∀ y ∈ ys, ¬ isEnd y)
    (xs : List α) :
    cutAfter isEnd (ys ++ xs) = (ys ++ (cutAfter isEnd xs).1, (cutAfter isEnd xs).2) := by
  induction ys with
  | nil => rfl
  | cons y ys ih =>
    rw [List.forall_mem_cons] at h
    rw [List.cons_append, cutAfter_cons_of_not_isEnd h.1, ih h.2]
    rfl

/-- The first piece of a split is that of a cut, and the others are those of the
rest. -/
theorem splitAfter_of_ne_nil (isEnd : α → Bool) {xs : List α} (h : xs ≠ []) :
    splitAfter isEnd xs = (cutAfter isEnd xs).1 :: splitAfter isEnd (cutAfter isEnd xs).2 := by
  induction xs with
  | nil => exact absurd rfl h
  | cons x xs ih =>
    rw [splitAfter_cons]
    unfold splitStep
    by_cases hx : isEnd x
    · rw [if_pos hx, cutAfter_cons_of_isEnd hx]
    · rw [if_neg hx, cutAfter_cons_of_not_isEnd hx]
      cases xs with
      | nil => rfl
      | cons y ys => rw [ih (List.cons_ne_nil y ys)]

/-- Nothing is lost by a cut. -/
theorem cutAfter_append (isEnd : α → Bool) (xs : List α) :
    (cutAfter isEnd xs).1 ++ (cutAfter isEnd xs).2 = xs := by
  unfold cutAfter
  have whole := List.takeWhile_append_dropWhile (p := fun x => !isEnd x) (l := xs)
  split
  · simp
  · next h => rw [h] at whole; simpa using whole

/-- Nothing is lost by splitting. -/
theorem flatten_splitAfter (isEnd : α → Bool) (xs : List α) :
    (splitAfter isEnd xs).flatten = xs := by
  induction xs with
  | nil => rfl
  | cons x xs ih =>
    rw [splitAfter_cons]
    unfold splitStep
    split
    · simp [ih]
    · split
      · next h => simp [h] at ih; simp [← ih]
      · next h => rw [h] at ih; simpa using ih

end TreeWalk.Text
