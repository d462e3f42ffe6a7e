import TreeWalk.Value

/-!
# Scopes

A scope is a table of names with their values.  A `ScopeId` is a handle to one,
and a `Frame` is the scope itself: its own bindings, and the scope that it is
nested in.

## Main definitions

* `ScopeId`: the position of a frame
* `Bindings`: names with their values, each name at most once
* `Frame`: the bindings of one scope, and its parent

## Design notes

Bindings keep the order of first assignment.  No answer depends on that order;
it makes an assignment to a bound name change one entry and nothing else, so two
tables that were treated alike are equal and not merely alike.
-/

namespace TreeWalk

/-- A handle to a scope: the position of its frame. -/
structure ScopeId where
  index : Nat
  deriving DecidableEq, Repr

namespace ScopeId

/-- The outermost scope. -/
def root : ScopeId := ⟨0⟩

instance : Inhabited ScopeId := ⟨root⟩

/-- The written form of a handle. -/
def text (s : ScopeId) : String := "ScopeId(" ++ s.index.repr ++ ")"

end ScopeId

/-- Names with their values. -/
abbrev Bindings := List (Name × Value)

namespace Bindings

/-- Bind a name: an existing entry is changed, a new one goes to the end. -/
def assign (x : Name) (v : Value) : Bindings → Bindings
  | [] => [(x, v)]
  | (y, w) :: rest => if y = x then (x, v) :: rest else (y, w) :: assign x v rest

/-- Bind several names, first to last: of two values for one name the last
counts. -/
def assignAll (bs : Bindings) (more : List (Name × Value)) : Bindings :=
  more.foldl (fun bs b => bs.assign b.1 b.2) bs

/-- The value of a name. -/
def find? : Bindings → Name → Option Value
  | [], _ => none
  | (y, v) :: rest, x => if x = y then some v else find? rest x

@[simp] theorem find?_nil (x : Name) : find? [] x = none := rfl

theorem find?_cons (x y : Name) (v : Value) (rest : Bindings) :
    find? ((x, v) :: rest) y = if y = x then some v else find? rest y := rfl

theorem assign_cons (x y : Name) (v w : Value) (rest : Bindings) :
    assign x v ((y, w) :: rest) =
      if y = x then (x, v) :: rest else (y, w) :: assign x v rest := rfl

/-- An assignment changes the value of one name. -/
theorem find?_assign (bs : Bindings) (x y : Name) (v : Value) :
    (bs.assign x v).find? y = if y = x then some v else bs.find? y := by
  induction bs with
  | nil => rw [assign, find?_cons]
  | cons b rest ih =>
    obtain ⟨z, w⟩ := b
    unfold assign
    by_cases hz : z = x
    · subst hz
      rw [if_pos rfl, find?_cons, find?_cons]
      split <;> rfl
    · rw [if_neg hz, find?_cons, find?_cons, ih]
      by_cases h : y = z
      · subst h
        rw [if_pos rfl, if_neg hz, if_pos rfl]
      · rw [if_neg h, if_neg h]

end Bindings

/-- One scope: its own bindings, and the scope it is nested in, if any. -/
structure Frame where
  bindings : Bindings
  parent : Option ScopeId
  deriving DecidableEq

/-- Bind a name in a frame. -/
def Frame.assign (f : Frame) (x : Name) (v : Value) : Frame :=
  { f with bindings := f.bindings.assign x v }

end TreeWalk
