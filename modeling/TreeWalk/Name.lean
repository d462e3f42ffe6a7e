/-!
# Names

A program never compares the texts of its identifiers.  Each text is entered
into a table once, and from then on it is a `Name`: the index under which the
table keeps it.

## Main definitions

* `Name`: an index into a name table
* `Name.empty`: the index that every table gives to the empty text
* `Name.display`: the written form, `Name(3)`

## Design notes

A name carries no reference to the table it came from, so a name may be foreign
to the table that is asked for its text.  Equality and order are those of the
index.
-/

namespace TreeWalk

/-- An identifier, as the index under which a name table keeps its text. -/
structure Name where
  index : Nat
  deriving DecidableEq, Hashable, Repr

namespace Name

/-- The name of the empty text. -/
def empty : Name := ⟨0⟩

instance : Inhabited Name := ⟨empty⟩

/-- Names are ordered by index, that is, by the time of their first entry. -/
instance : Ord Name := ⟨fun a b => compare a.index b.index⟩

/-- The written form of a name shows its index. -/
def display (n : Name) : String := "Name(" ++ n.index.repr ++ ")"

@[simp] theorem index_empty : empty.index = 0 := rfl

@[simp] theorem default_eq_empty : (default : Name) = empty := rfl

end Name

end TreeWalk
