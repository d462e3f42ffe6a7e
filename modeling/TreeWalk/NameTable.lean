import Std.Data.HashMap
import TreeWalk.Name

/-!
# Name tables

A table gives every distinct text one index, in the order of first entry, and
gives the text back for the index.

## Main definitions

* `NameTable`: the texts in order of entry, and the position of each text
* `NameTable.intern`: enter a text, or find it again
* `NameTable.lookup`: the text of a name, total over foreign names

## Design notes

The two directions are kept in two structures, an array and a hash map.  **That
they are inverse to each other is part of the type** (`positions_iff`), so that
an index handed out once keeps its meaning under every later entry, and no
operation has to repair one side from the other.  The empty text is present from
the start and owns index 0 (`texts_zero`).

**Entering a text never fails.**  An index is a natural number, and a table can
always grow.  With indices of 32 bits the `2^32`-th text would have to be refused;
tables of that size are left out.  A table is also changed by one caller at a time:
a text that was not found is still missing when it is entered, and is not looked for
a second time.
-/

namespace TreeWalk

/-- Texts with their indices.  `positions` is the inverse of `texts`. -/
structure NameTable where
  /-- The texts, in the order of their first entry. -/
  texts : Array String
  /-- The index of each text. -/
  positions : Std.HashMap String Nat
  /-- The empty text stands first. -/
  texts_zero : texts[0]? = some ""
  /-- Each text is found exactly where it stands. -/
  positions_iff : ∀ (s : String) (i : Nat), positions[s]? = some i ↔ texts[i]? = some s

namespace NameTable

/-- The table that holds only the empty text. -/
def initial : NameTable where
  texts := #[""]
  positions := (∅ : Std.HashMap String Nat).insert "" 0
  texts_zero := rfl
  positions_iff s i := by
    rw [Std.HashMap.getElem?_insert]
    by_cases h : "" = s
    · subst h
      rcases i with _ | i <;> simp
    · rcases i with _ | i <;> simp [h]

instance : Inhabited NameTable := ⟨initial⟩

/-- The number of texts, the empty one included. -/
def size (t : NameTable) : Nat := t.texts.size

/-- A table with no text besides the empty one counts as empty. -/
def isEmpty (t : NameTable) : Bool := t.size ≤ 1

/-- Enter a text that has no index yet: it takes the next one. -/
def add (t : NameTable) (s : String) (fresh : t.positions[s]? = none) : NameTable where
  texts := t.texts.push s
  positions := t.positions.insert s t.texts.size
  texts_zero := by
    have h := t.texts_zero
    have : 0 < t.texts.size := by
      rcases Nat.eq_zero_or_pos t.texts.size with h0 | h0
      · simp [Array.getElem?_eq_none (Nat.le_of_eq h0)] at h
      · exact h0
    rw [Array.getElem?_push, if_neg (by omega)]
    exact h
  positions_iff u i := by
    have absent : ∀ j, t.texts[j]? ≠ some s := fun j hj => by
      have := (t.positions_iff s j).2 hj
      simp [fresh] at this
    rw [Std.HashMap.getElem?_insert, Array.getElem?_push]
    by_cases hu : s = u
    · subst hu
      by_cases hi : i = t.texts.size
      · simp [hi]
      · simp [hi, absent i, Ne.symm hi]
    · by_cases hi : i = t.texts.size
      · have : t.texts[t.texts.size]? = none := Array.getElem?_eq_none (Nat.le_refl _)
        have := t.positions_iff u t.texts.size
        simp_all
      · simp [hu, hi, t.positions_iff u i]

/-- The name of a text: the one it has, or else the next free one. -/
def intern (t : NameTable) (s : String) : Name × NameTable :=
  match h : t.positions[s]? with
  | some i => (⟨i⟩, t)
  | none => (⟨t.texts.size⟩, t.add s h)

/-- What a foreign name reads as. -/
def unknown : String := "<unknown>"

/-- The text of a name; a name that the table never handed out reads as
`unknown`. -/
def lookup (t : NameTable) (n : Name) : String := t.texts[n.index]?.getD unknown

/-- Enter several texts, first to last. -/
def internAll (t : NameTable) (ss : List String) : NameTable :=
  ss.foldl (fun t s => (t.intern s).2) t

@[simp] theorem initial_texts : initial.texts = #[""] := rfl

@[simp] theorem add_texts (t : NameTable) (s : String) (h : t.positions[s]? = none) :
    (t.add s h).texts = t.texts.push s := rfl

/-- A text that has an index is found, and the table stays as it is. -/
theorem intern_of_some {t : NameTable} {s : String} {i : Nat} (h : t.positions[s]? = some i) :
    t.intern s = (⟨i⟩, t) := by
  unfold intern
  split <;> simp_all

/-- A text without an index takes the next one and is appended. -/
theorem intern_of_none {t : NameTable} {s : String} (h : t.positions[s]? = none) :
    t.intern s = (⟨t.texts.size⟩, t.add s h) := by
  unfold intern
  split <;> simp_all

end NameTable

end TreeWalk
