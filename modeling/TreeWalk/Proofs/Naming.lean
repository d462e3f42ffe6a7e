import Mathlib.Data.Set.Basic
import TreeWalk.Eval

/-!
# Names in trees and values

Which names a tree mentions, and what becomes of the tree when its names are
exchanged for others.  A name is only ever looked up, bound or asked for its
text, so nothing else about a tree changes: its shape, its kind, and what the
operators make of its values stay.

## Main definitions

* `Node.names`, `Function.names`, `Value.names`: every name that occurs
* `Node.rename`, `Function.rename`, `Value.rename`: the same with other names
* `Value.RenamesTo`: one value is another with other names, all of them from a
  given set

## Design notes

**A function value mentions names, a number does not.**  Names travel through a
run inside of function values only.  That is why a set of names that holds those
of a tree, and those of the functions within reach, holds all that can ever
matter to the evaluation of the tree.
-/

namespace TreeWalk

/-! ## Trees -/

namespace Node

mutual

/-- The names that occur anywhere in a tree: what it refers to, reads and defines,
and the parameters, the bodies of functions included. -/
def names : Node → List Name
  | .number _ => []
  | .reference x => [x]
  | .unary _ operand => operand.names
  | .binary _ left right => left.names ++ right.names
  | .literal params body => params ++ namesAll body
  | .define x params body => x :: (params ++ namesAll body)
  | .call callee args => callee.names ++ namesAll args
  | .conditional condition ifTrue ifFalse =>
    condition.names ++ (namesAll ifTrue ++ namesBranch ifFalse)
  | .print operand => operand.names
  | .read x => [x]

/-- The names that occur in several trees. -/
def namesAll : List Node → List Name
  | [] => []
  | n :: rest => n.names ++ namesAll rest

/-- The names that occur in a branch that may be missing. -/
def namesBranch : Option (List Node) → List Name
  | none => []
  | some body => namesAll body

end

mutual

/-- A tree with every name exchanged. -/
def rename (π : Name → Name) : Node → Node
  | .number k => .number k
  | .reference x => .reference (π x)
  | .unary op operand => .unary op (operand.rename π)
  | .binary op left right => .binary op (left.rename π) (right.rename π)
  | .literal params body => .literal (params.map π) (renameAll π body)
  | .define x params body => .define (π x) (params.map π) (renameAll π body)
  | .call callee args => .call (callee.rename π) (renameAll π args)
  | .conditional condition ifTrue ifFalse =>
    .conditional (condition.rename π) (renameAll π ifTrue) (renameBranch π ifFalse)
  | .print operand => .print (operand.rename π)
  | .read x => .read (π x)

/-- Several trees with every name exchanged. -/
def renameAll (π : Name → Name) : List Node → List Node
  | [] => []
  | n :: rest => n.rename π :: renameAll π rest

/-- A branch that may be missing, with every name exchanged. -/
def renameBranch (π : Name → Name) : Option (List Node) → Option (List Node)
  | none => none
  | some body => some (renameAll π body)

end

/-- Other names leave the kind of a tree alone. -/
@[simp] theorem kind_rename (π : Name → Name) (n : Node) : (n.rename π).kind = n.kind := by
  cases n <;> rfl

@[simp] theorem length_renameAll (π : Name → Name) (body : List Node) :
    (renameAll π body).length = body.length := by
  induction body with
  | nil => rfl
  | cons n rest ih => rw [renameAll, List.length_cons, List.length_cons, ih]

theorem renameAll_eq_nil_iff {π : Name → Name} {body : List Node} :
    renameAll π body = [] ↔ body = [] := by
  rw [← List.length_eq_zero_iff, length_renameAll, List.length_eq_zero_iff]

theorem renameAll_eq_map (π : Name → Name) (body : List Node) :
    renameAll π body = body.map (rename π) := by
  induction body with
  | nil => rfl
  | cons n rest ih => rw [renameAll, ih, List.map_cons]

/-- A condition chooses the same branch, whatever the names. -/
theorem chooseBranch_rename (π : Name → Name) (c : Number) (ifTrue : List Node)
    (ifFalse : Option (List Node)) :
    chooseBranch c (renameAll π ifTrue) (renameBranch π ifFalse) =
      renameAll π (chooseBranch c ifTrue ifFalse) := by
  unfold chooseBranch
  simp only [ne_eq, renameAll_eq_nil_iff]
  split
  · rfl
  · cases ifFalse <;> rfl

/-- The branch that a condition chooses mentions no names but those of the two. -/
theorem namesAll_chooseBranch (c : Number) (ifTrue : List Node) (ifFalse : Option (List Node)) :
    namesAll (chooseBranch c ifTrue ifFalse) ⊆ namesAll ifTrue ++ namesBranch ifFalse := by
  unfold chooseBranch
  split
  · exact List.subset_append_left _ _
  · cases ifFalse with
    | none => exact List.nil_subset _
    | some body => exact List.subset_append_right _ _

mutual

/-- Names exchanged for themselves. -/
@[simp] theorem rename_id : ∀ n : Node, n.rename id = n
  | .number _ => rfl
  | .reference _ => rfl
  | .unary _ operand => by rw [rename, rename_id operand]
  | .binary _ left right => by rw [rename, rename_id left, rename_id right]
  | .literal _ body => by rw [rename, List.map_id, renameAll_id body]
  | .define _ _ body => by rw [rename, List.map_id, renameAll_id body, id_eq]
  | .call callee args => by rw [rename, rename_id callee, renameAll_id args]
  | .conditional condition ifTrue ifFalse => by
    rw [rename, rename_id condition, renameAll_id ifTrue, renameBranch_id ifFalse]
  | .print operand => by rw [rename, rename_id operand]
  | .read _ => rfl

@[simp] theorem renameAll_id : ∀ body : List Node, renameAll id body = body
  | [] => rfl
  | n :: rest => by rw [renameAll, rename_id n, renameAll_id rest]

@[simp] theorem renameBranch_id : ∀ branch : Option (List Node), renameBranch id branch = branch
  | none => rfl
  | some body => by rw [renameBranch, renameAll_id body]

end

end Node

/-! ## Functions and values -/

/-- The names that occur in a function, its parameters included. -/
def Function.names (f : Function) : List Name := f.params ++ Node.namesAll f.body

/-- A function with every name exchanged. -/
def Function.rename (π : Name → Name) (f : Function) : Function :=
  ⟨f.params.map π, Node.renameAll π f.body⟩

@[simp] theorem Function.arity_rename (π : Name → Name) (f : Function) :
    (f.rename π).arity = f.arity := List.length_map _

@[simp] theorem Function.rename_id (f : Function) : f.rename id = f := by
  rw [rename, List.map_id, Node.renameAll_id]

namespace Value

/-- The names that occur in a value. -/
def names : Value → List Name
  | .number _ => []
  | .function f => f.names
  | .void => []

/-- A value with every name exchanged. -/
def rename (π : Name → Name) : Value → Value
  | .number k => .number k
  | .function f => .function (f.rename π)
  | .void => .void

@[simp] theorem rename_id (v : Value) : v.rename id = v := by
  cases v with
  | number k => rfl
  | function f => rw [rename, Function.rename_id]
  | void => rfl

/-- Names do not matter to a conversion into a number. -/
@[simp] theorem toNumber_rename (π : Name → Name) (v : Value) :
    (v.rename π).toNumber = v.toNumber := by
  cases v <;> rfl

/-- `w` is `v` with other names, and every name in `v` is from `S`. -/
structure RenamesTo (S : Set Name) (π : Name → Name) (v w : Value) : Prop where
  eq : w = v.rename π
  within : ∀ x ∈ v.names, x ∈ S

/-- A number is the same under all names. -/
theorem RenamesTo.number {S : Set Name} {π : Name → Name} (k : Number) :
    RenamesTo S π (.number k) (.number k) := ⟨rfl, nofun⟩

theorem RenamesTo.void {S : Set Name} {π : Name → Name} : RenamesTo S π .void .void := ⟨rfl, nofun⟩

/-- Where no name is excluded and none is exchanged, a value is itself alone. -/
@[simp] theorem renamesTo_id_iff {v w : Value} : RenamesTo Set.univ id v w ↔ w = v := by
  constructor
  · rintro ⟨rfl, -⟩
    exact rename_id v
  · rintro rfl
    exact ⟨(rename_id w).symm, fun x _ => Set.mem_univ x⟩

end Value

/-! ## Bindings -/

/-- Bindings with every name exchanged. -/
def Bindings.rename (π : Name → Name) (bs : Bindings) : Bindings :=
  bs.map (Prod.map π (Value.rename π))

theorem Bindings.rename_cons (π : Name → Name) (x : Name) (v : Value) (rest : Bindings) :
    Bindings.rename π ((x, v) :: rest) = (π x, v.rename π) :: rest.rename π := List.map_cons

/-- Every name in the bindings is from `S`: those that are bound, and those in the
values. -/
def Bindings.Within (S : Set Name) (bs : Bindings) : Prop :=
  ∀ b ∈ bs, b.1 ∈ S ∧ ∀ x ∈ b.2.names, x ∈ S

namespace Bindings.Within

variable {S : Set Name} {bs more : Bindings} {x : Name} {v : Value}

/-- A value that is found is one of those that were bound. -/
theorem of_find? (h : bs.Within S) (found : bs.find? x = some v) : ∀ y ∈ v.names, y ∈ S := by
  induction bs with
  | nil =>
    rw [find?_nil] at found
    cases found
  | cons b rest ih =>
    obtain ⟨z, w⟩ := b
    rw [Within, List.forall_mem_cons] at h
    rw [find?_cons] at found
    by_cases hz : x = z
    · rw [if_pos hz, Option.some.injEq] at found
      exact found ▸ h.1.2
    · rw [if_neg hz] at found
      exact ih h.2 found

theorem assign (h : bs.Within S) (known : x ∈ S) (within : ∀ y ∈ v.names, y ∈ S) :
    (bs.assign x v).Within S := by
  induction bs with
  | nil => exact List.forall_mem_singleton.mpr ⟨known, within⟩
  | cons b rest ih =>
    rw [Within, List.forall_mem_cons] at h
    unfold Bindings.assign
    split
    · exact List.forall_mem_cons.mpr ⟨⟨known, within⟩, h.2⟩
    · exact List.forall_mem_cons.mpr ⟨h.1, ih h.2⟩

theorem assignAll (h : bs.Within S) (h' : more.Within S) : (bs.assignAll more).Within S := by
  induction more generalizing bs with
  | nil => exact h
  | cons b rest ih =>
    rw [Within, List.forall_mem_cons] at h'
    exact ih (h.assign h'.1.1 h'.1.2) h'.2

end Bindings.Within

@[simp] theorem Bindings.rename_id (bs : Bindings) : bs.rename id = bs := by
  have same : Prod.map id (Value.rename id) = (id : Name × Value → Name × Value) := by
    funext b
    rw [Prod.map_apply, Value.rename_id, id_eq, id_eq]
  rw [rename, same, List.map_id]

end TreeWalk
