import TreeWalk.Draft
import TreeWalk.Proofs.Renaming

/-!
# Programs spelled alike

Two tables give different names to one text, because they met other texts before.
A draft that is built with either of them becomes two trees.  **The trees are one
and the same up to the names**, and the names belong to the same texts.

## Main definitions

* `NameTable.GrowsTo`: a later state of a table
* `NameTable.translate`: the name that another table has for a text
* `Draft.identifiers`: the identifiers that occur in a draft
* `Builder.Alike`: two builders come to results that are related as soon as, and as
  long as, the tables hold the texts in them

## Main statements

* `Draft.build_alike`, `ValueDraft.buildBindings_alike`: what is built from one
  draft with two tables is the same under the translation

## Design notes

**A relation between what was built holds for all later states of the tables.**
Texts are entered while a draft is being built, so the tables in which the first
part was built are not those in which the second one was.  A table only ever grows,
and a name keeps its text.

A draft may hold names in place of texts.  Those are taken as they are, under every
table, and the two trees would then have nothing in common; so all identifiers are
asked to be texts.
-/

namespace TreeWalk

/-! ## Tables -/

namespace NameTable

/-- Every text of `t` has the same name in `u`. -/
def GrowsTo (t u : NameTable) : Prop :=
  ∀ (i : Nat) (s : String), t.texts[i]? = some s → u.texts[i]? = some s

namespace GrowsTo

theorem refl (t : NameTable) : t.GrowsTo t := fun _ _ h => h

theorem trans {t u w : NameTable} (h : t.GrowsTo u) (h' : u.GrowsTo w) : t.GrowsTo w :=
  fun i s found => h' i s (h i s found)

/-- Entering a text keeps all names. -/
theorem intern (t : NameTable) (s : String) : t.GrowsTo (t.intern s).2 := by
  rcases known : t.positions[s]? with _ | i
  · rw [intern_of_none known]
    intro i u found
    have old : i < t.texts.size := (Array.getElem?_eq_some_iff.mp found).1
    rwa [add_texts, Array.getElem?_push, if_neg (Nat.ne_of_lt old)]
  · rw [intern_of_some known]
    exact refl t

end GrowsTo

/-- A text that was entered is found under its name. -/
theorem texts_intern (t : NameTable) (s : String) :
    (t.intern s).2.texts[(t.intern s).1.index]? = some s := by
  rcases known : t.positions[s]? with _ | i
  · rw [intern_of_none known, add_texts, Array.getElem?_push, if_pos rfl]
  · rw [intern_of_some known]
    exact (t.positions_iff s i).mp known

/-- A text that is new goes to the end. -/
theorem texts_intern_of_notMem {t : NameTable} {s : String} (h : s ∉ t.texts) :
    (t.intern s).2.texts = t.texts.push s := by
  have fresh : t.positions[s]? = none := by
    rcases known : t.positions[s]? with _ | i
    · rfl
    · exact absurd (Array.mem_of_getElem? ((t.positions_iff s i).mp known)) h
  rw [intern_of_none fresh, add_texts]

/-- The name that `u` has for the text of a name in `t`, if it has one. -/
def translate (t u : NameTable) (x : Name) : Name := ⟨(u.positions[t.lookup x]?).getD x.index⟩

/-- The names in `t` whose texts are in `u` as well. -/
def shared (t u : NameTable) : Set Name :=
  {x | ∃ (s : String) (y : Name), t.texts[x.index]? = some s ∧ u.texts[y.index]? = some s}

variable {t u t' u' : NameTable} {x y : Name} {s : String}

theorem lookup_eq (h : t.texts[x.index]? = some s) : t.lookup x = s := by
  rw [lookup, h, Option.getD_some]

/-- A translation leads to the name with the same text. -/
theorem translate_eq (h : t.texts[x.index]? = some s) (h' : u.texts[y.index]? = some s) :
    t.translate u x = y := by
  have position : u.positions[s]? = some y.index := (u.positions_iff s y.index).mpr h'
  rw [translate, lookup_eq h, position, Option.getD_some]

/-- Different names have different texts, and hence different translations. -/
theorem injOn_translate (t u : NameTable) : Set.InjOn (t.translate u) (t.shared u) := by
  rintro x ⟨s, y, hx, hy⟩ x' ⟨s', y', hx', hy'⟩ same
  rw [translate_eq hx hy, translate_eq hx' hy'] at same
  subst same
  obtain rfl : s = s' := Option.some.inj (hy.symm.trans hy')
  have position := (t.positions_iff s x.index).mpr hx
  have position' := (t.positions_iff s x'.index).mpr hx'
  have index_eq : x.index = x'.index := Option.some.inj (position.symm.trans position')
  exact congrArg Name.mk index_eq

/-- Later tables share what the tables share. -/
theorem shared_subset (h : t.GrowsTo u) (h' : t'.GrowsTo u') : t.shared t' ⊆ u.shared u' := by
  rintro x ⟨s, y, hx, hy⟩
  exact ⟨s, y, h _ s hx, h' _ s hy⟩

/-- Later tables translate alike, so a translation keeps texts. -/
theorem lookup_translate (h : t.GrowsTo u) (h' : t'.GrowsTo u') :
    ∀ x ∈ t.shared t', t'.lookup (u.translate u' x) = t.lookup x := by
  rintro x ⟨s, y, hx, hy⟩
  rw [translate_eq (h _ s hx) (h' _ s hy), lookup_eq hx, lookup_eq hy]

/-- `b` is `a` under the translation from `t` to `u`, and the names in `a` are
shared by the two. -/
structure Translates {α : Type} (names : α → List Name) (rename : (Name → Name) → α → α)
    (t u : NameTable) (a b : α) : Prop where
  eq : b = rename (t.translate u) a
  within : ∀ x ∈ names a, x ∈ t.shared u

end NameTable

/-! ## Builders -/

namespace Builder

variable {α β γ δ : Type}

/-- What a builder comes to with a table, and the table with the texts that it
met. -/
def outcome (b : Builder α) (t : NameTable) : Except UnknownSymbol α × NameTable :=
  StateT.run (ExceptT.run b) t

theorem runWith_eq (b : Builder α) (t : NameTable) :
    b.runWith t = ((b.outcome t).1.mapError .ofUnknownSymbol, (b.outcome t).2) := by
  unfold runWith outcome
  rcases StateT.run (ExceptT.run b) t with ⟨e | a, u⟩
  · rfl
  · rfl

theorem outcome_bind (b : Builder α) (f : α → Builder β) (t : NameTable) :
    (b >>= f).outcome t =
      match b.outcome t with
      | (.ok a, u) => (f a).outcome u
      | (.error e, u) => (.error e, u) := by
  show (match b.outcome t with
    | (r, u) => StateT.run (ExceptT.bindCont f r) u) = _
  rcases b.outcome t with ⟨e | a, u⟩
  · rfl
  · rfl

/-- With any two tables, the builders come to results that are related under all
later states of the tables, or they stop at the same symbol. -/
def Alike (V : NameTable → NameTable → α → β → Prop) (b : Builder α) (b' : Builder β) : Prop :=
  ∀ t t', t.GrowsTo (b.outcome t).2 ∧ t'.GrowsTo (b'.outcome t').2 ∧
    Proc.Agree
      (fun a a' => ∀ u u', (b.outcome t).2.GrowsTo u → (b'.outcome t').2.GrowsTo u' → V u u' a a')
      Eq (b.outcome t).1 (b'.outcome t').1

namespace Alike

open NameTable

variable {V : NameTable → NameTable → α → β → Prop} {W : NameTable → NameTable → γ → δ → Prop}

theorem pure {a : α} {a' : β} (h : ∀ u u', V u u' a a') :
    Alike V (Pure.pure a) (Pure.pure a') :=
  fun t t' => ⟨.refl t, .refl t', .ok fun u u' _ _ => h u u'⟩

/-- A step that does not use the table. -/
theorem lift (r : Except UnknownSymbol α) :
    Alike (fun _ _ a a' => a' = a) (liftM r : Builder α) (liftM r : Builder α) := by
  intro t t'
  refine ⟨.refl t, .refl t', ?_⟩
  cases r with
  | error e => exact .error rfl
  | ok a => exact .ok fun _ _ _ _ => rfl

/-- What is built next may rely on the relation between what was built first. -/
theorem bind {b : Builder α} {b' : Builder β} {f : α → Builder γ} {g : β → Builder δ}
    (h : Alike V b b')
    (next : ∀ a a', Alike (fun u u' c c' => V u u' a a' → W u u' c c') (f a) (g a')) :
    Alike W (b >>= f) (b' >>= g) := by
  intro t t'
  have first := h t t'
  rw [outcome_bind, outcome_bind]
  rcases hb : b.outcome t with ⟨r, u⟩
  rcases hb' : b'.outcome t' with ⟨r', u'⟩
  rw [hb, hb'] at first
  obtain ⟨grows, grows', same | same⟩ := first
  · next a a' =>
    obtain ⟨more, more', agree⟩ := next a a' u u'
    -- The second results are compared under tables that are later for the first ones too.
    refine ⟨grows.trans more, grows'.trans more', agree.imp fun c c' found w w' later later' => ?_⟩
    exact found w w' later later' (same w w' (more.trans later) (more'.trans later'))
  · exact ⟨grows, grows', .error same⟩

/-- Results may be said to have less in common. -/
theorem imp {b : Builder α} {b' : Builder β} {V' : NameTable → NameTable → α → β → Prop}
    (h : Alike V b b') (weaken : ∀ u u' a a', V u u' a a' → V' u u' a a') : Alike V' b b' := by
  intro t t'
  obtain ⟨grows, grows', agree⟩ := h t t'
  refine ⟨grows, grows', agree.imp fun a a' found u u' later later' => ?_⟩
  exact weaken u u' a a' (found u u' later later')

/-- The same of the outcomes as they are reported. -/
theorem runWith {b : Builder α} {b' : Builder β} (h : Alike V b b') (t t' : NameTable) :
    t.GrowsTo (b.runWith t).2 ∧ t'.GrowsTo (b'.runWith t').2 ∧
      Proc.Agree
        (fun a a' => ∀ u u', (b.runWith t).2.GrowsTo u → (b'.runWith t').2.GrowsTo u' →
          V u u' a a')
        Eq (b.runWith t).1 (b'.runWith t').1 := by
  obtain ⟨grows, grows', agree⟩ := h t t'
  rw [runWith_eq, runWith_eq]
  exact ⟨grows, grows', agree.mapError _⟩

/-- Several things built one after the other. -/
theorem mapM {names : γ → List Name} {rename : (Name → Name) → γ → γ} {f : α → Builder γ}
    (xs : List α) (h : ∀ x ∈ xs, Alike (Translates names rename) (f x) (f x)) :
    Alike (Translates (fun cs => cs.flatMap names) fun π => List.map (rename π)) (xs.mapM f)
      (xs.mapM f) := by
  induction xs with
  | nil => exact .pure fun _ _ => ⟨rfl, nofun⟩
  | cons x xs ih =>
    rw [List.forall_mem_cons] at h
    rw [List.mapM_cons]
    refine .bind h.1 fun c c' => .bind (ih h.2) fun cs cs' => .pure fun u u' rest first => ?_
    refine ⟨?_, ?_⟩
    · rw [first.eq, rest.eq, List.map_cons]
    · rw [List.flatMap_cons, List.forall_mem_append]
      exact ⟨first.within, rest.within⟩

end Alike

end Builder

/-! ## Drafts -/

/-- Whether an identifier is a text. -/
def Identifier.IsText : Identifier → Prop
  | .text _ => True
  | .name _ => False

instance : DecidablePred Identifier.IsText
  | .text _ => inferInstanceAs (Decidable True)
  | .name _ => inferInstanceAs (Decidable False)

namespace Draft

mutual

/-- The identifiers that occur anywhere in a draft. -/
def identifiers : Draft → List Identifier
  | .number _ => []
  | .reference x => [x]
  | .unary _ operand => operand.identifiers
  | .binary left _ right => left.identifiers ++ right.identifiers
  | .literal params body => params ++ identifiersAll body
  | .define x params body => x :: (params ++ identifiersAll body)
  | .call callee args => callee.identifiers ++ identifiersAll args
  | .conditional condition ifTrue ifFalse =>
    condition.identifiers ++ (identifiersAll ifTrue ++ identifiersBranch ifFalse)
  | .print operand => operand.identifiers
  | .read x => [x]

/-- The identifiers that occur in several drafts. -/
def identifiersAll : List Draft → List Identifier
  | [] => []
  | d :: rest => d.identifiers ++ identifiersAll rest

/-- The identifiers that occur in a branch that may be missing. -/
def identifiersBranch : Option (List Draft) → List Identifier
  | none => []
  | some body => identifiersAll body

end

end Draft

open NameTable Builder

/-- A text becomes the names that the two tables have for it. -/
theorem Identifier.build_alike {x : Identifier} (text : x.IsText) :
    Alike (Translates (fun y => [y]) fun π => π) x.build x.build := by
  cases x with
  | name n => cases text
  | text s =>
    intro t t'
    refine ⟨.intern t s, .intern t' s, .ok fun u u' later later' => ?_⟩
    have here := later _ s (texts_intern t s)
    have there := later' _ s (texts_intern t' s)
    refine ⟨(translate_eq here there).symm, ?_⟩
    rw [List.forall_mem_singleton]
    exact ⟨s, _, here, there⟩

theorem Identifier.buildAll_alike {xs : List Identifier} (texts : ∀ x ∈ xs, x.IsText) :
    Alike (Translates (fun ys => ys) List.map) (buildAll xs) (buildAll xs) := by
  refine (Alike.mapM xs fun x hx => build_alike (texts x hx)).imp fun u u' ys ys' both => ?_
  refine ⟨both.eq, fun y hy => both.within y ?_⟩
  rwa [List.flatMap_singleton']

namespace Draft

mutual

/-- **With two tables a draft becomes one tree, up to the names.** -/
theorem build_alike : ∀ d : Draft, (∀ x ∈ d.identifiers, x.IsText) →
    Alike (Translates Node.names Node.rename) d.build d.build
  | .number _, _ => .pure fun _ _ => ⟨rfl, nofun⟩
  | .reference x, texts => by
    refine .bind (Identifier.build_alike (texts x (List.mem_singleton_self x))) fun y y' => ?_
    exact .pure fun u u' name => ⟨congrArg Node.reference name.eq, name.within⟩
  | .unary symbol operand, texts => by
    refine .bind (build_alike operand texts) fun n n' => ?_
    refine .bind (.lift (UnaryOp.ofSymbol symbol)) fun op op' => ?_
    refine .pure fun u u' same tree => ⟨?_, tree.within⟩
    rw [same, tree.eq, Node.rename]
  | .binary left symbol right, texts => by
    rw [identifiers, List.forall_mem_append] at texts
    refine .bind (build_alike left texts.1) fun l l' => ?_
    refine .bind (build_alike right texts.2) fun r r' => ?_
    refine .bind (.lift (BinaryOp.ofSymbol symbol)) fun op op' => ?_
    refine .pure fun u u' same tree' tree => ⟨?_, ?_⟩
    · rw [same, tree.eq, tree'.eq, Node.rename]
    · exact List.forall_mem_append.mpr ⟨tree.within, tree'.within⟩
  | .literal params body, texts => by
    rw [identifiers, List.forall_mem_append] at texts
    refine .bind (Identifier.buildAll_alike texts.1) fun ps ps' => ?_
    refine .bind (buildAll_alike body texts.2) fun ns ns' => ?_
    refine .pure fun u u' trees names => ⟨?_, ?_⟩
    · rw [names.eq, trees.eq, Node.rename]
    · exact List.forall_mem_append.mpr ⟨names.within, trees.within⟩
  | .define x params body, texts => by
    rw [identifiers, List.forall_mem_cons, List.forall_mem_append] at texts
    refine .bind (Identifier.build_alike texts.1) fun y y' => ?_
    refine .bind (Identifier.buildAll_alike texts.2.1) fun ps ps' => ?_
    refine .bind (buildAll_alike body texts.2.2) fun ns ns' => ?_
    refine .pure fun u u' trees names name => ⟨?_, ?_⟩
    · rw [name.eq, names.eq, trees.eq, Node.rename]
    · rw [Node.names, List.forall_mem_cons, List.forall_mem_append]
      exact ⟨List.forall_mem_singleton.mp name.within, names.within, trees.within⟩
  | .call callee args, texts => by
    rw [identifiers, List.forall_mem_append] at texts
    refine .bind (build_alike callee texts.1) fun n n' => ?_
    refine .bind (buildAll_alike args texts.2) fun ns ns' => ?_
    refine .pure fun u u' trees tree => ⟨?_, ?_⟩
    · rw [tree.eq, trees.eq, Node.rename]
    · exact List.forall_mem_append.mpr ⟨tree.within, trees.within⟩
  | .conditional condition ifTrue ifFalse, texts => by
    rw [identifiers, List.forall_mem_append, List.forall_mem_append] at texts
    refine .bind (build_alike condition texts.1) fun n n' => ?_
    refine .bind (buildAll_alike ifTrue texts.2.1) fun ns ns' => ?_
    refine .bind (buildBranch_alike ifFalse texts.2.2) fun branch branch' => ?_
    refine .pure fun u u' other trees tree => ⟨?_, ?_⟩
    · rw [tree.eq, trees.eq, other.eq, Node.rename]
    · rw [Node.names, List.forall_mem_append, List.forall_mem_append]
      exact ⟨tree.within, trees.within, other.within⟩
  | .print operand, texts => by
    refine .bind (build_alike operand texts) fun n n' => ?_
    exact .pure fun u u' tree => ⟨congrArg Node.print tree.eq, tree.within⟩
  | .read x, texts => by
    refine .bind (Identifier.build_alike (texts x (List.mem_singleton_self x))) fun y y' => ?_
    exact .pure fun u u' name => ⟨congrArg Node.read name.eq, name.within⟩

theorem buildAll_alike : ∀ ds : List Draft, (∀ x ∈ identifiersAll ds, x.IsText) →
    Alike (Translates Node.namesAll Node.renameAll) (buildAll ds) (buildAll ds)
  | [], _ => .pure fun _ _ => ⟨rfl, nofun⟩
  | d :: ds, texts => by
    rw [identifiersAll, List.forall_mem_append] at texts
    refine .bind (build_alike d texts.1) fun n n' => ?_
    refine .bind (buildAll_alike ds texts.2) fun ns ns' => ?_
    refine .pure fun u u' trees tree => ⟨?_, ?_⟩
    · rw [tree.eq, trees.eq, Node.renameAll]
    · exact List.forall_mem_append.mpr ⟨tree.within, trees.within⟩

theorem buildBranch_alike : ∀ branch : Option (List Draft),
    (∀ x ∈ identifiersBranch branch, x.IsText) →
    Alike (Translates Node.namesBranch Node.renameBranch) (buildBranch branch)
      (buildBranch branch)
  | none, _ => .pure fun _ _ => ⟨rfl, nofun⟩
  | some ds, texts => by
    refine .bind (buildAll_alike ds texts) fun ns ns' => ?_
    exact .pure fun u u' trees => ⟨congrArg some trees.eq, trees.within⟩

end

end Draft

/-! ## Values -/

namespace ValueDraft

/-- The identifiers that occur in a value. -/
def identifiers : ValueDraft → List Identifier
  | .number _ => []
  | .truth _ => []
  | .void => []
  | .function params body => params ++ Draft.identifiersAll body

theorem build_alike (d : ValueDraft) (texts : ∀ x ∈ d.identifiers, x.IsText) :
    Alike (Translates Value.names Value.rename) d.build d.build := by
  cases d with
  | number k => exact .pure fun _ _ => ⟨rfl, nofun⟩
  | truth b => exact .pure fun _ _ => ⟨rfl, nofun⟩
  | void => exact .pure fun _ _ => ⟨rfl, nofun⟩
  | function params body =>
    rw [identifiers, List.forall_mem_append] at texts
    refine .bind (Identifier.buildAll_alike texts.1) fun ps ps' => ?_
    refine .bind (Draft.buildAll_alike body texts.2) fun ns ns' => ?_
    refine .pure fun u u' trees names => ⟨?_, ?_⟩
    · rw [names.eq, trees.eq]
      rfl
    · exact List.forall_mem_append.mpr ⟨names.within, trees.within⟩

/-- Bindings become the same bindings, up to the names. -/
theorem buildBindings_alike (bindings : List (Identifier × ValueDraft))
    (texts : ∀ b ∈ bindings, b.1.IsText ∧ ∀ x ∈ b.2.identifiers, x.IsText) :
    Alike (Translates Bindings.names Bindings.rename) (buildBindings bindings)
      (buildBindings bindings) := by
  refine Alike.mapM bindings fun b hb => ?_
  obtain ⟨key, value⟩ := texts b hb
  refine .bind (Identifier.build_alike key) fun y y' => ?_
  refine .bind (build_alike b.2 value) fun v v' => ?_
  refine .pure fun u u' value name => ⟨?_, ?_⟩
  · rw [name.eq, value.eq]
    rfl
  · exact List.forall_mem_cons.mpr ⟨List.forall_mem_singleton.mp name.within, value.within⟩

end ValueDraft

end TreeWalk
