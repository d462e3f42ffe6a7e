import TreeWalk.Proofs.Repetition

/-!
# Where values come from

Functions travel.  They are arguments and results, parameters hold them, a call goes on with
one that was found under a name, and its body defines others.  **No evaluation makes a
function up**: every function that it comes to, or leaves bound in some scope, was bound at
the start, or is defined in the tree or inside of a function that was bound at the start.

What an evaluation comes to it does not store, however.  **A scope gets new values from reads
and definitions alone**, each under the name that is read or defined.  So it never gets
`void`, although a parameter can hold that in the scope of a call.

## Main definitions

* `Environment.BindsFunction`: some scope binds a function
* `Repertoire.definedIn`: given functions, and those that given trees define
* `Node.Gives`: a value that trees can give to a name
* `Run.Stores`: a run changes a scope only by what trees can give

## Main statements

* `evaluates_mem_repertoire`: an evaluation leaves no repertoire
* `Run.Stores.eval`: an evaluation stores only what its tree gives
* `evaluates_provenance`: where functions and new bindings come from

## Design notes

The two halves look at different trees.  A function may come from any body that was run, so
all trees within reach are considered; the scope itself is changed only by the tree at hand,
since every body that is called has a scope of its own.
-/

namespace TreeWalk

/-! ## Functions -/

/-- Some scope binds the function to some name. -/
def Environment.BindsFunction (env : Environment) (f : Function) : Prop :=
  ∃ s x, env.own? s x = some (.function f)

namespace Repertoire

/-- The functions from `F` and those that a tree from `K` defines, as far as all their
subtrees are in `K`. -/
def definedIn (K : Set Node) (F : Set Function) : Repertoire where
  trees := (ofSubtrees (· ∈ K)).trees
  functions := {f ∈ (ofSubtrees (· ∈ K)).functions | f ∈ F ∨ ∃ x, .define x f.params f.body ∈ K}
  part_mem := (ofSubtrees (· ∈ K)).part_mem
  define_mem h := ⟨(ofSubtrees (· ∈ K)).define_mem h, .inr ⟨_, h _ (Node.mem_subtrees_self _)⟩⟩
  body_mem h := (ofSubtrees (· ∈ K)).body_mem h.1

/-- Every repertoire obeys the law that allows everything. -/
theorem law_true (R : Repertoire) : R.Law fun _ _ _ => True := by
  constructor <;> intros <;> trivial

end Repertoire

/-- An evaluation leaves no repertoire that holds its tree and the functions of the start. -/
theorem evaluates_mem_repertoire {R : Repertoire} {n : Node} {s : ScopeId} {m m' : Machine}
    {r : Except Stop Value} (known : m.env.FunctionsIn R.functions) (mem : n ∈ R.trees)
    (h : Evaluates n s m (r, m')) :
    m'.env.FunctionsIn R.functions ∧ ∀ v, r = .ok v → v ∈ R.values := by
  obtain ⟨depth, run⟩ := h
  obtain ⟨known', -, result⟩ := R.law_true.eval depth n s mem m known r m' run
  exact ⟨known', result⟩

/-! ## Bindings -/

/-- A value that trees from `N` can give to a name: they read a number under it, or they
define a function under it. -/
inductive Node.Gives (N : Set Node) (x : Name) : Value → Prop where
  | read {k : Number} : .read x ∈ N → Gives N x (.number k)
  | define {params : List Name} {body : List Node} :
    .define x params body ∈ N → Gives N x (.function ⟨params, body⟩)

/-- From `env` to `env'` the scope `s` was given values by trees from `N`, and otherwise it
has the values that it had. -/
structure Environment.GivenBy (N : Set Node) (s : ScopeId) (env env' : Environment) : Prop where
  depth_eq : env'.depth = env.depth
  own : ∀ x, env'.own? s x = env.own? s x ∨ ∃ v, env'.own? s x = some v ∧ Node.Gives N x v

namespace Environment.GivenBy

variable {N : Set Node} {s : ScopeId} {env env' env'' : Environment}

@[refl] theorem refl (N : Set Node) (s : ScopeId) (env : Environment) : GivenBy N s env env where
  depth_eq := rfl
  own _ := .inl rfl

theorem trans (h : GivenBy N s env env') (h' : GivenBy N s env' env'') :
    GivenBy N s env env'' where
  depth_eq := h'.depth_eq.trans h.depth_eq
  own x := by
    rcases h'.own x with same | given
    · rw [same]
      exact h.own x
    · exact .inr given

theorem isLive_iff (h : GivenBy N s env env') {t : ScopeId} : env'.IsLive t ↔ env.IsLive t := by
  rw [IsLive, IsLive, ← depth, ← depth, h.depth_eq]

theorem set {x : Name} {v : Value} (given : Node.Gives N x v) (h : env.set s x v = .ok env') :
    GivenBy N s env env' where
  depth_eq := depth_set h
  own y := by
    rw [own?_set_self h]
    split
    · next same =>
      subst same
      exact .inr ⟨v, rfl, given⟩
    · exact .inl rfl

end Environment.GivenBy

namespace Run

variable {α β : Type} {N : Set Node} {s : ScopeId}

/-- Wherever the scope `s` is there, `x` changes it only by what trees from `N` can give. -/
def Stores (N : Set Node) (s : ScopeId) (x : Run α) : Prop :=
  ∀ m, m.env.IsLive s → ∀ r m', x.run m = some (r, m') → m.env.GivenBy N s m'.env

namespace Stores

/-- What may bind nothing stores nothing. -/
theorem of_tidy {x : Run α} (h : Tidy ∅ s x) : Stores N s x := by
  intro m live r m' run
  rw [h.env_eq rfl m live r m' run]

theorem bind {x : Run α} {f : α → Run β} (hx : Stores N s x) (hf : ∀ a, Stores N s (f a)) :
    Stores N s (x >>= f) := by
  intro m live r m' run
  rcases Proc.run_bind_eq_some_iff.mp run with ⟨a, m₁, first, second⟩ | ⟨e, m₁, first, outcome⟩
  · have before := hx m live _ m₁ first
    exact before.trans (hf a m₁ (before.isLive_iff.mpr live) r m' second)
  · cases outcome
    exact hx m live _ _ first

theorem noted {x : Run α} (hx : Stores N s x) (before after : Event) :
    Stores N s (do record before; x.ensuring (record after)) := by
  intro m live r m' run
  rw [Proc.run_bind_of_ok rfl, record, Proc.run_ensuring_modify, Option.map_eq_some_iff] at run
  obtain ⟨⟨r, m₁⟩, inner, outcome⟩ := run
  cases outcome
  exact hx (m.log before) live r m₁ inner

theorem assign {x : Name} {v : Value} (given : Node.Gives N x v) :
    Stores N s (assign s x v) := by
  intro m live r m' run
  simp only [Run.assign] at run
  split at run
  · next env bound =>
    cases run
    exact .set given bound
  · cases run
    exact .refl N s m.env

theorem pure (a : α) : Stores N s (Pure.pure a : Run α) := .of_tidy (tidy_ofExcept (.ok a))

theorem ofExcept (r : Except EvalError α) : Stores N s (ofExcept r) := .of_tidy (tidy_ofExcept r)

theorem readLine : Stores N s readLine := by
  intro m _ r m' run
  simp only [Run.readLine] at run
  split at run <;> cases run <;> exact .refl N s m.env

theorem evalRead {x : Name} (h : .read x ∈ N) : Stores N s (evalRead x s) :=
  evalRead_of_parts (P := fun _ y => Stores N s y) .bind .pure .readLine
    (fun e => .ofExcept (.error e)) fun _ => .assign (.read h)

/-! ## Evaluation -/

section

variable {ev : Evaluator}
  (tidy : ∀ (n : Node) (s : ScopeId) (T : Set Name), (∀ x ∈ n.targets, x ∈ T) →
    Tidy T s (ev n s))
  (hev : ∀ n ∈ N, Stores N s (ev n s))

include hev

theorem evalFrom (last : Value) (body : List Node) (h : ∀ n ∈ body, n ∈ N) :
    Stores N s (evalFrom ev s last body) := by
  induction body generalizing last with
  | nil => exact .pure last
  | cons n rest ih =>
    rw [List.forall_mem_cons] at h
    exact .bind (hev n h.1) fun v => ih v h.2

theorem evalBlock (body : List Node) (h : ∀ n ∈ body, n ∈ N) :
    Stores N s (evalBlock ev body s) := evalFrom hev .void body h

theorem evalBody (f : Function) (h : ∀ n ∈ f.body, n ∈ N) : Stores N s (evalBody ev f s) := by
  unfold TreeWalk.evalBody
  split
  · exact .pure _
  · next n rest body =>
    rw [body] at h
    exact evalBlock hev (n :: rest) h

theorem evalArgs (args : List Node) (h : ∀ n ∈ args, n ∈ N) :
    Stores N s (evalArgs ev s args) := by
  induction args with
  | nil => exact .pure []
  | cons n rest ih =>
    rw [List.forall_mem_cons] at h
    exact .bind (hev n h.1) fun v => .bind (ih h.2) fun vs => .pure (v :: vs)

include tidy

theorem evalCall (callee : Node) (args : List Node) (h : ∀ n ∈ callee :: args, n ∈ N) :
    Stores N s (evalCall ev callee args s) := by
  rw [List.forall_mem_cons] at h
  refine .noted ?_ _ _
  refine .bind (hev callee h.1) fun v => .bind (.ofExcept (toFunction v)) fun f => ?_
  refine .bind (evalArgs hev args h.2) fun values => ?_
  -- The body runs in a scope of its own, and that scope is gone afterwards.
  exact .of_tidy (tidy_compositional.applyFunction tidy f values s)

/-- One step of evaluation stores what its tree gives if the evaluator for the parts does. -/
theorem evalNode (closed : ∀ n ∈ N, ∀ p ∈ n.parts, p ∈ N) (n : Node) (h : n ∈ N) :
    Stores N s (evalNode ev n s) := by
  have part (p : Node) (hp : p ∈ n.parts) : Stores N s (ev p s) := hev p (closed n h p hp)
  refine .bind (.of_tidy (tidy_modify fun _ => rfl)) fun _ => ?_
  cases n with
  | number k => exact .pure _
  | reference x => exact .of_tidy (tidy_lookup x)
  | unary op operand => exact .bind (part operand (.head _)) fun v => .ofExcept _
  | binary op left right =>
    refine .bind (part left (.head _)) fun l => ?_
    exact .bind (part right (.tail _ (.head _))) fun r => .ofExcept _
  | literal params body => exact evalBody hev ⟨params, body⟩ (closed _ h)
  | define x params body => exact .bind (.assign (.define h)) fun _ => .pure _
  | call callee args => exact evalCall tidy hev callee args (closed _ h)
  | conditional condition ifTrue ifFalse =>
    refine .bind (part condition (.head _)) fun v => .bind (.ofExcept v.toNumber) fun c => ?_
    refine evalBlock hev _ fun p hp => closed _ h p (.tail _ ?_)
    exact Node.chooseBranch_subset c ifTrue ifFalse hp
  | print operand =>
    refine .bind (part operand (.head _)) fun v => .bind (.ofExcept v.toNumber) fun k => ?_
    exact .bind (.of_tidy (tidy_modify fun _ => rfl)) fun _ => .pure v
  | read x => exact .evalRead h

end

/-- **An evaluation stores only what its tree gives.** -/
theorem eval (closed : ∀ n ∈ N, ∀ p ∈ n.parts, p ∈ N) (depth : Nat) (n : Node) (h : n ∈ N) :
    Stores N s (eval depth n s) := by
  induction depth generalizing n with
  | zero => rintro m _ r m' ⟨⟩
  | succ depth ih => exact evalNode (tidy_compositional.eval depth) ih closed n h

end Stores

end Run

/-! ## Provenance -/

section

variable {n : Node} {s : ScopeId} {m m' : Machine} {r : Except Stop Value}

/-- A function was bound at the start, or it is defined in the tree or inside of a function
that was. -/
theorem Evaluates.function_origin (h : Evaluates n s m (r, m')) {f : Function}
    (met : r = .ok (.function f) ∨ m'.env.BindsFunction f) :
    m.env.BindsFunction f ∨ ∃ x, .define x f.params f.body ∈ n.subtrees ∨
      ∃ g, m.env.BindsFunction g ∧ .define x f.params f.body ∈ g.subtrees := by
  let R := Repertoire.definedIn
    {t | t ∈ n.subtrees ∨ ∃ g, m.env.BindsFunction g ∧ t ∈ g.subtrees} {g | m.env.BindsFunction g}
  have known : m.env.FunctionsIn R.functions := by
    intro t x g bound
    have start : m.env.BindsFunction g := ⟨t, x, bound⟩
    exact ⟨fun u hu => .inr ⟨g, start, hu⟩, .inl start⟩
  have mem : n ∈ R.trees := fun t ht => .inl ht
  obtain ⟨known', result⟩ := evaluates_mem_repertoire known mem h
  rcases met with rfl | ⟨t, x, bound⟩
  · exact (result _ rfl f rfl).2
  · exact (known' t x f bound).2

/-- The scope was given values by the tree alone. -/
theorem Evaluates.givenBy (live : m.env.IsLive s) (h : Evaluates n s m (r, m')) :
    m.env.GivenBy {t | t.subtrees ⊆ n.subtrees} s m'.env := by
  obtain ⟨depth, run⟩ := h
  refine Run.Stores.eval ?_ depth n (List.Subset.refl _) m live r m' run
  intro t inside p part
  exact List.Subset.trans (Node.subtrees_subset_of_mem_parts part) inside

end

/-- **Where values come from.**  An evaluation comes to an outcome in a scope that is there.
Every function that it comes to or leaves bound was bound at the start, or is defined in the
tree, or is defined inside of a function that was bound at the start.  A name whose value in
the scope is new has a number that the tree reads under this name, or a function that the tree
defines under it; it is never `void`. -/
theorem evaluates_provenance {n : Node} {s : ScopeId} {m m' : Machine} {r : Except Stop Value}
    (live : m.env.IsLive s) (h : Evaluates n s m (r, m')) :
    (∀ f, r = .ok (.function f) ∨ m'.env.BindsFunction f →
      m.env.BindsFunction f ∨ ∃ x, .define x f.params f.body ∈ n.subtrees ∨
        ∃ g, m.env.BindsFunction g ∧ .define x f.params f.body ∈ g.subtrees) ∧
    (∀ x, m'.env.own? s x ≠ m.env.own? s x →
      (∃ k, m'.env.own? s x = some (.number k) ∧ .read x ∈ n.subtrees) ∨
      ∃ params body, m'.env.own? s x = some (.function ⟨params, body⟩) ∧
        .define x params body ∈ n.subtrees) ∧
    ∀ x, m'.env.own? s x = some .void → m.env.own? s x = some .void := by
  have given := h.givenBy live
  refine ⟨fun f => h.function_origin, fun x new => ?_, fun x void => ?_⟩
  · rcases given.own x with same | ⟨v, found, gives⟩
    · exact absurd same new
    · cases gives with
      | read inside => exact .inl ⟨_, found, inside (Node.mem_subtrees_self _)⟩
      | define inside => exact .inr ⟨_, _, found, inside (Node.mem_subtrees_self _)⟩
  · rcases given.own x with same | ⟨v, found, gives⟩
    · rw [← same]
      exact void
    · rw [found] at void
      cases void
      cases gives

/-- A function that is bound at the start is called with `void` for its parameter.  Its body
defines another function and gives it as the result.  That function comes from the body of the
first; the scope of the call held `void`, but the outermost scope has nothing new. -/
theorem evaluates_provenance_returned_function :
    let g : Function := ⟨[⟨2⟩], [.define ⟨3⟩ [⟨2⟩] [.reference ⟨2⟩]]⟩
    let f : Function := ⟨[⟨2⟩], [.reference ⟨2⟩]⟩
    let m : Machine := ⟨.initial, .ofBindings [(⟨1⟩, .function g)], .queue [], .captured "", #[]⟩
    let n : Node := .call (.reference ⟨1⟩) [.conditional (.number 0) [] none]
    m.env.IsLive .root ∧ ∃ m', Evaluates n .root m (.ok (.function f), m') ∧
      (m.env.BindsFunction f ∨ ∃ x, .define x f.params f.body ∈ n.subtrees ∨
        ∃ g, m.env.BindsFunction g ∧ .define x f.params f.body ∈ g.subtrees) ∧
      ∀ x, m'.env.own? .root x ≠ some .void := by
  intro g f m n
  have live : m.env.IsLive .root := by decide
  obtain ⟨m', run⟩ : ∃ m', (eval 3 n .root).run m = some (.ok (.function f), m') := ⟨_, rfl⟩
  obtain ⟨functions, -, void⟩ := evaluates_provenance live ⟨3, run⟩
  refine ⟨live, m', ⟨3, run⟩, functions f (.inl rfl), fun x stored => ?_⟩
  have start : Bindings.find? [(⟨1⟩, .function g)] x = some .void := void x stored
  rw [Bindings.find?_cons] at start
  split at start <;> cases start

end TreeWalk
