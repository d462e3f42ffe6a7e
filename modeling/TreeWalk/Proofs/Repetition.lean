import Mathlib.Logic.Relation
import TreeWalk.Proofs.Repertoire
import TreeWalk.Proofs.Simulation

/-!
# Evaluating a tree again

A tree that neither prints, reads nor defines is only asked for its value.  The
functions that it calls may define functions of their own, hand them out and call
themselves, and yet **asking changes nothing, and asking again gives the same
answer**, be it a value or an error.

## Main definitions

* `Node.Quiet`, `Function.Quiet`: nowhere inside is anything printed or read
* `Node.Still`: nor is anything defined
* `Run.Tidy`: a confined run which, unless it is allowed to bind, leaves the
  environment exactly as it was
* `Machine.Unchanged`: two machines differ at most in their records

## Main statements

* `Repertoire.quiet_law`: quiet trees among quiet functions leave the channels alone
* `Run.tidy_compositional`: tidiness is inherited by evaluation
* `evaluates_repeatable`: a still tree changes nothing, and repeats its outcome

## Design notes

Two invariants are at work, for two different reasons.  A call may well bind names, but
in a frame that it discards, so **the environment comes back because of the tree at
hand**, whatever the functions do.  What a call prints or reads would stay, so **the
channels rest because of all functions within reach**, those included that come into
being on the way.

The record of events does grow, and nothing in a run reads it.
-/

namespace TreeWalk

/-! ## Quiet and still trees -/

namespace Node

/-- Nowhere in the tree is anything printed or read, not even in the bodies of
functions. -/
def Quiet (n : Node) : Prop := ∀ t ∈ n.subtrees, t.kind ≠ .print ∧ t.kind ≠ .read

/-- Nowhere in the tree is anything printed, read or defined. -/
def Still (n : Node) : Prop :=
  ∀ t ∈ n.subtrees, (t.kind ≠ .print ∧ t.kind ≠ .read) ∧ t.kind ≠ .functionDefinition

instance (n : Node) : Decidable n.Quiet := inferInstanceAs (Decidable (∀ _ ∈ _, _))

instance (n : Node) : Decidable n.Still := inferInstanceAs (Decidable (∀ _ ∈ _, _))

theorem Still.quiet {n : Node} (h : n.Still) : n.Quiet := fun t ht => (h t ht).1

/-- A tree that binds a name where it is evaluated. -/
def Binds (n : Node) : Prop := n.kind = .read ∨ n.kind = .functionDefinition

mutual

/-- The targets of a tree come from the trees inside of it that bind. -/
theorem targets_eq_nil : ∀ {n : Node}, (∀ t ∈ n.subtrees, ¬ t.Binds) → n.targets = []
  | .number _, _ | .reference _, _ => rfl
  | .define .., h => absurd (.inr rfl) (h _ (mem_subtrees_self _))
  | .read _, h => absurd (.inl rfl) (h _ (mem_subtrees_self _))
  | .unary _ operand, h | .print operand, h =>
    show operand.targets = [] from targets_eq_nil (List.forall_mem_cons.mp h).2
  | .literal _ body, h =>
    show targetsAll body = [] from targetsAll_eq_nil (List.forall_mem_cons.mp h).2
  | .binary .., h => by
    obtain ⟨left, right⟩ := List.forall_mem_append.mp (List.forall_mem_cons.mp h).2
    rw [targets, targets_eq_nil left, targets_eq_nil right, List.append_nil]
  | .call .., h => by
    obtain ⟨callee, args⟩ := List.forall_mem_append.mp (List.forall_mem_cons.mp h).2
    rw [targets, targets_eq_nil callee, targetsAll_eq_nil args, List.append_nil]
  | .conditional .., h => by
    obtain ⟨condition, branches⟩ := List.forall_mem_append.mp (List.forall_mem_cons.mp h).2
    obtain ⟨ifTrue, ifFalse⟩ := List.forall_mem_append.mp branches
    rw [targets, targets_eq_nil condition, targetsAll_eq_nil ifTrue, targetsBranch_eq_nil ifFalse,
      List.append_nil, List.append_nil]

theorem targetsAll_eq_nil :
    ∀ {body : List Node}, (∀ t ∈ subtreesAll body, ¬ t.Binds) → targetsAll body = []
  | [], _ => rfl
  | _ :: _, h => by
    obtain ⟨first, others⟩ := List.forall_mem_append.mp h
    rw [targetsAll, targets_eq_nil first, targetsAll_eq_nil others, List.append_nil]

theorem targetsBranch_eq_nil :
    ∀ {branch : Option (List Node)}, (∀ t ∈ subtreesBranch branch, ¬ t.Binds) →
      targetsBranch branch = []
  | none, _ => rfl
  | some _, h => targetsAll_eq_nil h

end

/-- A still tree binds nothing where it is evaluated. -/
theorem Still.targets_eq_nil {n : Node} (h : n.Still) : n.targets = [] := by
  refine Node.targets_eq_nil fun t ht binds => ?_
  obtain ⟨⟨-, notRead⟩, notDefinition⟩ := h t ht
  exact binds.elim notRead notDefinition

end Node

/-- Nowhere in the function is anything printed or read, not even in the functions
that it defines. -/
def Function.Quiet (f : Function) : Prop := ∀ t ∈ f.subtrees, t.kind ≠ .print ∧ t.kind ≠ .read

instance (f : Function) : Decidable f.Quiet := inferInstanceAs (Decidable (∀ _ ∈ _, _))

/-! ## The channels rest -/

/-- Quiet trees among quiet functions leave the channels alone. -/
theorem Repertoire.quiet_law :
    (ofSubtrees fun t => t.kind ≠ .print ∧ t.kind ≠ .read).Law fun m _ m' =>
      m'.names = m.names ∧ m'.input = m.input ∧ m'.output = m.output where
  refl _ := ⟨rfl, rfl, rfl⟩
  trans := by
    rintro m₁ m₂ m₃ stop ⟨names, input, output⟩ ⟨names', input', output'⟩
    exact ⟨names'.trans names, input'.trans input, output'.trans output⟩
  env _ same := same
  log _ same := same
  fault _ same := same
  ofValues _ _ := ⟨rfl, rfl, rfl⟩
  lookup _ _ := ⟨rfl, rfl, rfl⟩
  emit _ _ quiet := absurd rfl (quiet _ (Node.mem_subtrees_self _)).1
  read _ quiet := absurd rfl (quiet _ (Node.mem_subtrees_self _)).2

/-! ## The environment comes back -/

namespace Run

variable {α : Type} {T : Set Name} {s : ScopeId}

/-- A confined run which, if it is not allowed to bind anything, leaves the
environment exactly as it was. -/
structure Tidy (T : Set Name) (s : ScopeId) (x : Run α) : Prop where
  confined : Confined T s x
  env_eq : T = ∅ → ∀ m, m.env.IsLive s → ∀ r m', x.run m = some (r, m') → m'.env = m.env

/-- A step that never changes the environment. -/
theorem Tidy.of_env_eq {x : Run α} (confined : Confined T s x)
    (h : ∀ m r m', x.run m = some (r, m') → m'.env = m.env) : Tidy T s x where
  confined := confined
  env_eq _ m _ := h m

/-- A step that binds: it is not allowed to unless there is something to bind. -/
theorem Tidy.of_mem {x : Run α} {y : Name} (confined : Confined T s x) (allowed : y ∈ T) :
    Tidy T s x where
  confined := confined
  env_eq empty := absurd (empty ▸ allowed) (Set.notMem_empty y)

theorem Tidy.bind {β : Type} {x : Run α} {f : α → Run β} (hx : Tidy T s x)
    (hf : ∀ a, Tidy T s (f a)) : Tidy T s (x >>= f) where
  confined := hx.confined.bind fun a => (hf a).confined
  env_eq empty m live r m' run := by
    rcases Proc.run_bind_eq_some_iff.mp run with ⟨a, m₁, first, second⟩ | ⟨e, m₁, first, outcome⟩
    · have env_eq := hx.env_eq empty m live _ m₁ first
      exact ((hf a).env_eq empty m₁ (env_eq ▸ live) r m' second).trans env_eq
    · cases outcome
      exact hx.env_eq empty m live _ _ first

theorem Tidy.noted {x : Run α} (hx : Tidy T s x) (before after : Event) :
    Tidy T s (do record before; x.ensuring (record after)) where
  confined := hx.confined.noted before after
  env_eq empty m live r m' run := by
    rw [Proc.run_bind_of_ok rfl, record, Proc.run_ensuring_modify, Option.map_eq_some_iff] at run
    obtain ⟨⟨r, m₁⟩, inner, outcome⟩ := run
    cases outcome
    exact hx.env_eq empty (m.log before) live r m₁ inner

/-- A body may bind in its own scope what it likes: the scope is discarded. -/
theorem tidy_withScope {bindings : Bindings} {body : ScopeId → Run α}
    (h : ∀ t, Tidy Set.univ t (body t)) : Tidy T s (withScope s bindings body) where
  confined := confined_withScope fun t => (h t).confined
  env_eq _ m live r m' run := by
    rw [run_withScope_of_confined live bindings (h _).confined, Option.map_eq_some_iff] at run
    obtain ⟨o, -, outcome⟩ := run
    cases outcome
    rfl

theorem tidy_ofExcept (r : Except EvalError α) : Tidy T s (ofExcept r) :=
  .of_env_eq (confined_ofExcept r) (by rintro m _ m' ⟨⟩; rfl)

theorem tidy_modify {f : Machine → Machine} (env_eq : ∀ m, (f m).env = m.env) :
    Tidy T s (Proc.modify f) :=
  .of_env_eq (confined_modify env_eq) (by rintro m _ m' ⟨⟩; exact env_eq m)

theorem tidy_lookup (x : Name) : Tidy T s (lookup s x) := by
  refine .of_env_eq (confined_lookup x) fun m r m' run => ?_
  simp only [lookup] at run
  split at run <;> cases run <;> rfl

/-- **Tidiness is inherited by evaluation.** -/
theorem tidy_compositional : Compositional fun _ T s x => Tidy T s x where
  noOutcome := .of_env_eq confined_compositional.noOutcome (by rintro m r m' ⟨⟩)
  pure a := tidy_ofExcept (.ok a)
  bind hx hf := hx.bind hf
  ofExcept _ := tidy_ofExcept _
  lookup x := tidy_lookup x
  assign v allowed := .of_mem (confined_assign v allowed) allowed
  emit _ := tidy_modify fun _ => rfl
  read allowed := .of_mem (confined_evalRead allowed) allowed
  evaluating _ := tidy_modify fun _ => rfl
  arityDiffers _ _ := tidy_modify fun _ => rfl
  noted _ _ hx := hx.noted _ _
  withScope h := tidy_withScope h

end Run

/-! ## Repetition -/

/-- The machines differ at most in their records. -/
structure Machine.Unchanged (m k : Machine) : Prop where
  names_eq : k.names = m.names
  env_eq : k.env = m.env
  input_eq : k.input = m.input
  output_eq : k.output = m.output

namespace Machine.Unchanged

variable {m₁ m₂ m₃ : Machine}

@[refl] theorem refl (m : Machine) : m.Unchanged m := ⟨rfl, rfl, rfl, rfl⟩

theorem trans (h : m₁.Unchanged m₂) (h' : m₂.Unchanged m₃) : m₁.Unchanged m₃ where
  names_eq := h'.names_eq.trans h.names_eq
  env_eq := h'.env_eq.trans h.env_eq
  input_eq := h'.input_eq.trans h.input_eq
  output_eq := h'.output_eq.trans h.output_eq

end Machine.Unchanged

/-- No step of an evaluation tells machines apart that have the same input. -/
theorem Machine.channelSimulation_input_eq : ChannelSimulation fun m k => k.input = m.input where
  env _ _ same := same
  log _ same := same
  emit _ same := same
  readLine := Run.readLine_lockstep id (fun _ _ => rfl) fun _ same => same

section

variable {n : Node} {s : ScopeId} {m m' k : Machine} {r : Except Stop Value}

/-- A still tree among quiet functions changes nothing. -/
theorem Evaluates.unchanged (live : m.env.IsLive s)
    (quiet : m.env.FunctionsIn {f | f.Quiet}) (still : n.Still) (h : Evaluates n s m (r, m')) :
    m.Unchanged m' := by
  obtain ⟨depth, run⟩ := h
  obtain ⟨-, ⟨names_eq, input_eq, output_eq⟩, -⟩ :=
    Repertoire.quiet_law.eval depth n s still.quiet m quiet r m' run
  have tidy : Run.Tidy ∅ s (eval depth n s) := by
    refine Run.tidy_compositional.eval depth n s ∅ ?_
    rw [still.targets_eq_nil]
    exact nofun
  exact ⟨names_eq, tidy.env_eq rfl m live r m' run, input_eq, output_eq⟩

/-- Where nothing has changed, the same outcome is come to. -/
theorem Evaluates.again (h : Evaluates n s m (r, m')) (same : m.Unchanged k) :
    ∃ k', Evaluates n s k (r, k') := by
  have matched := Machine.channelSimulation_input_eq.matched_of_env_eq (n := n) (s := s)
    same.input_eq same.env_eq same.names_eq
  obtain ⟨⟨r', k'⟩, evaluated, rfl, -⟩ := matched.1 _ h
  exact ⟨k', evaluated⟩

/-- **A tree that only asks changes nothing, and asking again gives the same
answer.**  Let no function that is bound anywhere print or read, nor any function
inside of it, and let the tree itself neither print, read nor define.  If it comes to an
outcome, in a scope that is there, then names, environment, input and output are
as before.  After any number of further evaluations they still are, and the next
one comes to the same outcome and to no other. -/
theorem evaluates_repeatable (live : m.env.IsLive s) (quiet : m.env.FunctionsIn {f | f.Quiet})
    (still : n.Still) (h : Evaluates n s m (r, m')) :
    m.Unchanged m' ∧
      ∀ k, Relation.ReflTransGen (fun k₁ k₂ => ∃ r', Evaluates n s k₁ (r', k₂)) m k →
        m.Unchanged k ∧ ∃ k', ∀ o, Evaluates n s k o ↔ o = (r, k') := by
  refine ⟨h.unchanged live quiet still, fun k reruns => ?_⟩
  have same : m.Unchanged k := by
    induction reruns with
    | refl => exact .refl m
    | tail _ step ih =>
      obtain ⟨r', rerun⟩ := step
      exact ih.trans (rerun.unchanged (ih.env_eq ▸ live) (ih.env_eq ▸ quiet) still)
  obtain ⟨k', rerun⟩ := h.again same
  refine ⟨same, k', fun o => ⟨fun other => other.unique rerun, ?_⟩⟩
  rintro rfl
  exact rerun

/-- A function calls itself until its argument is `0` and gives out a function that it
defined on the way, which is then called.  All of that leaves no trace in the scope of
the call, an inner one. -/
theorem evaluates_repeatable_recursive_call :
    let f : Function := ⟨[⟨2⟩], [.define ⟨3⟩ [] [.number 7],
      .conditional (.reference ⟨2⟩)
        [.call (.reference ⟨1⟩) [.binary .sub (.reference ⟨2⟩) (.number 1)]]
        (some [.reference ⟨3⟩])]⟩
    let env : Environment := ⟨#[⟨[(⟨1⟩, .function f)], none⟩, ⟨[(⟨2⟩, .void)], some .root⟩]⟩
    let m : Machine := ⟨.initial, env, .queue ["5"], .captured "", #[]⟩
    let n : Node := .call (.call (.reference ⟨1⟩) [.number 2]) []
    m.env.IsLive ⟨1⟩ ∧ m.env.FunctionsIn {f | f.Quiet} ∧ n.Still ∧
      ∃ m', Evaluates n ⟨1⟩ m (.ok (.number 7), m') ∧ m.Unchanged m' ∧
        ∃ m'', ∀ o, Evaluates n ⟨1⟩ m' o ↔ o = (.ok (.number 7), m'') := by
  intro f env m n
  have live : m.env.IsLive ⟨1⟩ := by decide
  have quiet : m.env.FunctionsIn {f | f.Quiet} := by
    have only : f.Quiet := by decide
    refine .of_frames ?_
    simpa [m, env] using only
  have still : n.Still := by decide
  have outcome : ((eval 9 n ⟨1⟩).run m).map (fun o => o.1) = some (.ok (.number 7)) := by
    decide +kernel
  obtain ⟨⟨r, m'⟩, run, rfl⟩ := Option.map_eq_some_iff.mp outcome
  have first : Evaluates n ⟨1⟩ m (.ok (.number 7), m') := ⟨9, run⟩
  obtain ⟨same, again⟩ := evaluates_repeatable live quiet still first
  exact ⟨live, quiet, still, m', first, same, (again m' (.single ⟨_, first⟩)).2⟩

end

end TreeWalk
