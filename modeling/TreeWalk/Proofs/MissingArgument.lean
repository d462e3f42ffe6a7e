import TreeWalk.Proofs.Refinement

/-!
# Parameters without arguments

A call with too few arguments leaves the parameters at the end unbound.  The scope of the
call is nested in the caller's, and a name that it does not bind is looked for there.  So **a
parameter without an argument means whatever its name means to the caller**, and to refer to
it fails only if the caller finds nothing either.

## Main definitions

* `Machine.enterCall`: the machine at the start of the body in a call
* `Machine.Proceeds`: trees are evaluated in one scope, one after another

## Main statements

* `run_applyFunction`: a call is its body, run in a scope of its own
* `missing_argument_resolves_outward`: what a parameter without an argument refers to
* `missing_argument_found_in_caller`: a call with too few arguments that does not fail

## Design notes

The body may have gone on for a while before it refers to the parameter: it may have read,
defined and called.  None of this touches the scopes of the caller, and as long as the scope
of the call does not bind the name itself, the meaning of the name is what it was when the
call began.
-/

namespace TreeWalk

/-! ## Calls -/

namespace Machine

/-- The machine after a note about arguments that do not fit, if they do not. -/
def arityNoted (m : Machine) (f : Function) (args : List Value) : Machine :=
  if args.length = f.arity then m else m.log (.arityDiffers f.arity args.length)

/-- The machine at the start of the body in a call of `f` from the scope `s`. -/
def enterCall (m : Machine) (f : Function) (args : List Value) (s : ScopeId) : Machine :=
  (m.arityNoted f args).enter s (f.params.zip args)

@[simp] theorem env_arityNoted (m : Machine) (f : Function) (args : List Value) :
    (m.arityNoted f args).env = m.env := by
  unfold arityNoted
  split <;> rfl

@[simp] theorem env_enterCall (m : Machine) (f : Function) (args : List Value) (s : ScopeId) :
    (m.enterCall f args s).env = m.env.enter s (f.params.zip args) := by
  show (m.arityNoted f args).env.enter s (f.params.zip args) = _
  rw [env_arityNoted]

end Machine

theorem run_noteArity (f : Function) (args : List Value) (m : Machine) :
    (noteArity f args).run m = some (.ok (), m.arityNoted f args) := by
  unfold noteArity Machine.arityNoted
  split <;> rfl

/-- **A call is its body, run in a scope of its own.** -/
theorem run_applyFunction {m : Machine} {s : ScopeId} (live : m.env.IsLive s) (f : Function)
    (args : List Value) (depth : Nat) :
    (applyFunction (eval depth) f args s).run m =
      ((evalBody (eval depth) f ⟨m.env.depth⟩).run (m.enterCall f args s)).map fun o =>
        (o.1, (m.arityNoted f args).resume o.2) := by
  have confined : Run.Confined Set.univ ⟨m.env.depth⟩ (evalBody (eval depth) f ⟨m.env.depth⟩) :=
    Run.confined_compositional.evalBody (Run.confined_compositional.eval depth) f _
      fun _ _ => Set.mem_univ _
  have env := m.env_arityNoted f args
  rw [← env] at live confined ⊢
  rw [applyFunction, Proc.run_bind_of_ok (run_noteArity f args m)]
  exact Run.run_withScope_of_confined live (f.params.zip args) confined

/-! ## What a call binds -/

/-- Names that are not among the new ones keep their values. -/
theorem Bindings.find?_assignAll_of_forall_ne {bs : Bindings} {more : List (Name × Value)}
    {y : Name} (h : ∀ b ∈ more, y ≠ b.1) : (bs.assignAll more).find? y = bs.find? y := by
  induction more generalizing bs with
  | nil => rfl
  | cons b rest ih =>
    rw [List.forall_mem_cons] at h
    have kept := (bs.find?_assign b.1 y b.2).trans (if_neg h.1)
    exact (ih h.2).trans kept

/-- Where arguments are missing, the scope of the call does not bind the parameters that they
are missing for. -/
theorem own?_enterCall_of_notMem (m : Machine) (s : ScopeId) {f : Function} {args : List Value}
    {p : Name} (missing : p ∉ f.params.take args.length) :
    (m.enterCall f args s).env.own? ⟨m.env.depth⟩ p = none := by
  rw [Machine.env_enterCall, Environment.own?_enter_self]
  refine (Bindings.find?_assignAll_of_forall_ne fun b bound => ?_).trans (Bindings.find?_nil p)
  rintro rfl
  rw [List.zip_eq_zip_take_min] at bound
  have among := (List.of_mem_zip (a := b.1) (b := b.2) bound).1
  exact missing (List.take_subset_take_left f.params (Nat.min_le_right _ _) among)

/-! ## The scope of a call while the body runs -/

/-- From `m` to `m'`, trees are evaluated in the scope `c` and events are noted. -/
inductive Machine.Proceeds (c : ScopeId) (m : Machine) : Machine → Prop where
  | start : Proceeds c m m
  | evaluates {m₁ m₂ : Machine} {n : Node} {r : Except Stop Value} :
    Proceeds c m m₁ → Evaluates n c m₁ (r, m₂) → Proceeds c m m₂
  | notes {m₁ : Machine} (e : Event) : Proceeds c m m₁ → Proceeds c m (m₁.log e)

/-- Meanwhile no other scope changes. -/
theorem Machine.Proceeds.changesOnly {c : ScopeId} {m m' : Machine} (h : m.Proceeds c m')
    (live : m.env.IsLive c) : m.env.ChangesOnly Set.univ c m'.env := by
  induction h with
  | start => exact .refl _ _ _
  | @evaluates m₁ m₂ n r _ evaluates before =>
    obtain ⟨depth, run⟩ := evaluates
    have confined := Run.confined_compositional.eval depth n c Set.univ fun _ _ => Set.mem_univ _
    exact before.trans (confined _ (before.isLive_iff.mpr live) _ _ run).2
  | notes _ _ before => exact before

namespace Environment

theorem WellFormed.of_changesOnly {env env' : Environment} {T : Set Name} {c : ScopeId}
    (wf : env.WellFormed) (h : env.ChangesOnly T c env') : env'.WellFormed := by
  refine wf.of_parent?_eq (h.depth_eq ▸ wf.depth_pos) (Nat.le_of_eq h.depth_eq) fun t _ => ?_
  by_cases same : t = c
  · subst same
    exact h.parent_eq
  · exact parent?_congr (h.frame_eq t same)

/-- A name that a new scope does not bind means there what it meant to the scope around it when
the new one was entered. -/
theorem WellFormed.get?_of_changesOnly_enter {env env' : Environment} {T : Set Name}
    {s : ScopeId} {bindings : Bindings} (wf : env.WellFormed) (live : env.IsLive s)
    (h : (env.enter s bindings).ChangesOnly T ⟨env.depth⟩ env') {p : Name}
    (unbound : env'.own? ⟨env.depth⟩ p = none) : env'.get? ⟨env.depth⟩ p = env.get? s p := by
  have wf' : env'.WellFormed := (wf.enter live bindings).of_changesOnly h
  have parent : env'.parent? ⟨env.depth⟩ = some s :=
    h.parent_eq.trans (env.parent?_enter_self s bindings)
  have outer : env'.get? s p = env.get? s p := by
    refine wf.get?_congr wf' p s fun i hi => ?_
    have older : i < env.depth := Nat.lt_of_le_of_lt hi live
    have other : (⟨i⟩ : ScopeId) ≠ ⟨env.depth⟩ := fun same =>
      Nat.ne_of_lt older (congrArg ScopeId.index same)
    exact (h.frame_eq ⟨i⟩ other).trans (env.getElem?_frames_enter s bindings older)
  rw [wf'.get?_eq, unbound, parent, Option.none_or, Option.bind_some, outer]

end Environment

/-! ## References -/

theorem evaluates_reference_of_some {x : Name} {s : ScopeId} {m : Machine} {v : Value}
    (found : m.env.get? s x = some v) :
    Evaluates (.reference x) s m (.ok v, m.log (.evaluating .reference)) := by
  refine ⟨1, ?_⟩
  show (Run.lookup s x).run (m.log (.evaluating .reference)) = _
  have found' : (m.log (.evaluating .reference)).env.get? s x = some v := found
  simp only [Run.lookup, found']

theorem evaluates_reference_of_none {x : Name} {s : ScopeId} {m : Machine}
    (absent : m.env.get? s x = none) :
    Evaluates (.reference x) s m
      (.error (.error (.undefinedVariable (m.names.lookup x))),
        m.log (.evaluating .reference)) := by
  refine ⟨1, ?_⟩
  show (Run.lookup s x).run (m.log (.evaluating .reference)) = _
  have absent' : (m.log (.evaluating .reference)).env.get? s x = none := absent
  simp only [Run.lookup, absent']
  rfl

/-- **A parameter without an argument means what its name means to the caller.**  A function
is called from a scope that is there; its body runs in a scope of its own, which does not bind
a parameter for which the argument is missing.  As long as that scope does not bind the name,
however far the body has proceeded there, a reference to the parameter gives the value that
the caller finds under the name, and fails as undefined exactly if the caller finds none. -/
theorem missing_argument_resolves_outward {m : Machine} {s : ScopeId}
    (reachable : m.env.Reachable) (live : m.env.IsLive s) (f : Function) (args : List Value) :
    (∀ depth, (applyFunction (eval depth) f args s).run m =
      ((evalBody (eval depth) f ⟨m.env.depth⟩).run (m.enterCall f args s)).map fun o =>
        (o.1, (m.arityNoted f args).resume o.2)) ∧
    ∀ p, p ∉ f.params.take args.length →
      (m.enterCall f args s).env.own? ⟨m.env.depth⟩ p = none ∧
      ∀ m', (m.enterCall f args s).Proceeds ⟨m.env.depth⟩ m' →
        m'.env.own? ⟨m.env.depth⟩ p = none →
          (∀ v, m.env.get? s p = some v →
            Evaluates (.reference p) ⟨m.env.depth⟩ m' (.ok v, m'.log (.evaluating .reference))) ∧
          (m.env.get? s p = none →
            Evaluates (.reference p) ⟨m.env.depth⟩ m'
              (.error (.error (.undefinedVariable (m'.names.lookup p))),
                m'.log (.evaluating .reference))) := by
  refine ⟨run_applyFunction live f args, fun p missing => ?_⟩
  refine ⟨own?_enterCall_of_notMem m s missing, fun m' proceeds unbound => ?_⟩
  have start : (m.enterCall f args s).env.IsLive ⟨m.env.depth⟩ := by
    rw [Machine.env_enterCall]
    exact m.isLive_enter s (f.params.zip args)
  have changes := proceeds.changesOnly start
  rw [Machine.env_enterCall] at changes
  have outward : m'.env.get? ⟨m.env.depth⟩ p = m.env.get? s p :=
    reachable.wellFormed.get?_of_changesOnly_enter live changes unbound
  refine ⟨fun v found => evaluates_reference_of_some (outward.trans found), fun absent => ?_⟩
  exact evaluates_reference_of_none (outward.trans absent)

/-- The outermost scope binds the name of the second parameter, and the call has one argument.
The body reads a line before it comes to the parameter. -/
theorem missing_argument_resolves_outward_after_read :
    let f : Function := ⟨[⟨1⟩, ⟨2⟩], [.read ⟨3⟩, .reference ⟨2⟩]⟩
    let m : Machine := ⟨.initial, .ofBindings [(⟨2⟩, .number 7)], .queue ["5"], .captured "", #[]⟩
    m.env.Reachable ∧ m.env.IsLive .root ∧ ⟨2⟩ ∉ f.params.take [Value.number 3].length ∧
      ∃ m', Evaluates (.read ⟨3⟩) ⟨1⟩ (m.enterCall f [.number 3] .root) (.ok (.number 5), m') ∧
        Evaluates (.reference ⟨2⟩) ⟨1⟩ m' (.ok (.number 7), m'.log (.evaluating .reference)) := by
  intro f m
  have reachable : m.env.Reachable := .ofBindings _
  have live : m.env.IsLive .root := by decide
  have missing : (⟨2⟩ : Name) ∉ f.params.take [Value.number 3].length := by decide
  obtain ⟨m', run, unbound⟩ : ∃ m', (eval 1 (.read ⟨3⟩) ⟨1⟩).run (m.enterCall f [.number 3] .root) =
      some (.ok (.number 5), m') ∧ m'.env.own? ⟨1⟩ ⟨2⟩ = none := ⟨_, rfl, rfl⟩
  obtain ⟨-, resolves⟩ := missing_argument_resolves_outward reachable live f [.number 3]
  obtain ⟨-, outward⟩ := resolves ⟨2⟩ missing
  obtain ⟨found, -⟩ := outward m' (.evaluates .start ⟨1, run⟩) unbound
  exact ⟨reachable, live, missing, m', ⟨1, run⟩, found _ rfl⟩

/-- A call with too few arguments need not fail, though its body is nothing but a reference to
the parameter without an argument: the caller binds the name of the parameter. -/
theorem missing_argument_found_in_caller :
    let m : Machine := ⟨.initial, .ofBindings [(⟨2⟩, .number 7)], .queue [], .captured "", #[]⟩
    let n : Node := .call (.define ⟨3⟩ [⟨1⟩, ⟨2⟩] [.reference ⟨2⟩]) [.number 3]
    (∃ m', Evaluates n .root m (.ok (.number 7), m')) ∧
      ¬ ∃ e m', Evaluates n .root m (.error e, m') := by
  intro m n
  obtain ⟨m', run⟩ : ∃ m', (eval 3 n .root).run m = some (.ok (.number 7), m') := ⟨_, rfl⟩
  refine ⟨⟨m', 3, run⟩, ?_⟩
  rintro ⟨e, m'', h⟩
  have fails_and_succeeds := h.unique ⟨3, run⟩
  cases fails_and_succeeds

end TreeWalk
