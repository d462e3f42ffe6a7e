import TreeWalk.Proofs.Arena
import TreeWalk.Proofs.Compositional

/-!
# What an evaluation can touch

A call pushes a frame, binds parameters in it, runs arbitrary code there and
discards it again.  Nothing of that can be seen in the arena afterwards.  **An
evaluation in a scope that is there breaks no rule of the arena and changes that
scope's own frame alone**, and in that frame only the targets of its tree.

## Main definitions

* `Environment.ChangesOnly`: two environments differ at most in the values that
  one scope gives to certain names
* `Run.Confined`: a run causes no fault and changes only what it is allowed to
* `Machine.enter`, `Machine.resume`: the machine at the start of a body, and the
  machine after it

## Main statements

* `Run.run_withScope_of_confined`: a body in a new scope leaves the environment
  exactly as it was
* `Run.confined_compositional`: confinement is inherited by evaluation
* `evaluates_confined`: the frame property of evaluation

## Design notes

The frame property needs nothing of the arena but that the scope is there.  In
particular the scope need not be the last one, and the arena need not be
reachable.
-/

namespace TreeWalk

/-! ## Environments that differ in one frame -/

/-- `env'` differs from `env` at most in the values that the scope `s` itself
gives to names from `T`, and no binding is gone. -/
structure Environment.ChangesOnly (T : Set Name) (s : ScopeId) (env env' : Environment) :
    Prop where
  /-- There are as many scopes as before. -/
  depth_eq : env'.depth = env.depth
  /-- All other scopes are as they were, bindings and parent. -/
  frame_eq : ∀ t, t ≠ s → env'.frames[t.index]? = env.frames[t.index]?
  /-- The scope is nested in what it was nested in. -/
  parent_eq : env'.parent? s = env.parent? s
  /-- What the scope bound it still binds. -/
  bound : ∀ x, (env.own? s x).isSome → (env'.own? s x).isSome
  /-- Names that are not allowed keep their values. -/
  own_eq : ∀ x, x ∉ T → env'.own? s x = env.own? s x

namespace Environment.ChangesOnly

variable {T : Set Name} {s : ScopeId} {env env' env'' : Environment}

@[refl] theorem refl (T : Set Name) (s : ScopeId) (env : Environment) :
    ChangesOnly T s env env where
  depth_eq := rfl
  frame_eq _ _ := rfl
  parent_eq := rfl
  bound _ h := h
  own_eq _ _ := rfl

theorem trans (h : ChangesOnly T s env env') (h' : ChangesOnly T s env' env'') :
    ChangesOnly T s env env'' where
  depth_eq := h'.depth_eq.trans h.depth_eq
  frame_eq t ht := (h'.frame_eq t ht).trans (h.frame_eq t ht)
  parent_eq := h'.parent_eq.trans h.parent_eq
  bound x hx := h'.bound x (h.bound x hx)
  own_eq x hx := (h'.own_eq x hx).trans (h.own_eq x hx)

/-- The same scopes are there. -/
theorem isLive_iff (h : ChangesOnly T s env env') {t : ScopeId} : env'.IsLive t ↔ env.IsLive t := by
  rw [IsLive, IsLive, ← depth, ← depth, h.depth_eq]

/-- Binding an allowed name is such a change. -/
theorem set {x : Name} {v : Value} (allowed : x ∈ T) (h : env.set s x v = .ok env') :
    ChangesOnly T s env env' where
  depth_eq := depth_set h
  frame_eq t ht := getElem?_frames_set h fun same => ht (congrArg ScopeId.mk same)
  parent_eq := parent?_set h s
  bound y hy := by
    rw [own?_set_self h]
    split
    · rfl
    · exact hy
  own_eq y hy := by
    rw [own?_set_self h, if_neg]
    rintro rfl
    exact hy allowed

end Environment.ChangesOnly

/-! ## The start and the end of a body -/

/-- The environment with a new scope at its end that has the given bindings; of
two values for one name the last counts. -/
def Environment.enter (env : Environment) (parent : ScopeId) (bindings : Bindings) : Environment :=
  ⟨env.frames.push ⟨Bindings.assignAll [] bindings, some parent⟩⟩

/-- The machine at the start of a body in a scope of its own. -/
def Machine.enter (m : Machine) (parent : ScopeId) (bindings : Bindings) : Machine :=
  { m with env := m.env.enter parent bindings }.log (.scopePushed ⟨m.env.depth⟩ parent)

/-- The machine after a body that ended as `m'`: the caller's environment is back,
and all else that the body did stays. -/
def Machine.resume (m m' : Machine) : Machine :=
  { m' with env := m.env }.log (.scopePopped ⟨m.env.depth⟩)

theorem Environment.depth_enter (env : Environment) (parent : ScopeId) (bindings : Bindings) :
    (env.enter parent bindings).depth = env.depth + 1 := Array.size_push _

/-- Entering a scope leaves the frames that are there alone. -/
theorem Environment.getElem?_frames_enter (env : Environment) (parent : ScopeId)
    (bindings : Bindings) {i : Nat} (hi : i < env.depth) :
    (env.enter parent bindings).frames[i]? = env.frames[i]? :=
  (Array.getElem?_push_lt hi).trans (Array.getElem?_eq_getElem hi).symm

/-- Binding in the scope that was pushed last changes the last frame. -/
theorem Environment.set_last (frames : Array Frame) (f : Frame) (x : Name) (v : Value) :
    (⟨frames.push f⟩ : Environment).set ⟨frames.size⟩ x v =
      .ok ⟨frames.push (f.assign x v)⟩ := by
  refine Environment.set_eq_ok_iff.mpr ⟨?_, ?_⟩
  · rw [Environment.IsLive, Array.size_push]
    exact Nat.lt_succ_self _
  · refine congrArg Environment.mk (Array.ext_getElem? fun i => ?_)
    rw [Array.getElem?_modify, Array.getElem?_push, Array.getElem?_push]
    by_cases hi : i = frames.size
    · rw [if_pos hi, if_pos hi.symm, if_pos hi, Option.map_some]
    · rw [if_neg hi, if_neg (Ne.symm hi), if_neg hi]

/-- The new scope is there. -/
theorem Machine.isLive_enter (m : Machine) (parent : ScopeId) (bindings : Bindings) :
    (m.enter parent bindings).env.IsLive ⟨m.env.depth⟩ := by
  show m.env.depth < (m.env.enter parent bindings).depth
  rw [Environment.depth_enter]
  exact Nat.lt_succ_self _

namespace Run

variable {α : Type} {m : Machine} {parent : ScopeId}

theorem run_pushScope_of_isLive (live : m.env.IsLive parent) :
    (pushScope parent).run m =
      some (.ok ⟨m.env.depth⟩,
        { m with env := ⟨m.env.frames.push ⟨[], some parent⟩⟩ }.log
          (.scopePushed ⟨m.env.depth⟩ parent)) := by
  have pushed := Environment.push_eq_ok_iff.mpr ⟨live, rfl, rfl⟩
  simp only [pushScope, pushed]

/-- In the scope that was pushed last, bindings simply accumulate. -/
theorem run_assignAll_last (frames : Array Frame) (p : Option ScopeId) (more bs : Bindings)
    (m : Machine) (h : m.env = ⟨frames.push ⟨bs, p⟩⟩) :
    (assignAll ⟨frames.size⟩ more).run m =
      some (.ok (), { m with env := ⟨frames.push ⟨bs.assignAll more, p⟩⟩ }) := by
  induction more generalizing bs m with
  | nil =>
    rw [Bindings.assignAll, List.foldl_nil, ← h]
    rfl
  | cons b rest ih =>
    have first : (assign ⟨frames.size⟩ b.1 b.2).run m =
        some (.ok (), { m with env := ⟨frames.push ⟨bs.assign b.1 b.2, p⟩⟩ }) := by
      simp only [assign, h, Environment.set_last]
      rfl
    exact (Proc.run_bind_of_ok first _).trans (ih (bs.assign b.1 b.2) _ rfl)

/-- A body in a new scope starts from the machine that `enter` describes, and its
scope is discarded at the end. -/
theorem run_withScope_of_isLive (live : m.env.IsLive parent) (bindings : Bindings)
    (body : ScopeId → Run α) :
    (withScope parent bindings body).run m =
      ((body ⟨m.env.depth⟩).ensuring (popScope ⟨m.env.depth⟩)).run (m.enter parent bindings) := by
  have bound := run_assignAll_last m.env.frames (some parent) bindings []
    ({ m with env := ⟨m.env.frames.push ⟨[], some parent⟩⟩ }.log
      (.scopePushed ⟨m.env.depth⟩ parent)) rfl
  have inner := Proc.run_bind_of_ok bound fun _ => body ⟨m.env.depth⟩
  rw [withScope, Proc.run_bind_of_ok (run_pushScope_of_isLive live), Proc.ensuring, Proc.ensuring]
  dsimp only
  rw [show assignAll ⟨m.env.depth⟩ bindings = assignAll ⟨m.env.frames.size⟩ bindings from rfl,
    inner]
  rfl

/-- There is no running in a scope inside of one that is gone: the rule about
parents is broken before anything else happens. -/
theorem run_withScope_of_not_isLive (dead : ¬ m.env.IsLive parent) (bindings : Bindings)
    (body : ScopeId → Run α) :
    (withScope parent bindings body).run m = some (.error (.fault (.deadParent parent)), m) := by
  have refused : m.env.push parent = .error (.deadParent parent) := if_neg dead
  have stopped : (pushScope parent).run m = some (.error (.fault (.deadParent parent)), m) := by
    simp only [pushScope, refused]
  exact Proc.run_bind_of_error stopped _

/-! ## Confined runs -/

/-- Wherever the scope `s` is there, `x` causes no fault, and it changes at most
the values that `s` gives to names from `T`. -/
def Confined (T : Set Name) (s : ScopeId) (x : Run α) : Prop :=
  ∀ m, m.env.IsLive s → ∀ r m', x.run m = some (r, m') →
    (∀ f, r ≠ .error (.fault f)) ∧ m.env.ChangesOnly T s m'.env

/-- Without a fault there is a result, or an error of the program. -/
theorem Confined.ok_or_error {T : Set Name} {s : ScopeId} {x : Run α} {r : Except Stop α}
    {m' : Machine} (hx : Confined T s x) (live : m.env.IsLive s) (run : x.run m = some (r, m')) :
    (∃ a, r = .ok a) ∨ ∃ e, r = .error (.error e) := by
  obtain ⟨noFault, -⟩ := hx m live r m' run
  rcases r with (e | f) | a
  · exact .inr ⟨e, rfl⟩
  · exact absurd rfl (noFault f)
  · exact .inl ⟨a, rfl⟩

/-- After a confined body, discarding its scope brings back the environment that
the body started from. -/
theorem run_popScope_of_changesOnly {T : Set Name} {bindings : Bindings} {m' : Machine}
    (live : m.env.IsLive parent)
    (h : (m.enter parent bindings).env.ChangesOnly T ⟨m.env.depth⟩ m'.env) :
    (popScope ⟨m.env.depth⟩).run m' = some (.ok (), m.resume m') := by
  have size : m'.env.depth = m.env.depth + 1 :=
    h.depth_eq.trans (m.env.depth_enter parent bindings)
  have inner : m'.env.IsInner ⟨m.env.depth⟩ := by
    refine ⟨fun isRoot => ?_, ?_⟩
    · have empty : m.env.depth = 0 := congrArg ScopeId.index isRoot
      exact Nat.not_lt_zero _ (empty ▸ live : parent.index < 0)
    · rw [Environment.IsLive, ← Environment.depth, size]
      exact Nat.lt_succ_self _
  -- Below the new frame the arena is the old one, and the new frame is dropped.
  have restored : (⟨m'.env.frames.pop⟩ : Environment) = m.env := by
    refine congrArg Environment.mk (Array.ext_getElem? fun i => ?_)
    rw [Array.getElem?_pop, ← Environment.depth, size, Nat.add_sub_cancel]
    split
    · next older =>
      have other : (⟨i⟩ : ScopeId) ≠ ⟨m.env.depth⟩ := fun same =>
        Nat.ne_of_lt older (congrArg ScopeId.index same)
      exact (h.frame_eq ⟨i⟩ other).trans (m.env.getElem?_frames_enter parent bindings older)
    · next beyond => exact (Array.getElem?_eq_none (Nat.le_of_not_lt beyond)).symm
  have popped : m'.env.pop ⟨m.env.depth⟩ = .ok m.env :=
    Environment.pop_eq_ok_iff.mpr (.inl ⟨inner, size.symm, restored.symm⟩)
  simp only [popScope, if_pos inner, popped]
  rfl

/-- **A confined body in a new scope leaves the environment exactly as it was**,
whether it came to a result or stopped. -/
theorem run_withScope_of_confined {T : Set Name} (live : m.env.IsLive parent)
    (bindings : Bindings) {body : ScopeId → Run α}
    (confined : Confined T ⟨m.env.depth⟩ (body ⟨m.env.depth⟩)) :
    (withScope parent bindings body).run m =
      ((body ⟨m.env.depth⟩).run (m.enter parent bindings)).map fun o =>
        (o.1, m.resume o.2) := by
  rw [run_withScope_of_isLive live, Proc.ensuring]
  dsimp only
  rcases run : (body ⟨m.env.depth⟩).run (m.enter parent bindings) with _ | ⟨r, m'⟩
  · rfl
  · obtain ⟨-, changes⟩ := confined _ (m.isLive_enter parent bindings) r m' run
    simp only [run_popScope_of_changesOnly live changes, Option.map_some]

/-- A step that comes to a result or to an error of the program, and leaves the
environment alone, is confined to anything. -/
theorem confined_of_env_eq {T : Set Name} {s : ScopeId} {x : Run α}
    (h : ∀ m r m', x.run m = some (r, m') → (∀ f, r ≠ .error (.fault f)) ∧ m'.env = m.env) :
    Confined T s x := by
  intro m _ r m' run
  obtain ⟨noFault, same⟩ := h m r m' run
  exact ⟨noFault, same ▸ .refl T s m.env⟩

theorem Confined.bind {β : Type} {T : Set Name} {s : ScopeId} {x : Run α} {f : α → Run β}
    (hx : Confined T s x) (hf : ∀ a, Confined T s (f a)) : Confined T s (x >>= f) := by
  intro m live r m' run
  rcases Proc.run_bind_eq_some_iff.mp run with ⟨a, m₁, first, second⟩ | ⟨e, m₁, first, outcome⟩
  · obtain ⟨-, changes⟩ := hx m live _ _ first
    obtain ⟨noFault, changes'⟩ := hf a m₁ (changes.isLive_iff.mpr live) r m' second
    exact ⟨noFault, changes.trans changes'⟩
  · cases outcome
    obtain ⟨noFault, changes⟩ := hx m live _ _ first
    refine ⟨fun f same => noFault f ?_, changes⟩
    cases same
    rfl

/-- Notes in the record do not matter to confinement. -/
theorem Confined.noted {T : Set Name} {s : ScopeId} {x : Run α} (hx : Confined T s x)
    (before after : Event) :
    Confined T s (do record before; x.ensuring (record after)) := by
  intro m live r m' run
  rw [Proc.run_bind_of_ok rfl, record, Proc.run_ensuring_modify, Option.map_eq_some_iff] at run
  obtain ⟨⟨r, m₁⟩, inner, outcome⟩ := run
  cases outcome
  exact hx (m.log before) live r m₁ inner

theorem confined_assign {T : Set Name} {s : ScopeId} {x : Name} (v : Value) (allowed : x ∈ T) :
    Confined T s (assign s x v) := by
  intro m live r m' run
  have bound := Environment.set_eq_ok_iff.mpr
    ⟨live, (rfl : _ = (⟨m.env.frames.modify s.index (·.assign x v)⟩ : Environment))⟩
  simp only [assign, bound, Option.some.injEq, Prod.mk.injEq] at run
  obtain ⟨rfl, rfl⟩ := run
  exact ⟨fun _ => nofun, .set allowed bound⟩

theorem confined_ofExcept {T : Set Name} {s : ScopeId} (r : Except EvalError α) :
    Confined T s (ofExcept r) := by
  refine confined_of_env_eq ?_
  rintro m _ m' ⟨⟩
  refine ⟨fun f => ?_, rfl⟩
  cases r <;> simp [Except.mapError]

theorem confined_pure {T : Set Name} {s : ScopeId} (a : α) : Confined T s (pure a : Run α) :=
  confined_ofExcept (.ok a)

theorem confined_modify {T : Set Name} {s : ScopeId} {f : Machine → Machine}
    (env_eq : ∀ m, (f m).env = m.env) : Confined T s (Proc.modify f) := by
  refine confined_of_env_eq ?_
  rintro m r m' ⟨⟩
  exact ⟨fun _ => nofun, env_eq m⟩

theorem confined_lookup {T : Set Name} {s : ScopeId} (x : Name) : Confined T s (lookup s x) := by
  refine confined_of_env_eq fun m r m' run => ?_
  simp only [lookup] at run
  split at run <;> cases run <;> exact ⟨fun _ => nofun, rfl⟩

theorem confined_readLine {T : Set Name} {s : ScopeId} : Confined T s readLine := by
  refine confined_of_env_eq fun m r m' run => ?_
  simp only [readLine] at run
  split at run <;> cases run <;> exact ⟨fun _ => nofun, rfl⟩

theorem confined_evalRead {T : Set Name} {s : ScopeId} {x : Name} (allowed : x ∈ T) :
    Confined T s (evalRead x s) := by
  refine evalRead_of_parts (P := fun _ y => Confined T s y) .bind confined_pure confined_readLine
    (fun e => confined_ofExcept (.error e)) fun k => confined_assign (.number k) allowed

theorem confined_withScope {T : Set Name} {s : ScopeId} {bindings : Bindings}
    {body : ScopeId → Run α} (h : ∀ t, Confined Set.univ t (body t)) :
    Confined T s (withScope s bindings body) := by
  intro m live r m' run
  rw [run_withScope_of_confined live bindings (h _), Option.map_eq_some_iff] at run
  obtain ⟨⟨r, m₁⟩, inner, outcome⟩ := run
  cases outcome
  exact ⟨(h _ _ (m.isLive_enter s bindings) _ _ inner).1, .refl T s m.env⟩

/-- **Confinement is inherited by evaluation.** -/
theorem confined_compositional : Compositional fun _ T s x => Confined T s x where
  noOutcome := confined_of_env_eq (by rintro m r m' ⟨⟩)
  pure a := confined_pure a
  bind hx hf := hx.bind hf
  ofExcept _ := confined_ofExcept _
  lookup x := confined_lookup x
  assign v allowed := confined_assign v allowed
  emit _ := confined_modify fun _ => rfl
  read allowed := confined_evalRead allowed
  evaluating _ := confined_modify fun _ => rfl
  arityDiffers _ _ := confined_modify fun _ => rfl
  noted _ _ hx := hx.noted _ _
  withScope h := confined_withScope h

end Run

/-! ## The frame property -/

/-- An evaluation is confined to the targets of its tree. -/
theorem eval_confined (depth : Nat) (n : Node) (s : ScopeId) :
    Run.Confined {x | x ∈ n.targets} s (eval depth n s) :=
  Run.confined_compositional.eval depth n s _ fun _ hx => hx

/-- **The frame property of evaluation.**  Wherever an evaluation in a scope that
is there comes to an outcome, that outcome is a value or an error of the program
and no fault.  There are as many frames as before, every other frame is the same,
and the scope itself has its old parent, all its bindings, and new values at most
for the targets of the tree, whatever the functions do that are called. -/
theorem evaluates_confined {n : Node} {s : ScopeId} {m m' : Machine} {r : Except Stop Value}
    (live : m.env.IsLive s) (h : Evaluates n s m (r, m')) :
    ((∃ v, r = .ok v) ∨ ∃ e, r = .error (.error e)) ∧
      m'.env.depth = m.env.depth ∧
      (∀ t, t ≠ s → m'.env.frames[t.index]? = m.env.frames[t.index]?) ∧
      m'.env.parent? s = m.env.parent? s ∧
      (∀ x, (m.env.own? s x).isSome → (m'.env.own? s x).isSome) ∧
      ∀ x, x ∉ n.targets → m'.env.own? s x = m.env.own? s x := by
  obtain ⟨depth, run⟩ := h
  obtain ⟨noFault, changes⟩ := eval_confined depth n s m live r m' run
  refine ⟨?_, changes.depth_eq, changes.frame_eq, changes.parent_eq, changes.bound,
    changes.own_eq⟩
  rcases r with (e | f) | v
  · exact .inr ⟨e, rfl⟩
  · exact absurd rfl (noFault f)
  · exact .inl ⟨v, rfl⟩

/-- A call in the outermost scope, below another frame.  The body defines a name
of its own and then fails to read; in the outermost scope nothing is new but the
function that was called. -/
theorem evaluates_confined_failing_call :
    let env : Environment := ⟨#[⟨[], none⟩, ⟨[(⟨4⟩, .void)], some .root⟩]⟩
    let m : Machine := ⟨.initial, env, .queue [], .captured "", #[]⟩
    let n : Node := .call (.define ⟨1⟩ [⟨2⟩] [.define ⟨3⟩ [] [], .read ⟨4⟩]) [.number 1]
    ∃ m', m.env.IsLive .root ∧ Evaluates n .root m (.error (.error .inputExhausted), m') ∧
      m'.env.depth = 2 ∧ m'.env.frames[1]? = env.frames[1]? ∧
      ∀ x, x ∉ n.targets → m'.env.own? .root x = none := by
  intro env m n
  have live : m.env.IsLive .root := by decide
  obtain ⟨m', run⟩ : ∃ m', (eval 3 n .root).run m =
      some (.error (.error .inputExhausted), m') := ⟨_, rfl⟩
  obtain ⟨-, depth, frame, -, -, own⟩ := evaluates_confined live ⟨3, run⟩
  refine ⟨m', live, ⟨3, run⟩, depth, frame ⟨1⟩ (by decide), fun x hx => ?_⟩
  rw [own x hx]
  rfl

end TreeWalk
