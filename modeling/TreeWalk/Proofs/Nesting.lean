import TreeWalk.Proofs.Hosting
import TreeWalk.Proofs.Refinement

/-!
# Nested blocks

A block has a scope of its own, which is made when the block begins and discarded when it
ends.  Between the two a host may do a good deal: bind in any scope that is there, evaluate
in any of them, and begin further blocks, on whatever scope it likes.  **As long as the blocks
end in the order in which they are nested, no rule of the arena is ever broken**, and a block
leaves behind nothing but what was done, on purpose, to the scopes that were there before.

## Main definitions

* `Operation.target?`: the scope that a call binds or evaluates in
* `Guard`: a block that has begun, with what is needed to judge its end
* `Nesting`: a machine with the blocks that have begun and not ended
* `Nesting.Step`: one step of a host that keeps to blocks
* `Nesting.IsBlock`: a block from its beginning to its end
* `Nesting.StepsTo`: steps that end every block that they begin

## Main statements

* `Operation.confined`: a call touches only the scope that it works in
* `Nesting.Step.sound`: every step keeps the blocks in order
* `Nesting.blocks_in_order`: nothing that a host can do next breaks a rule of the arena, and
  what the end of a block leaves behind
* `Nesting.withScope_isBlock`: a run in a scope of its own is a block around the steps of its
  body
* `Nesting.keeps_perform`: an evaluation is made of bindings and blocks

## Design notes

The blocks that have begun form a stack, and a host takes one step after another.  A tree of
blocks is such a sequence of steps, and what holds after each step holds everywhere in the
tree; a host that gives up in the middle is covered as well.

No step is left out because of how it ends: an evaluation may fail, and the relation would
even go on after a fault.  That there is none is the theorem.

An evaluation counts as one step, but it is also made of smaller ones: each call in it is a
block, in which names are bound and further calls are made.
-/

namespace TreeWalk

/-! ## Calls and the scopes that they work in -/

/-- The scope that a call binds or evaluates in, if that is what the call does. -/
def Operation.target? : Operation → Option ScopeId
  | .set scope _ _ => some scope
  | .eval _ scope => some scope
  | .block _ scope => some scope
  | .function _ scope => some scope
  | .run _ => some .root
  | .push _ | .pop _ | .openGuard _ _ | .closeGuard _ => none

/-- What evaluation inherits from its parts, a call inherits too, in the scope that it works
in.  Only a whole program is not among the parts, with the notes of its start, its failure and
its end. -/
theorem Operation.perform_of_compositional
    {P : (α : Type) → Set Name → ScopeId → Run α → Prop} (hP : Run.Compositional P)
    (program : ∀ {x : Run Value} (size : Nat), P Value Set.univ .root x →
      P Value Set.univ .root (do
        Run.record (.runStarted size)
        (x.noting .runAborted).ensuring (Run.record .runEnded)))
    {op : Operation} {s : ScopeId} (target : op.target? = some s) (depth : Nat) :
    P Unit Set.univ s (op.perform depth) := by
  have evaluator := hP.eval depth
  have discard {x : Run Value} (hx : P Value Set.univ s x) :
      P Unit Set.univ s (do let _ ← x) := hP.bind hx fun _ => hP.pure ()
  cases op with
  | set scope x v =>
    cases target
    exact hP.assign v (Set.mem_univ x)
  | eval n scope =>
    cases target
    exact discard (evaluator n s _ fun _ _ => Set.mem_univ _)
  | block body scope =>
    cases target
    exact discard (hP.evalBlock evaluator body s fun _ _ => Set.mem_univ _)
  | function f scope =>
    cases target
    exact discard (hP.evalBody evaluator f s fun _ _ => Set.mem_univ _)
  | run nodes =>
    cases target
    have block := hP.evalBlock evaluator nodes .root fun _ _ => Set.mem_univ _
    exact discard (program nodes.length block)
  | push | pop | openGuard | closeGuard => cases target

/-- A note about an error does not matter to confinement. -/
theorem Run.Confined.noting {α : Type} {T : Set Name} {s : ScopeId} {x : Run α}
    (hx : Confined T s x) (note : EvalError → Event) : Confined T s (x.noting note) := by
  intro m live r m' run
  simp only [Run.noting] at run
  split at run
  · next e m₁ inner =>
    cases run
    exact hx m live _ m₁ inner
  · exact hx m live r m' run

/-- **A call touches only the scope that it works in**, and causes no fault there. -/
theorem Operation.confined {op : Operation} {s : ScopeId} (target : op.target? = some s)
    (depth : Nat) : Run.Confined Set.univ s (op.perform depth) :=
  op.perform_of_compositional Run.confined_compositional
    (fun _ confined => (confined.noting _).noted _ _) target depth

/-! ## Bindings of a new scope -/

/-- Of the values that are given to one name the last counts. -/
theorem Bindings.find?_assignAll (bs : Bindings) (more : List (Name × Value)) (x : Name) :
    (bs.assignAll more).find? x = (more.reverse.lookup x).or (bs.find? x) := by
  induction more generalizing bs with
  | nil => rfl
  | cons b rest ih =>
    obtain ⟨y, v⟩ := b
    show ((bs.assign y v).assignAll rest).find? x = _
    rw [ih, find?_assign, List.reverse_cons, List.lookup_append, Option.or_assoc]
    congr 1
    by_cases same : x = y
    · simp [same]
    · have differ : (x == y) = false := beq_false_of_ne same
      simp [List.lookup_cons, same, differ]

/-! ## Blocks -/

/-- A block that has begun and not ended. -/
structure Guard where
  /-- The scope of the block. -/
  scope : ScopeId
  /-- The environment before the scope was made. -/
  before : Environment
  /-- The scopes that were bound or evaluated in since, also by the blocks inside. -/
  targets : List ScopeId

/-- Note a scope that is bound or evaluated in. -/
def Guard.note (g : Guard) (s : ScopeId) : Guard := { g with targets := s :: g.targets }

/-- Note several scopes, the last of them first. -/
def Guard.noteAll (g : Guard) (targets : List ScopeId) : Guard :=
  { g with targets := targets ++ g.targets }

theorem Guard.noteAll_nil (g : Guard) : g.noteAll [] = g := rfl

theorem Guard.noteAll_noteAll (g : Guard) (targets more : List ScopeId) :
    (g.noteAll targets).noteAll more = g.noteAll (more ++ targets) := by
  simp only [Guard.noteAll, List.append_assoc]

/-- A machine with the blocks that have begun and not ended, innermost first. -/
structure Nesting where
  machine : Machine
  guards : List Guard

namespace Nesting

/-- One step of a host that keeps to blocks.  Whatever it came to, the host goes on from the
machine that it left. -/
inductive Step : Nesting → Nesting → Prop where
  /-- Bind or evaluate in a scope that is there. -/
  | work {st : Nesting} (op : Operation) (depth : Nat) {s : ScopeId} {r : Except Stop Unit}
      {m : Machine} :
      op.target? = some s → st.machine.env.IsLive s →
        (op.perform depth).run st.machine = some (r, m) →
          Step st ⟨m, st.guards.map (·.note s)⟩
  /-- Begin a block on a scope that is there: make its scope and bind names in it. -/
  | opens {st : Nesting} (p : ScopeId) (bindings : Bindings) {s : ScopeId}
      {r : Except Stop Unit} {m₁ m₂ : Machine} :
      st.machine.env.IsLive p → (Run.pushScope p).run st.machine = some (.ok s, m₁) →
        (Run.assignAll s bindings).run m₁ = some (r, m₂) →
          Step st ⟨m₂, ⟨s, st.machine.env, []⟩ :: st.guards⟩
  /-- End the innermost block: discard its scope. -/
  | closes {st : Nesting} {g : Guard} {rest : List Guard} {r : Except Stop Unit} {m : Machine} :
      st.guards = g :: rest → (Run.popScope g.scope).run st.machine = some (r, m) →
        Step st ⟨m, rest⟩
  /-- Do something that does not concern the environment, such as to add lines to the input
  or to give numbers to names. -/
  | elsewhere {st : Nesting} {m : Machine} :
      m.env = st.machine.env → Step st ⟨m, st.guards⟩

end Nesting

/-- What is known of a block while it lasts, with `inner` blocks inside of it. -/
structure Guard.Holds (g : Guard) (inner : Nat) (env : Environment) : Prop where
  /-- Its scope came right after the scopes that were there. -/
  scope_eq : g.scope = ⟨g.before.depth⟩
  depth_pos : 0 < g.before.depth
  /-- Since then there is one scope for each block. -/
  depth_eq : env.depth = g.before.depth + 1 + inner
  /-- A scope from before is as it was unless it was bound or evaluated in. -/
  frame_eq : ∀ t, g.before.IsLive t → t ∉ g.targets →
    env.frames[t.index]? = g.before.frames[t.index]?

/-- The beginning of a block: the new scope stands at the end and has the given bindings. -/
theorem Run.run_open_of_isLive {m : Machine} {p : ScopeId} (live : m.env.IsLive p)
    (bindings : Bindings) :
    ∃ m₁, (pushScope p).run m = some (.ok ⟨m.env.depth⟩, m₁) ∧
      (assignAll ⟨m.env.depth⟩ bindings).run m₁ = some (.ok (), m.enter p bindings) := by
  refine ⟨_, run_pushScope_of_isLive live, ?_⟩
  exact run_assignAll_last m.env.frames (some p) bindings [] _ rfl

theorem Run.eq_enter_of_run_open {m m₁ m₂ : Machine} {p s : ScopeId} {bindings : Bindings}
    {r : Except Stop Unit} (live : m.env.IsLive p)
    (pushed : (pushScope p).run m = some (.ok s, m₁))
    (bound : (assignAll s bindings).run m₁ = some (r, m₂)) :
    s = ⟨m.env.depth⟩ ∧ m₂ = m.enter p bindings := by
  obtain ⟨m₁', pushed', bound'⟩ := run_open_of_isLive live bindings
  cases pushed.symm.trans pushed'
  cases bound.symm.trans bound'
  exact ⟨rfl, rfl⟩

namespace Guard.Holds

variable {g : Guard} {inner : Nat} {env env' : Environment} {m : Machine}

/-- A block that begins now. -/
theorem enter {p : ScopeId} (live : env.IsLive p) (bindings : Bindings) :
    Holds ⟨⟨env.depth⟩, env, []⟩ 0 (env.enter p bindings) where
  scope_eq := rfl
  depth_pos := Nat.lt_of_le_of_lt (Nat.zero_le _) live
  depth_eq := env.depth_enter p bindings
  frame_eq _ older _ := env.getElem?_frames_enter p bindings older

/-- A block goes on while another begins inside of it. -/
theorem enter_inside (h : g.Holds inner env) (p : ScopeId) (bindings : Bindings) :
    g.Holds (inner + 1) (env.enter p bindings) where
  scope_eq := h.scope_eq
  depth_pos := h.depth_pos
  depth_eq := by
    rw [env.depth_enter, h.depth_eq]
    omega
  frame_eq t older untouched := by
    have bound : t.index < g.before.depth := older
    have there : t.index < env.depth := by
      rw [h.depth_eq]
      omega
    rw [env.getElem?_frames_enter p bindings there, h.frame_eq t older untouched]

/-- A block goes on while something is done in a scope, which is noted. -/
theorem note (h : g.Holds inner env) {T : Set Name} {s : ScopeId}
    (changes : env.ChangesOnly T s env') : (g.note s).Holds inner env' where
  scope_eq := h.scope_eq
  depth_pos := h.depth_pos
  depth_eq := changes.depth_eq.trans h.depth_eq
  frame_eq t older untouched := by
    have other : t ≠ s := fun same => untouched (same ▸ List.mem_cons_self)
    have before : t ∉ g.targets := fun mem => untouched (List.mem_cons_of_mem s mem)
    exact (changes.frame_eq t other).trans (h.frame_eq t older before)

/-- Without the last scope, the scopes from before are still there, and as they were. -/
theorem getElem?_pop (h : g.Holds inner env) {t : ScopeId} (older : g.before.IsLive t)
    (untouched : t ∉ g.targets) : env.frames.pop[t.index]? = g.before.frames[t.index]? := by
  have bound : t.index < g.before.depth := older
  have stays : t.index < env.frames.size - 1 := by
    rw [← Environment.depth, h.depth_eq]
    omega
  rw [Array.getElem?_pop, if_pos stays, h.frame_eq t older untouched]

/-- A block goes on after one inside of it has ended. -/
theorem leave_inside (h : g.Holds (inner + 1) env) : g.Holds inner ⟨env.frames.pop⟩ where
  scope_eq := h.scope_eq
  depth_pos := h.depth_pos
  depth_eq := by
    show env.frames.pop.size = _
    rw [Array.size_pop, ← Environment.depth, h.depth_eq]
    omega
  frame_eq _ older untouched := h.getElem?_pop older untouched

/-- **The end of the innermost block.**  Its scope is the last one, so it can be discarded, and
then there are as many scopes as before.  Those that nothing was done to are as they were. -/
theorem run_popScope (h : g.Holds 0 m.env) :
    ∃ m', (Run.popScope g.scope).run m = some (.ok (), m') ∧ m'.env = ⟨m.env.frames.pop⟩ ∧
      m'.env.depth = g.before.depth ∧ ∀ t, g.before.IsLive t → t ∉ g.targets →
        m'.env.frames[t.index]? = g.before.frames[t.index]? := by
  have last : g.scope.index + 1 = m.env.depth := by rw [h.scope_eq, h.depth_eq]
  have isInner : m.env.IsInner g.scope := by
    refine ⟨fun isRoot => ?_, ?_⟩
    · have zero : g.before.depth = 0 := congrArg ScopeId.index (h.scope_eq.symm.trans isRoot)
      exact Nat.ne_of_gt h.depth_pos zero
    · rw [Environment.IsLive, ← Environment.depth, ← last]
      exact Nat.lt_succ_self _
  have popped : m.env.pop g.scope = .ok ⟨m.env.frames.pop⟩ :=
    Environment.pop_eq_ok_iff.mpr (.inl ⟨isInner, last, rfl⟩)
  have run : (Run.popScope g.scope).run m =
      some (.ok (), { m with env := ⟨m.env.frames.pop⟩ }.log (.scopePopped g.scope)) := by
    simp only [Run.popScope, if_pos isInner, popped]
  refine ⟨_, run, rfl, ?_, fun t => h.getElem?_pop⟩
  show m.env.frames.pop.size = _
  rw [Array.size_pop, ← Environment.depth, h.depth_eq]
  omega

end Guard.Holds

/-! ## Blocks stay in order -/

namespace Nesting

/-- Every block is as far in as the number of blocks that began after it. -/
def Sound (st : Nesting) : Prop :=
  ∀ (i : Nat) (g : Guard), st.guards[i]? = some g → g.Holds i st.machine.env

/-- Every step keeps the blocks in order. -/
theorem Step.sound {st st' : Nesting} (step : Step st st') (sound : st.Sound) : st'.Sound := by
  intro i g there
  cases step with
  | work op depth target live run =>
    obtain ⟨-, changes⟩ := Operation.confined target depth _ live _ _ run
    rw [List.getElem?_map, Option.map_eq_some_iff] at there
    obtain ⟨g₀, there₀, rfl⟩ := there
    exact (sound i g₀ there₀).note changes
  | opens p bindings live pushed bound =>
    obtain ⟨rfl, rfl⟩ := Run.eq_enter_of_run_open live pushed bound
    cases i with
    | zero =>
      cases there
      exact .enter live bindings
    | succ i => exact (sound i g there).enter_inside p bindings
  | @closes g₀ rest r m guards run =>
    rw [Sound, guards] at sound
    obtain ⟨m', run', env, -⟩ := (sound 0 g₀ rfl).run_popScope
    cases run.symm.trans run'
    show g.Holds i m.env
    rw [env]
    exact (sound (i + 1) g there).leave_inside
  | @elsewhere m same =>
    show g.Holds i m.env
    rw [same]
    exact sound i g there

/-- The beginning of a block, with the machine that it comes to. -/
theorem Step.enter {m : Machine} {p : ScopeId} (live : m.env.IsLive p) (bindings : Bindings)
    (guards : List Guard) :
    Step ⟨m, guards⟩ ⟨m.enter p bindings, ⟨⟨m.env.depth⟩, m.env, []⟩ :: guards⟩ := by
  obtain ⟨m₁, pushed, bound⟩ := Run.run_open_of_isLive live bindings
  exact .opens p bindings live pushed bound

/-- Every step keeps the environment reachable. -/
theorem Step.reachable {st st' : Nesting} (step : Step st st')
    (reachable : st.machine.env.Reachable) : st'.machine.env.Reachable := by
  have stable := Machine.stable_reachable
  cases step with
  | work op depth _ _ run => exact Host.keeps_reachable_perform depth op _ _ _ run reachable
  | opens p bindings _ pushed bound =>
    have opened := stable.keeps_pushScope _ _ _ _ pushed reachable
    exact stable.keeps_assignAll _ _ _ _ _ bound opened
  | closes _ run => exact stable.keeps_popScope _ _ _ _ run reachable
  | @elsewhere m same =>
    show m.env.Reachable
    rw [same]
    exact reachable

/-- Before the first block there is nothing to keep in order. -/
theorem sound_of_steps {m : Machine} {st : Nesting}
    (steps : Relation.ReflTransGen Step ⟨m, []⟩ st) : st.Sound := by
  induction steps with
  | refl => exact fun i g there => nomatch there
  | tail _ step sound => exact step.sound sound

/-- There is one scope more for each block that has begun since. -/
theorem depth_of_steps {m : Machine} {st : Nesting}
    (steps : Relation.ReflTransGen Step ⟨m, []⟩ st) :
    st.machine.env.depth = m.env.depth + st.guards.length := by
  induction steps with
  | refl => rfl
  | @tail st st' before step ih =>
    cases step with
    | work op depth target live run =>
      obtain ⟨-, changes⟩ := Operation.confined target depth _ live _ _ run
      rw [List.length_map]
      exact changes.depth_eq.trans ih
    | opens p bindings live pushed bound =>
      obtain ⟨rfl, rfl⟩ := Run.eq_enter_of_run_open live pushed bound
      exact (st.machine.env.depth_enter p bindings).trans (congrArg Nat.succ ih)
    | @closes g rest r m' guards run =>
      have sound := sound_of_steps before
      rw [Sound, guards] at sound
      have holds := sound 0 g rfl
      obtain ⟨m'', run', -, depth, -⟩ := holds.run_popScope
      cases run.symm.trans run'
      rw [guards, List.length_cons, holds.depth_eq] at ih
      rw [depth]
      exact Nat.succ.inj ih
    | elsewhere same => exact (congrArg Environment.depth same).trans ih

theorem reachable_of_steps {m : Machine} {st : Nesting} (reachable : m.env.Reachable)
    (steps : Relation.ReflTransGen Step ⟨m, []⟩ st) : st.machine.env.Reachable := by
  induction steps with
  | refl => exact reachable
  | tail _ step before => exact step.reachable before

/-- **Nested blocks keep the rules of the arena.**  A host starts from a reachable environment
and keeps to blocks.  Then, wherever it has come to: the outermost scope is there.  To bind or
to evaluate in a scope that is there causes no fault.  A block can begin on every scope that is
there; its scope gets the number of scopes before it as its position, and binds exactly the
names that are listed, each to the last value that is given for it.  And the innermost block
can end; then there are as many scopes as before it, and every scope from before it that
nothing inside of it was bound or evaluated in is as it was. -/
theorem blocks_in_order {m : Machine} {st : Nesting} (reachable : m.env.Reachable)
    (steps : Relation.ReflTransGen Step ⟨m, []⟩ st) :
    st.machine.env.IsLive .root ∧
    (∀ op s depth r m', Operation.target? op = some s → st.machine.env.IsLive s →
      (op.perform depth).run st.machine = some (r, m') →
        r = .ok () ∨ ∃ e, r = .error (.error e)) ∧
    (∀ p bindings, st.machine.env.IsLive p → ∃ s m₁ m₂,
      (Run.pushScope p).run st.machine = some (.ok s, m₁) ∧ s.index = st.machine.env.depth ∧
      (Run.assignAll s bindings).run m₁ = some (.ok (), m₂) ∧
      m₂.env.parent? s = some p ∧ ∀ x, m₂.env.own? s x = bindings.reverse.lookup x) ∧
    ∀ g rest, st.guards = g :: rest → ∃ m',
      (Run.popScope g.scope).run st.machine = some (.ok (), m') ∧
      m'.env.depth = g.before.depth ∧ ∀ t, g.before.IsLive t → t ∉ g.targets →
        m'.env.frames[t.index]? = g.before.frames[t.index]? := by
  refine ⟨(reachable_of_steps reachable steps).wellFormed.depth_pos,
    fun op s depth r m' target live run => ?_, fun p bindings live => ?_, fun g rest guards => ?_⟩
  · rcases (Operation.confined target depth).ok_or_error live run with ⟨_, rfl⟩ | failed
    · exact .inl rfl
    · exact .inr failed
  · obtain ⟨m₁, pushed, bound⟩ := Run.run_open_of_isLive live bindings
    refine ⟨_, m₁, _, pushed, rfl, bound, st.machine.env.parent?_enter_self p bindings, fun x => ?_⟩
    have new := st.machine.env.own?_enter_self p bindings x
    rw [Bindings.find?_assignAll, Bindings.find?_nil, Option.or_none] at new
    exact new
  · have sound := sound_of_steps steps
    rw [Sound, guards] at sound
    obtain ⟨m', run, -, depth, frames⟩ := (sound 0 g rfl).run_popScope
    exact ⟨m', run, depth, frames⟩

/-- There are two scopes, and a block begins on the second, with two values for one name.
Inside, the outermost scope gets a binding, a second block begins there, and in its scope a
function is called whose body fails; then the second block ends.  Now the first block can end
too: two scopes are left, and the second, which nothing was done to, is as it was. -/
theorem blocks_in_order_failing_call :
    let env : Environment := ⟨#[⟨[], none⟩, ⟨[(⟨1⟩, .number 1)], some .root⟩]⟩
    let m : Machine := ⟨.initial, env, .queue [], .captured "", #[]⟩
    let g : Guard := ⟨⟨2⟩, env, [⟨3⟩, .root]⟩
    m.env.Reachable ∧ ∃ st : Nesting, Relation.ReflTransGen Step ⟨m, []⟩ st ∧ st.guards = [g] ∧
      st.machine.env.get? ⟨2⟩ ⟨2⟩ = some (.number 3) ∧
      ∃ m', (Run.popScope ⟨2⟩).run st.machine = some (.ok (), m') ∧ m'.env.depth = 2 ∧
        m'.env.frames[1]? = env.frames[1]? := by
  intro env m g
  have reachable : m.env.Reachable := by
    have opened : Environment.Reachable ⟨#[⟨[], none⟩, ⟨[], some .root⟩]⟩ :=
      .push .initial (p := .root) rfl
    exact opened.set (s := ⟨1⟩) (x := ⟨1⟩) (v := .number 1) rfl
  -- The environment inside of both blocks, with what the innermost scope binds.
  let inside (bs : Bindings) : Environment :=
    ⟨#[⟨[(⟨4⟩, .void)], none⟩, ⟨[(⟨1⟩, .number 1)], some .root⟩,
      ⟨[(⟨2⟩, .number 3)], some ⟨1⟩⟩, ⟨bs, some .root⟩]⟩
  let call : Operation := .eval (.call (.define ⟨5⟩ [] [.reference ⟨6⟩]) []) ⟨3⟩
  let defined : Bindings := [(⟨5⟩, .function ⟨[], [.reference ⟨6⟩]⟩)]
  obtain ⟨m₁, failed, env₁⟩ : ∃ m₁ : Machine, (call.perform 3).run { m with env := inside [] } =
      some (.error (.error (.undefinedVariable "<unknown>")), m₁) ∧ m₁.env = inside defined := by
    have run : ((call.perform 3).run { m with env := inside [] }).map (fun o => (o.1, o.2.env)) =
        some (.error (.error (.undefinedVariable "<unknown>")), inside defined) := by
      decide +kernel
    obtain ⟨⟨_, m₁⟩, run, told⟩ := Option.map_eq_some_iff.mp run
    rw [Prod.mk.injEq] at told
    obtain ⟨rfl, env₁⟩ := told
    exact ⟨m₁, run, env₁⟩
  obtain ⟨st, steps, guards, last⟩ : ∃ st : Nesting, Relation.ReflTransGen Step ⟨m, []⟩ st ∧
      st.guards = [g] ∧ st.machine.env.get? ⟨2⟩ ⟨2⟩ = some (.number 3) :=
    ⟨_, .head (.opens ⟨1⟩ [(⟨2⟩, .number 2), (⟨2⟩, .number 3)] (by decide) rfl rfl) <|
      .head (.work (.set .root ⟨4⟩ .void) 0 rfl (by decide) rfl) <|
      .head (.opens .root [] (by decide) rfl rfl) <|
      .head (.elsewhere (m := { m with env := inside [] }) rfl) <|
      .head (.work call 3 rfl (by decide) failed) <|
      .head (.elsewhere (m := { m with env := inside defined }) env₁.symm) <|
      .single (.closes rfl rfl), rfl, rfl⟩
  obtain ⟨-, -, -, ending⟩ := blocks_in_order reachable steps
  obtain ⟨m', run, depth, frames⟩ := ending g [] guards
  exact ⟨reachable, st, steps, guards, last, m', run, depth, frames ⟨1⟩ (by decide) (by decide)⟩

/-! ## Runs that are made of blocks -/

/-- A block from its beginning to its end, with `guards` around it: its scope is made on `p` with
its bindings, which gives the machine inside of it; steps are taken there, which are noted; and
its scope is discarded. -/
structure IsBlock (p : ScopeId) (bindings : Bindings) (targets : List ScopeId)
    (guards : List Guard) (m m₁ m' : Machine) : Prop where
  begins : Step ⟨m, guards⟩ ⟨m.enter p bindings, ⟨⟨m.env.depth⟩, m.env, []⟩ :: guards⟩
  inside : Relation.ReflTransGen Step
    ⟨m.enter p bindings, ⟨⟨m.env.depth⟩, m.env, []⟩ :: guards⟩
    ⟨m₁, (⟨⟨m.env.depth⟩, m.env, []⟩ :: guards).map (·.noteAll targets)⟩
  ends : Step ⟨m₁, (⟨⟨m.env.depth⟩, m.env, []⟩ :: guards).map (·.noteAll targets)⟩
    ⟨m', guards.map (·.noteAll targets)⟩

/-- A host can get from the one machine to the other by steps that end every block that they
begin, whatever blocks are around. -/
def StepsTo (m m' : Machine) : Prop :=
  ∃ targets, ∀ guards,
    Relation.ReflTransGen Step ⟨m, guards⟩ ⟨m', guards.map (·.noteAll targets)⟩

namespace StepsTo

variable {m m₁ m' : Machine}

theorem of_env_eq (same : m'.env = m.env) : StepsTo m m' := by
  refine ⟨[], fun guards => ?_⟩
  simp only [Guard.noteAll_nil, List.map_id']
  exact .single (.elsewhere same)

theorem trans (first : StepsTo m m₁) (second : StepsTo m₁ m') : StepsTo m m' := by
  obtain ⟨targets, first⟩ := first
  obtain ⟨more, second⟩ := second
  refine ⟨more ++ targets, fun guards => (first guards).trans ?_⟩
  have rest := second (guards.map (·.noteAll targets))
  simp only [List.map_map, Function.comp_def, Guard.noteAll_noteAll] at rest
  exact rest

theorem work {op : Operation} {depth : Nat} {s : ScopeId} {r : Except Stop Unit}
    (target : op.target? = some s) (live : m.env.IsLive s)
    (run : (op.perform depth).run m = some (r, m')) : StepsTo m m' :=
  ⟨[s], fun _ => .single (.work op depth target live run)⟩

/-- A scope that is made, steps in the machine inside, and the scope discarded are a block. -/
theorem isBlock {p : ScopeId} {bindings : Bindings} {r : Except Stop Unit}
    (live : m.env.IsLive p) (inside : StepsTo (m.enter p bindings) m₁)
    (ends : (Run.popScope ⟨m.env.depth⟩).run m₁ = some (r, m')) :
    ∃ targets, ∀ guards, IsBlock p bindings targets guards m m₁ m' := by
  obtain ⟨targets, inside⟩ := inside
  exact ⟨targets, fun guards => ⟨.enter live bindings guards, inside _, .closes rfl ends⟩⟩

/-- A block is made of steps, those at its beginning and at its end included. -/
theorem of_isBlock {p : ScopeId} {bindings : Bindings}
    (block : ∃ targets, ∀ guards, IsBlock p bindings targets guards m m₁ m') : StepsTo m m' := by
  obtain ⟨targets, block⟩ := block
  exact ⟨targets, fun guards => .head (block guards).begins
    ((block guards).inside.tail (block guards).ends)⟩

/-- The end of a block that is made of steps causes no fault. -/
theorem run_popScope {p : ScopeId} {bindings : Bindings} (live : m.env.IsLive p)
    (inside : StepsTo (m.enter p bindings) m₁) :
    ∃ m', (Run.popScope ⟨m.env.depth⟩).run m₁ = some (.ok (), m') := by
  obtain ⟨targets, inside⟩ := inside
  have steps := (Relation.ReflTransGen.single (.enter live bindings [])).trans (inside _)
  obtain ⟨m', run, -⟩ := (sound_of_steps steps 0 _ rfl).run_popScope
  exact ⟨m', run⟩

/-- Where every block has ended there are as many scopes as before. -/
theorem depth_eq (steps : StepsTo m m') : m'.env.depth = m.env.depth := by
  obtain ⟨targets, steps⟩ := steps
  exact depth_of_steps (steps [])

end StepsTo

/-- A binding is a step, and what does not concern the environment is one too. -/
theorem steady_stepsTo : Machine.Steady StepsTo where
  refl _ := .of_env_eq rfl
  trans _ _ _ := .trans
  log _ _ _ := .of_env_eq rfl
  set {m s x v env} bound := by
    have live := (Environment.set_eq_ok_iff.mp bound).1
    have run : ((Operation.set s x v).perform 0).run m =
        some (.ok (), { m with env := env }) := by
      simp only [Operation.perform, Run.assign, bound]
    exact .work rfl live run
  emit _ _ := .of_env_eq rfl
  read _ := .of_env_eq rfl

/-- **A run in a scope of its own is a block**, if its body is made of steps: the block begins
with the bindings, the body takes its steps, and the block ends however they came out. -/
theorem withScope_isBlock {α : Type} {parent : ScopeId} {bindings : Bindings}
    {body : ScopeId → Run α} {m m' : Machine} {r : Except Stop α} (live : m.env.IsLive parent)
    (steps : Proc.Keeps StepsTo (body ⟨m.env.depth⟩))
    (run : (Run.withScope parent bindings body).run m = some (r, m')) :
    ∃ r₁ m₁ targets, (body ⟨m.env.depth⟩).run (m.enter parent bindings) = some (r₁, m₁) ∧
      ∀ guards, IsBlock parent bindings targets guards m m₁ m' := by
  rw [Run.run_withScope_of_isLive live] at run
  obtain ⟨r₁, m₁, r₂, inner, ends⟩ := Proc.exists_run_of_run_ensuring run
  obtain ⟨targets, block⟩ := (steps _ _ _ inner).isBlock live ends
  exact ⟨r₁, m₁, targets, inner, block⟩

/-- Hence it is made of steps.  Nothing happens if there is no scope to begin the block on. -/
theorem keeps_withScope {α : Type} {parent : ScopeId} {bindings : Bindings}
    {body : ScopeId → Run α} (steps : ∀ s, Proc.Keeps StepsTo (body s)) :
    Proc.Keeps StepsTo (Run.withScope parent bindings body) := by
  intro m r m' run
  by_cases live : m.env.IsLive parent
  · obtain ⟨_, _, targets, -, block⟩ := withScope_isBlock live (steps _) run
    exact .of_isBlock ⟨targets, block⟩
  · rw [Run.run_withScope_of_not_isLive live] at run
    cases run
    exact .of_env_eq rfl

/-- **A call that binds or evaluates is made of steps**, the blocks of the calls inside of it
included, whether or not its scope is there. -/
theorem keeps_perform {op : Operation} {s : ScopeId} (target : op.target? = some s)
    (depth : Nat) : Proc.Keeps StepsTo (op.perform depth) := by
  have steady := steady_stepsTo
  exact op.perform_of_compositional (steady.compositional keeps_withScope)
    (fun _ steps => steady.keeps_noted (steady.keeps_noting steps fun _ => rfl) rfl rfl)
    target depth

end Nesting

end TreeWalk
