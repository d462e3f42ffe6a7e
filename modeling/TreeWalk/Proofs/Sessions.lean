import TreeWalk.Proofs.Nesting
import TreeWalk.Session

/-!
# Sessions in blocks

A session is a host that is driven by commands.  A command is a request, which is carried out
in parts, or a block, which has further commands inside.  **Whatever requests keep, and blocks
keep if the commands inside of them do, every list of commands keeps.**  The induction over
commands is done here once, for two relations: the environments of a session stay reachable;
and commands that leave scopes to blocks are steps of nested blocks.

## Main definitions

* `Request.KeepsToBlocks`: a request that neither makes nor discards a scope
* `Command.requests`: the requests in a command, those inside of its blocks included
* `Session.Stable`: a preorder on sessions that contains such requests and every block

## Main statements

* `Session.Stable.performAll`: such a relation is kept by every list of commands
* `Session.conduct_reachable`: every environment of a session is reachable
* `Session.stepsTo_of_performAll`: commands that keep to blocks are steps of nested blocks
* `Session.perform_within_isBlock`: a block of such commands is a block of steps, and its end is
  never refused

## Design notes

To go back to a copy of the environment discards scopes and brings others back, so a request
that does so does not keep to blocks.  To keep a copy does no harm.
-/

namespace TreeWalk

/-! ## Requests that keep to blocks -/

/-- A request that leaves it to blocks to make scopes and to discard them. -/
def Request.KeepsToBlocks : Request → Prop
  | .push _ | .pop _ | .load => False
  | _ => True

namespace Command

mutual

/-- The requests in a command, those inside of its blocks included. -/
def requests : Command → List Request
  | .request r => [r]
  | .within _ _ inner => requestsAll inner

/-- The requests in several commands. -/
def requestsAll : List Command → List Request
  | [] => []
  | c :: rest => c.requests ++ requestsAll rest

end

end Command

namespace Session

variable {α β : Type}

/-! ## Parts of commands -/

theorem run_run_of_ok {x : Run α} {session : Session} {a : α} {m : Machine}
    (h : x.run session.machine = some (.ok a, m)) :
    (run x).run session = some (.ok a, { session with machine := m }) := by
  simp only [run, h]
  rfl

theorem run_run_of_error {x : Run α} {session : Session} {stop : Stop} {m : Machine}
    (h : x.run session.machine = some (.error stop, m)) :
    (run x).run session = some (.error (.ofStop stop), { session with machine := m }) := by
  simp only [run, h]
  rfl

theorem eq_of_run_scopeOf {h : Handle} {session session' : Session} {r : Except Reply ScopeId}
    (run : (scopeOf h).run session = some (r, session')) : session' = session := by
  rw [scopeOf, Proc.run_bind_of_ok (Proc.run_get session)] at run
  split at run <;> cases run <;> rfl

theorem eq_of_run_build {b : Builder α} {session session' : Session} {r : Except Reply α}
    (run : (build b).run session = some (r, session')) :
    ∃ names, session' = { session with machine := { session.machine with names := names } } := by
  cases run
  exact ⟨_, rfl⟩

/-- The session inside of a block that begins on a scope that is there. -/
def inside (session : Session) (p : ScopeId) (names : NameTable) (bindings : Bindings) :
    Session where
  machine := { session.machine with names := names }.enter p bindings
  saved := session.saved
  handles := session.handles.push ⟨session.machine.env.depth⟩

/-- The beginning of a block is refused, and no scope is made, or the new scope stands at the
end and is known by a new handle. -/
theorem run_enter_cases {parent : Handle} {bindings : List (Identifier × ValueDraft)}
    {session session' : Session} {r : Except Reply (Handle × ScopeId)}
    (entered : (enter parent bindings).run session = some (r, session')) :
    (∃ reply, r = .error reply ∧ session'.machine.env = session.machine.env ∧
      session'.saved = session.saved) ∨
    ∃ p names bs, session.machine.env.IsLive p ∧
      r = .ok (session.handles.size, ⟨session.machine.env.depth⟩) ∧
      session' = session.inside p names bs := by
  rcases Proc.run_bind_eq_some_iff.mp entered with
    ⟨p, session₁, known, rest⟩ | ⟨reply, session₁, unknown, outcome⟩
  · obtain rfl := eq_of_run_scopeOf known
    rcases Proc.run_bind_eq_some_iff.mp rest with
      ⟨bs, session₂, built, rest⟩ | ⟨reply, session₂, failed, outcome⟩
    · obtain ⟨names, rfl⟩ := eq_of_run_build built
      by_cases live : session₁.machine.env.IsLive p
      · obtain ⟨m₁, pushed, bound⟩ :=
          Run.run_open_of_isLive (m := { session₁.machine with names := names }) live bs
        rw [Proc.run_bind_of_ok (run_run_of_ok pushed),
          Proc.run_bind_of_ok (run_run_of_ok bound)] at rest
        cases rest
        exact .inr ⟨p, names, bs, live, rfl, rfl⟩
      · have refused : session₁.machine.env.push p = .error (.deadParent p) := if_neg live
        have stopped : (Run.pushScope p).run { session₁.machine with names := names } =
            some (.error (.fault (.deadParent p)), { session₁.machine with names := names }) := by
          simp only [Run.pushScope, refused]
        rw [Proc.run_bind_of_error (run_run_of_error stopped)] at rest
        cases rest
        exact .inl ⟨_, rfl, rfl, rfl⟩
    · cases outcome
      obtain ⟨names, rfl⟩ := eq_of_run_build failed
      exact .inl ⟨reply, rfl, rfl, rfl⟩
  · cases outcome
    obtain rfl := eq_of_run_scopeOf unknown
    exact .inl ⟨reply, rfl, rfl, rfl⟩

/-- The end of a block discards its scope. -/
theorem settle_leave (h : Handle) (s : ScopeId) (session : Session) :
    ∃ r m, (Run.popScope s).run session.machine = some (r, m) ∧
      settle (leave h s) session =
        some (match r with | .ok () => .opened h s | .error stop => .ofStop stop,
          { session with machine := m }) := by
  obtain ⟨r, m, popped⟩ : ∃ r m, (Run.popScope s).run session.machine = some (r, m) := by
    simp only [Run.popScope]
    split
    · split <;> exact ⟨_, _, rfl⟩
    · exact ⟨_, _, rfl⟩
  refine ⟨r, m, popped, ?_⟩
  cases r with
  | ok =>
    rw [settle, leave, Proc.run_bind_of_ok (run_run_of_ok popped)]
    rfl
  | error stop => rw [settle, leave, Proc.run_bind_of_error (run_run_of_error popped)]

/-- **What a block can come to.**  It does not begin, and nothing has happened to either
environment; or it begins on a scope that is there, its commands are carried out inside, and
its scope is discarded or that is refused. -/
theorem perform_within_cases {depth : Nat} {parent : Handle}
    {bindings : List (Identifier × ValueDraft)} {inner : List Command}
    {session session' : Session} {a : Answer}
    (h : perform depth (.within parent bindings inner) session = some (a, session')) :
    (a.inner = some [] ∧ session'.machine.env = session.machine.env ∧
      session'.saved = session.saved) ∨
    ∃ p names bs answers session₁ r m, session.machine.env.IsLive p ∧
      performAll depth inner (session.inside p names bs) = some (answers, session₁) ∧
      (Run.popScope ⟨session.machine.env.depth⟩).run session₁.machine = some (r, m) ∧
      (a, session') = answer
        (match r with
          | .ok () => .opened session.handles.size ⟨session.machine.env.depth⟩
          | .error stop => .ofStop stop)
        (some answers) { session₁ with machine := m } := by
  rw [perform] at h
  rcases entered : (enter parent bindings).run session with _ | ⟨reply | ⟨h', s⟩, session₁⟩
  · rw [entered] at h
    cases h
  · rw [entered] at h
    cases h
    obtain ⟨_, -, env, saved⟩ | ⟨_, _, _, -, ⟨⟩, -⟩ := run_enter_cases entered
    exact .inl ⟨rfl, env, saved⟩
  · rw [entered] at h
    simp only [Option.bind_eq_bind, Option.bind_eq_some_iff] at h
    obtain ⟨⟨answers, session₂⟩, ran, ⟨reply, session₃⟩, settled, h⟩ := h
    obtain ⟨_, ⟨⟩, -⟩ | ⟨p, names, bs, live, same, rfl⟩ := run_enter_cases entered
    cases same
    obtain ⟨r, m, popped, settled'⟩ := settle_leave session.handles.size _ session₂
    cases settled.symm.trans settled'
    exact .inr ⟨p, names, bs, answers, session₂, r, m, live, ran, popped, (Option.some.inj h).symm⟩

/-! ## Relations that commands keep -/

/-- Related as the machines of two sessions that are otherwise the same. -/
def OnMachines (K : Session → Session → Prop) (m m' : Machine) : Prop :=
  ∀ saved handles, K ⟨m, saved, handles⟩ ⟨m', saved, handles⟩

/-- A preorder on sessions that contains whatever does not concern the environment, every call
that binds or evaluates, and every block around what it contains. -/
structure Stable (K : Session → Session → Prop) : Prop where
  trans : ∀ session₁ session₂ session₃, K session₁ session₂ → K session₂ session₃ →
    K session₁ session₃
  /-- The copy that is kept may be replaced by a new one. -/
  elsewhere : ∀ {session session' : Session}, session'.machine.env = session.machine.env →
    (session'.saved = session.saved ∨ session'.saved = session.machine.env) → K session session'
  work : ∀ (op : Operation) (depth : Nat) {s : ScopeId}, op.target? = some s →
    Proc.Keeps (OnMachines K) (op.perform depth)
  /-- Entering a block may give numbers to new names. -/
  block : ∀ {session session₁ : Session} {p : ScopeId} {names : NameTable} {bindings : Bindings}
    {r : Except Stop Unit} {m : Machine}, session.machine.env.IsLive p →
      K (session.inside p names bindings) session₁ →
        (Run.popScope ⟨session.machine.env.depth⟩).run session₁.machine = some (r, m) →
          K session { session₁ with machine := m }

namespace Stable

variable {K : Session → Session → Prop}

section

variable (hK : Stable K)

include hK

theorem refl (session : Session) : K session session := hK.elsewhere rfl (.inl rfl)

theorem keeps_bind {x : Step α} {f : α → Step β} (hx : Proc.Keeps K x)
    (hf : ∀ a, Proc.Keeps K (f a)) : Proc.Keeps K (x >>= f) := .bind hK.trans hx hf

theorem keeps_pure (a : α) : Proc.Keeps K (pure a : Step α) := .pure hK.refl a

/-- A part that touches neither environment. -/
theorem keeps_of_env_eq {x : Step α}
    (same : ∀ session r session', x.run session = some (r, session') →
      session'.machine.env = session.machine.env ∧ session'.saved = session.saved) :
    Proc.Keeps K x := by
  intro session r session' run
  obtain ⟨env, saved⟩ := same session r session' run
  exact hK.elsewhere env (.inl saved)

theorem keeps_scopeOf (h : Handle) : Proc.Keeps K (scopeOf h) :=
  .of_state_eq hK.refl fun _ _ _ => eq_of_run_scopeOf

theorem keeps_addHandle (s : ScopeId) : Proc.Keeps K (addHandle s) :=
  hK.keeps_of_env_eq (by rintro session r session' ⟨⟩; exact ⟨rfl, rfl⟩)

theorem keeps_build (b : Builder α) : Proc.Keeps K (build b) :=
  hK.keeps_of_env_eq (by rintro session r session' ⟨⟩; exact ⟨rfl, rfl⟩)

theorem keeps_machineNow : Proc.Keeps K machineNow :=
  .of_state_eq hK.refl (by rintro session r session' ⟨⟩; rfl)

theorem keeps_describe (v : Value) : Proc.Keeps K (describe v) :=
  hK.keeps_bind hK.keeps_machineNow fun _ => hK.keeps_pure _

/-- A change of the machine that leaves its environment alone. -/
theorem keeps_change (f : Machine → Machine) (same : ∀ m, (f m).env = m.env) :
    Proc.Keeps K (change f) :=
  hK.keeps_of_env_eq (by rintro session r session' ⟨⟩; exact ⟨same _, rfl⟩)

omit hK in
/-- To run something on the machine keeps what the run keeps. -/
theorem keeps_run {x : Run α} (hx : Proc.Keeps (OnMachines K) x) : Proc.Keeps K (run x) := by
  intro session r session' ran
  rcases hxm : x.run session.machine with _ | ⟨outcome, m⟩
  · simp only [Session.run, hxm] at ran
    cases ran
  · simp only [Session.run, hxm] at ran
    cases ran
    exact hx _ _ _ hxm session.saved session.handles

theorem keeps_run_of_env_eq {x : Run α}
    (same : Proc.Keeps (fun m m' => m'.env = m.env) x) : Proc.Keeps K (run x) :=
  keeps_run fun m r m' run _ _ => hK.elsewhere (same m r m' run) (.inl rfl)

/-- An evaluation that a call consists of, with its value reported. -/
theorem keeps_evaluate {x : Run Value} (op : Operation) (depth : Nat) {s : ScopeId}
    (target : op.target? = some s) (same : op.perform depth = do let _ ← x) :
    Proc.Keeps K (evaluate x) := by
  have run := hK.work op depth target
  rw [same] at run
  exact hK.keeps_bind (keeps_run run.of_discard) fun v =>
    hK.keeps_bind (hK.keeps_describe v) fun _ => hK.keeps_pure _

/-- **Every request that keeps to blocks keeps the relation**, whatever its reply is. -/
theorem keeps_respond (depth : Nat) {r : Request} (within : r.KeepsToBlocks) :
    Proc.Keeps K (respond depth r) := by
  cases r with
  | push | pop | load => cases within
  | run program =>
    exact hK.keeps_bind (hK.keeps_build _) fun program =>
      hK.keeps_evaluate (.run program) depth rfl rfl
  | eval node scope times =>
    exact hK.keeps_bind (hK.keeps_scopeOf scope) fun s => hK.keeps_bind (hK.keeps_build _) fun n =>
      hK.keeps_evaluate (.block (List.replicate times n) s) depth rfl rfl
  | block body scope =>
    exact hK.keeps_bind (hK.keeps_scopeOf scope) fun s =>
      hK.keeps_bind (hK.keeps_build _) fun body =>
        hK.keeps_evaluate (.block body s) depth rfl rfl
  | function params body scope =>
    exact hK.keeps_bind (hK.keeps_scopeOf scope) fun s =>
      hK.keeps_bind (hK.keeps_build _) fun params => hK.keeps_bind (hK.keeps_build _) fun body =>
        hK.keeps_evaluate (.function ⟨params, body⟩ s) depth rfl rfl
  | set scope name value =>
    exact hK.keeps_bind (hK.keeps_scopeOf scope) fun s =>
      hK.keeps_bind (hK.keeps_build _) fun b =>
        hK.keeps_bind (keeps_run (hK.work (.set s b.1 b.2) depth rfl)) fun _ => hK.keeps_pure _
  | get scope name =>
    refine hK.keeps_bind (hK.keeps_scopeOf scope) fun s =>
      hK.keeps_bind (hK.keeps_build _) fun x => hK.keeps_bind hK.keeps_machineNow fun m => ?_
    dsimp only
    split
    · exact hK.keeps_pure _
    · exact hK.keeps_bind (hK.keeps_describe _) fun _ => hK.keeps_pure _
  | inspect scope =>
    exact hK.keeps_bind (hK.keeps_scopeOf scope) fun s =>
      hK.keeps_bind hK.keeps_machineNow fun _ => hK.keeps_pure _
  | save =>
    rintro session r session' ⟨⟩
    exact hK.elsewhere rfl (.inr rfl)
  | pushLine line =>
    exact hK.keeps_change (fun m => { m with input := m.input.pushLine line }) fun _ => rfl
  | readLine =>
    refine hK.keeps_bind (hK.keeps_run_of_env_eq fun m r m' run => ?_) fun _ => hK.keeps_pure _
    simp only [Run.readLine] at run
    split at run <;> cases run <;> rfl
  | emit n =>
    refine hK.keeps_bind (hK.keeps_run_of_env_eq ?_) fun _ => hK.keeps_pure _
    rintro m r m' ⟨⟩
    rfl
  | writeLine text =>
    exact hK.keeps_change (fun m => { m with output := m.output.writeLine text }) fun _ => rfl
  | emitted => exact hK.keeps_bind hK.keeps_machineNow fun _ => hK.keeps_pure _
  | clear => exact hK.keeps_change (fun m => { m with output := m.output.clear }) fun _ => rfl
  | lookup name =>
    exact hK.keeps_bind (hK.keeps_build _) fun x =>
      hK.keeps_bind hK.keeps_machineNow fun _ => hK.keeps_pure _

omit hK in
theorem of_settle {x : Step Reply} (hx : Proc.Keeps K x) {session session' : Session}
    {reply : Reply} (settled : settle x session = some (reply, session')) : K session session' := by
  simp only [settle] at settled
  rcases run : x.run session with _ | ⟨_ | _, session₁⟩
  all_goals
    rw [run] at settled
    cases settled
  · exact hx _ _ _ run
  · exact hx _ _ _ run

end

mutual

/-- A command keeps the relation if the requests in it do. -/
theorem perform (hK : Stable K) (depth : Nat) : ∀ (c : Command),
    (∀ r ∈ c.requests, Proc.Keeps K (respond depth r)) →
    ∀ {session session' : Session} {a : Answer},
      Session.perform depth c session = some (a, session') → K session session'
  | .request r, kept, session, session', a, h => by
    simp only [Session.perform, Option.bind_eq_bind, Option.bind_eq_some_iff] at h
    obtain ⟨⟨reply, session₁⟩, settled, h⟩ := h
    cases h
    have responded := of_settle (kept r (List.mem_singleton_self r)) settled
    exact hK.trans _ _ _ responded (hK.elsewhere rfl (.inl rfl))
  | .within parent bindings inner, kept, session, session', a, h => by
    obtain ⟨-, env, saved⟩ | ⟨p, names, bs, answers, session₁, r, m, live, ran, popped, told⟩ :=
      perform_within_cases h
    · exact hK.elsewhere env (.inl saved)
    · cases told
      have block := hK.block live (performAll hK depth inner kept ran) popped
      exact hK.trans _ _ _ block (hK.elsewhere rfl (.inl rfl))

/-- **Commands keep the relation if the requests in them do.** -/
theorem performAll (hK : Stable K) (depth : Nat) : ∀ (cs : List Command),
    (∀ r ∈ Command.requestsAll cs, Proc.Keeps K (respond depth r)) →
    ∀ {session session' : Session} {answers : List Answer},
      Session.performAll depth cs session = some (answers, session') → K session session'
  | [], _, session, session', answers, h => by
    rw [Session.performAll] at h
    cases h
    exact hK.refl session
  | c :: rest, kept, session, session', answers, h => by
    simp only [Session.performAll, Option.bind_eq_bind, Option.bind_eq_some_iff] at h
    obtain ⟨⟨a, session₁⟩, first, ⟨answers', session₂⟩, others, h⟩ := h
    cases h
    have one := perform hK depth c (fun r mem => kept r (List.mem_append_left _ mem)) first
    have more := performAll hK depth rest (fun r mem => kept r (List.mem_append_right _ mem)) others
    exact hK.trans _ _ _ one more

end

end Stable

/-! ## Environments of a session -/

/-- The environment of the machine and the copy that can be put back are
reachable. -/
def Sound (session : Session) : Prop :=
  session.machine.env.Reachable ∧ session.saved.Reachable

theorem sound_call (op : Operation) (depth : Nat) :
    Proc.Keeps (OnMachines fun session session' => session.Sound → session'.Sound)
      (op.perform depth) := fun _ _ _ run _ _ sound =>
  ⟨Host.keeps_reachable_perform depth op _ _ _ run sound.1, sound.2⟩

/-- Sessions stay sound. -/
theorem stable_sound : Stable fun session session' => session.Sound → session'.Sound where
  trans _ _ _ h h' sound := h' (h sound)
  elsewhere := by
    intro session session' env saved sound
    refine ⟨env ▸ sound.1, ?_⟩
    rcases saved with saved | saved
    · exact saved ▸ sound.2
    · exact saved ▸ sound.1
  work op depth _ _ := sound_call op depth
  block := by
    intro session session₁ p names bindings r m live inner popped sound
    have opened := (Nesting.Step.enter (m := { session.machine with names := names }) live
      bindings []).reachable sound.1
    have ended := inner ⟨opened, sound.2⟩
    exact ⟨Machine.stable_reachable.keeps_popScope _ _ _ _ popped ended.1, ended.2⟩

/-- **Every request keeps a session sound**, whatever its reply is. -/
theorem sound_respond (depth : Nat) (r : Request) :
    Proc.Keeps (fun session session' => session.Sound → session'.Sound) (respond depth r) := by
  have stable := stable_sound
  cases r with
  | push parent =>
    exact stable.keeps_bind (stable.keeps_scopeOf parent) fun p =>
      stable.keeps_bind (Stable.keeps_run (sound_call (.push p) depth).of_discard) fun s =>
        stable.keeps_bind (stable.keeps_addHandle s) fun _ => stable.keeps_pure _
  | pop scope =>
    exact stable.keeps_bind (stable.keeps_scopeOf scope) fun s =>
      stable.keeps_bind (Stable.keeps_run (sound_call (.pop s) depth)) fun _ => stable.keeps_pure _
  | load =>
    -- The copy is read before it is put back, so the two steps are taken as one.
    rintro session r session' ⟨⟩ sound
    exact ⟨sound.2, sound.2⟩
  | _ => exact stable.keeps_respond depth trivial

/-- A session begins with an environment that is reachable: its bindings are made
one after another. -/
theorem sound_start {setup : Setup} {session : Session} (h : start setup = .ok session) :
    session.Sound := by
  simp only [start] at h
  rcases built : (ValueDraft.buildBindings setup.bindings).runWith
      (NameTable.initial.internAll setup.names) with ⟨e | bindings, names⟩
  · rw [built] at h
    cases h
  · rw [built] at h
    cases h
    exact ⟨.ofBindings bindings, .initial⟩

/-- **Every environment of a session is reachable**, and hence well-formed: the one
that the last command left, and the copy that is kept. -/
theorem conduct_reachable {depth : Nat} {setup : Setup} {commands : List Command}
    {answers : List Answer} {session : Session}
    (h : conduct depth setup commands = some (.ok (answers, session))) :
    session.machine.env.Reachable ∧ session.saved.Reachable := by
  rw [conduct] at h
  rcases started : start setup with e | session₀
  · rw [started] at h
    cases h
  · rw [started] at h
    simp only [Option.map_eq_some_iff] at h
    obtain ⟨⟨answers', session'⟩, performed, h⟩ := h
    cases h
    exact stable_sound.performAll depth commands (fun r _ => sound_respond depth r) performed
      (sound_start started)

/-! ## Commands that keep to blocks -/

/-- What commands do to the machine can be done by steps of nested blocks. -/
theorem stable_stepsTo :
    Stable fun session session' => Nesting.StepsTo session.machine session'.machine where
  trans _ _ _ := .trans
  elsewhere env _ := .of_env_eq env
  work _ depth _ target m r m' run _ _ := Nesting.keeps_perform target depth m r m' run
  block := by
    intro session session₁ p names bindings r m live inner popped
    have named : Nesting.StepsTo session.machine { session.machine with names := names } :=
      .of_env_eq rfl
    exact named.trans (.of_isBlock (inner.isBlock live popped))

/-- **Commands that keep to blocks are steps of nested blocks**, whatever they come to. -/
theorem stepsTo_of_performAll {depth : Nat} {cs : List Command} {session session' : Session}
    {answers : List Answer} (within : ∀ r ∈ Command.requestsAll cs, r.KeepsToBlocks)
    (h : performAll depth cs session = some (answers, session')) :
    Nesting.StepsTo session.machine session'.machine :=
  stable_stepsTo.performAll depth cs
    (fun r mem => stable_stepsTo.keeps_respond depth (within r mem)) h

/-- **A block of commands is a block of steps**, if the commands inside of it keep to blocks, and
its end is never refused.  Either the block does not begin, and the environment is as it was; or
it begins on a scope that is there, the commands are its steps, and it ends: the reply is its
handle and its scope, which stood at the end of the arena, and there are as many scopes as
before. -/
theorem perform_within_isBlock {depth : Nat} {parent : Handle}
    {bindings : List (Identifier × ValueDraft)} {inner : List Command}
    {session session' : Session} {a : Answer}
    (within : ∀ r ∈ Command.requestsAll inner, r.KeepsToBlocks)
    (h : perform depth (.within parent bindings inner) session = some (a, session')) :
    (a.inner = some [] ∧ session'.machine.env = session.machine.env) ∨
    ∃ p names bs answers session₁ m targets,
      performAll depth inner (session.inside p names bs) = some (answers, session₁) ∧
      (∀ guards, Nesting.IsBlock p bs targets guards { session.machine with names := names }
        session₁.machine m) ∧
      (a, session') = answer (.opened session.handles.size ⟨session.machine.env.depth⟩)
        (some answers) { session₁ with machine := m } ∧
      session'.machine.env.depth = session.machine.env.depth := by
  obtain ⟨refused, env, -⟩ | ⟨p, names, bs, answers, session₁, r, m, live, ran, popped, told⟩ :=
    perform_within_cases h
  · exact .inl ⟨refused, env⟩
  · have steps := stepsTo_of_performAll within ran
    obtain ⟨targets, block⟩ := Nesting.StepsTo.isBlock
      (m := { session.machine with names := names }) live steps popped
    obtain ⟨m', ended⟩ := Nesting.StepsTo.run_popScope
      (m := { session.machine with names := names }) live steps
    cases ended.symm.trans popped
    have depth_eq := (Nesting.StepsTo.of_isBlock ⟨targets, block⟩).depth_eq
    cases told
    exact .inr ⟨p, names, bs, answers, session₁, m, targets, ran, block, rfl, depth_eq⟩

end Session

end TreeWalk
