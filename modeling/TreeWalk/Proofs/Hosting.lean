import Mathlib.Logic.Relation
import TreeWalk.Proofs.Arena
import TreeWalk.Proofs.Invariant

/-!
# Arenas in the hands of a host

A host holds handles that go stale, discards scopes in the wrong order, evaluates
in scopes that are gone, catches every fault and carries on, and swaps in copies
of the environment that it took long ago.  **None of that ever bends the shape of
the arena**: after any number of such steps a parent still stands before its
child, so that every lookup still ends.

## Main definitions

* `Operation`: one call that a host can make
* `Host`: a machine with the copies of its environment that the host has kept
* `Host.Step`: one step of a host, whatever the call came to

## Main statements

* `Machine.stable_reachable`: every single change keeps the environment reachable
* `Host.arena_wellFormed`: the shape of the arena after any number of steps, the
  end of every lookup, and the harmlessness of faults

## Design notes

A handle may be any position at all.  The handles that a host was given, live or
dead or taken over by a newer frame, are among them.  A guard is opened and
closed by operations of their own, in any order, and a copy may be put back at
any time and any number of times; what is possible with properly nested guards is
a special case.
-/

namespace TreeWalk

/-! ## The invariant of the machine -/

/-- Every single change keeps the environment reachable, since the three changes
of the arena are what reachable means. -/
theorem Machine.stable_reachable :
    Machine.Stable fun m m' => m.env.Reachable → m'.env.Reachable where
  refl _ h := h
  trans _ _ _ h h' reachable := h' (h reachable)
  log _ _ _ h := h
  set bound h := h.set bound
  push pushed h := h.push pushed
  pop popped h := h.pop popped
  emit _ _ h := h
  read _ h := h

/-! ## Steps of a host -/

/-- A call that a host can make on its machine. -/
inductive Operation where
  | push (parent : ScopeId)
  | pop (scope : ScopeId)
  | set (scope : ScopeId) (x : Name) (v : Value)
  /-- Make a scope that starts with some bindings, to be discarded later. -/
  | openGuard (parent : ScopeId) (bindings : Bindings)
  /-- Discard the scope of a guard. -/
  | closeGuard (scope : ScopeId)
  | eval (n : Node) (scope : ScopeId)
  | block (body : List Node) (scope : ScopeId)
  | function (f : Function) (scope : ScopeId)
  | run (program : List Node)

/-- Make a call, with a bound on the depth of evaluation. -/
def Operation.perform (depth : Nat) : Operation → Run Unit
  | .push parent => do
    let _ ← Run.pushScope parent
  | .pop scope => Run.popScope scope
  | .set scope x v => Run.assign scope x v
  | .openGuard parent bindings => do
    let s ← Run.pushScope parent
    Run.assignAll s bindings
  | .closeGuard scope => Run.popScope scope
  | .eval n scope => do
    let _ ← TreeWalk.eval depth n scope
  | .block body scope => do
    let _ ← evalBlock (TreeWalk.eval depth) body scope
  | .function f scope => do
    let _ ← evalBody (TreeWalk.eval depth) f scope
  | .run program => do
    let _ ← runProgram depth program

/-- A machine in the hands of a host, with the copies of the environment that the
host has kept. -/
structure Host where
  machine : Machine
  copies : List Environment

namespace Host

/-- Nothing has been done yet: the environment is the initial one. -/
def IsStart (h : Host) : Prop := h.machine.env = .initial ∧ h.copies = []

/-- One step of a host. -/
inductive Step : Host → Host → Prop where
  /-- A call that ended with a result, with an error or with a fault: the host goes
  on from the machine that it left. -/
  | call {h : Host} (op : Operation) (depth : Nat) {r : Except Stop Unit} {m : Machine} :
      (op.perform depth).run h.machine = some (r, m) → Step h { h with machine := m }
  /-- Keep a copy of the environment. -/
  | save {h : Host} : Step h { h with copies := h.machine.env :: h.copies }
  /-- Put a copy back. -/
  | load {h : Host} {env : Environment} :
      env ∈ h.copies → Step h { h with machine := { h.machine with env := env } }
  /-- Do something that does not concern the environment, such as to add lines to
  the input. -/
  | elsewhere {h : Host} {m : Machine} : m.env = h.machine.env → Step h { h with machine := m }

/-- Every environment that the host has at hand is reachable. -/
def Sound (h : Host) : Prop := h.machine.env.Reachable ∧ ∀ env ∈ h.copies, env.Reachable

/-- A call keeps the environment reachable. -/
theorem keeps_reachable_perform (depth : Nat) (op : Operation) :
    Proc.Keeps (fun m m' => m.env.Reachable → m'.env.Reachable) (op.perform depth) := by
  have stable := Machine.stable_reachable
  cases op with
  | push parent =>
    exact .bind stable.trans (stable.keeps_pushScope parent) fun _ => .pure stable.refl ()
  | pop scope => exact stable.keeps_popScope scope
  | set scope x v => exact stable.keeps_assign scope x v
  | openGuard parent bindings =>
    exact .bind stable.trans (stable.keeps_pushScope parent) fun s =>
      stable.keeps_assignAll s bindings
  | closeGuard scope => exact stable.keeps_popScope scope
  | eval n scope =>
    exact .bind stable.trans (stable.eval depth n scope) fun _ => .pure stable.refl ()
  | block body scope =>
    exact .bind stable.trans (stable.evalBlock depth body scope) fun _ =>
      .pure stable.refl ()
  | function f scope =>
    exact .bind stable.trans (stable.evalBody depth f scope) fun _ =>
      .pure stable.refl ()
  | run program =>
    exact .bind stable.trans (stable.runProgram depth program) fun _ =>
      .pure stable.refl ()

theorem IsStart.sound {h : Host} (start : h.IsStart) : h.Sound := by
  refine ⟨?_, fun env mem => ?_⟩
  · rw [start.1]
    exact .initial
  · rw [start.2] at mem
    cases mem

theorem Step.sound {h h' : Host} (step : Step h h') (sound : h.Sound) : h'.Sound := by
  cases step with
  | call op depth run => exact ⟨keeps_reachable_perform depth op _ _ _ run sound.1, sound.2⟩
  | save =>
    refine ⟨sound.1, fun env mem => ?_⟩
    rcases List.mem_cons.mp mem with rfl | older
    · exact sound.1
    · exact sound.2 env older
  | load mem => exact ⟨sound.2 _ mem, sound.2⟩
  | elsewhere same =>
    refine ⟨?_, sound.2⟩
    rw [same]
    exact sound.1

theorem sound_of_steps {h₀ h : Host} (start : h₀.IsStart)
    (steps : Relation.ReflTransGen Step h₀ h) : h.Sound := by
  induction steps with
  | refl => exact start.sound
  | tail _ step sound => exact step.sound sound

/-! ## Faults -/

/-- A call of the arena that is refused has not touched the machine. -/
theorem pushScope_fault {m m' : Machine} {p : ScopeId} {f : Fault}
    (run : (Run.pushScope p).run m = some (.error (.fault f), m')) : m' = m := by
  simp only [Run.pushScope] at run
  split at run
  · cases run
  · cases run
    rfl

theorem popScope_fault {m m' : Machine} {s : ScopeId} {f : Fault}
    (run : (Run.popScope s).run m = some (.error (.fault f), m')) : m' = m := by
  simp only [Run.popScope] at run
  split at run
  · split at run
    · cases run
    · cases run
      rfl
  · cases run

theorem assign_fault {m m' : Machine} {s : ScopeId} {x : Name} {v : Value} {f : Fault}
    (run : (Run.assign s x v).run m = some (.error (.fault f), m')) : m' = m := by
  simp only [Run.assign] at run
  split at run
  · cases run
  · cases run
    rfl

/-- **The arena keeps its shape in the hands of any host.**  After any number of
steps there is an outermost scope without a parent, and every other scope has a
parent that stands before it.  Hence every search for a name ends, looking into
positions that strictly decrease, and comes to what a lookup comes to.  A call
that is refused with a fault leaves the machine exactly as it was. -/
theorem arena_wellFormed {h₀ h : Host} (start : h₀.IsStart)
    (steps : Relation.ReflTransGen Step h₀ h) :
    h.machine.env.WellFormed ∧
      (∀ s x, ∃ path, h.machine.env.Walk x s path (h.machine.env.get? s x) ∧
        path.Pairwise fun t u => u.index < t.index) ∧
      ∀ f m,
        (∀ p, (Run.pushScope p).run h.machine = some (.error (.fault f), m) → m = h.machine) ∧
          (∀ s, (Run.popScope s).run h.machine = some (.error (.fault f), m) → m = h.machine) ∧
            ∀ s x v, (Run.assign s x v).run h.machine = some (.error (.fault f), m) →
              m = h.machine := by
  have wf := (sound_of_steps start steps).1.wellFormed
  refine ⟨wf, fun s x => ?_, fun f m => ⟨fun _ => pushScope_fault, fun _ => popScope_fault,
    fun _ _ _ => assign_fault⟩⟩
  obtain ⟨path, walk, -, decreasing⟩ := wf.exists_walk x s
  exact ⟨path, walk, decreasing⟩

/-- A guard is opened and closed, a push on its stale handle is refused, a copy
from the time in between is put back, the same push now succeeds, and closing the
guard is refused because a newer scope is there. -/
theorem arena_wellFormed_stale_guard :
    ∃ h₀ h : Host, h₀.IsStart ∧ Relation.ReflTransGen Step h₀ h ∧
      h.machine.env.parent? ⟨2⟩ = some ⟨1⟩ ∧ h.machine.env.WellFormed := by
  let h₀ : Host := ⟨⟨.initial, .initial, .queue [], .captured "", #[]⟩, []⟩
  have start : h₀.IsStart := ⟨rfl, rfl⟩
  obtain ⟨h, steps, parent⟩ : ∃ h, Relation.ReflTransGen Step h₀ h ∧
      h.machine.env.parent? ⟨2⟩ = some ⟨1⟩ :=
    ⟨_, .head (.call (.openGuard .root []) 0 rfl) <| .head .save <|
      .head (.call (.closeGuard ⟨1⟩) 0 rfl) <| .head (.call (.push ⟨1⟩) 0 rfl) <|
      .head (.load (.head _)) <| .head (.call (.push ⟨1⟩) 0 rfl) <|
      .single (.call (.closeGuard ⟨1⟩) 0 rfl), rfl⟩
  exact ⟨h₀, h, start, steps, parent, (arena_wellFormed start steps).1⟩

end Host

end TreeWalk
