import TreeWalk.Proofs.Confinement
import TreeWalk.Proofs.Lockstep
import TreeWalk.Proofs.Naming

/-!
# Evaluations side by side

Two machines evaluate the same tree, or the same tree under other names, each in
a scope of its own.  If they start out alike, in whatever sense of the word, do
they come to the same outcome?  **It suffices that every single step keeps them
alike**: a lookup finds the same on both sides, and a binding, a line read, a
number printed and a scope entered or left do not part them.  The induction over
the depth, the kinds of node and the lists of nodes is done here, once.

## Main definitions

* `Machine.Simulation`: a relation between machines, seen from two scopes, that
  single steps keep

## Main statements

* `Machine.Simulation.eval`: then evaluations run in lockstep under every bound
* `Machine.Simulation.matched`, `Machine.Simulation.matchedAll`: and come to
  matching outcomes
* `Machine.ChannelSimulation.simulation`: the obligations that are left where the
  two machines share one environment

## Design notes

A relation says nothing of names outside of a given set, and the names of the
second machine are those of the first under a renaming.  The same names on both
sides, and all of them, are the special case of the identity and the full set.

The two scopes may be gone.  Then an attempt to bind in them or to enter a scope
inside of them is a fault that shows the handle, so the two have to be the same
handle.
-/

namespace TreeWalk

/-- `R s t` relates a machine seen from the scope `s` to a machine seen from the
scope `t`, and single steps keep them related.  Names are those from `S`, and `π`
turns them into the names of the second machine. -/
structure Machine.Simulation (S : Set Name) (π : Name → Name)
    (R : ScopeId → ScopeId → Machine → Machine → Prop) : Prop where
  /-- Both scopes are there, or they are one handle that is gone on both sides. -/
  scopes {s t : ScopeId} {m k : Machine} : R s t m k →
    (m.env.IsLive s ∧ k.env.IsLive t) ∨ (s = t ∧ ¬ m.env.IsLive s ∧ ¬ k.env.IsLive t)
  /-- The tables give the same texts. -/
  text {s t : ScopeId} {m k : Machine} {x : Name} : R s t m k → x ∈ S →
    k.names.lookup (π x) = m.names.lookup x
  /-- A lookup finds the same. -/
  get {s t : ScopeId} {m k : Machine} {x : Name} : R s t m k → x ∈ S →
    Option.Rel (Value.RenamesTo S π) (m.env.get? s x) (k.env.get? t (π x))
  set {s t : ScopeId} {m k : Machine} {x : Name} {v : Value} {env env' : Environment} :
    R s t m k → x ∈ S → (∀ y ∈ v.names, y ∈ S) → m.env.set s x v = .ok env →
      k.env.set t (π x) (v.rename π) = .ok env' →
        R s t { m with env := env } { k with env := env' }
  log {s t : ScopeId} {m k : Machine} (e : Event) : R s t m k → R s t (m.log e) (k.log e)
  emit {s t : ScopeId} {m k : Machine} (n : Number) : R s t m k →
    R s t { m with output := m.output.emit n } { k with output := k.output.emit n }
  /-- Lines may differ in the blanks around them. -/
  readLine (s t : ScopeId) :
    Proc.Lockstep (R s t) Eq
      (Option.Rel fun line line' => Text.trim line'.toList = Text.trim line.toList)
      Run.readLine Run.readLine
  /-- A body starts in scopes of its own. -/
  enter {s t : ScopeId} {m k : Machine} {bindings : Bindings} : R s t m k → m.env.IsLive s →
    k.env.IsLive t → bindings.Within S →
      R ⟨m.env.depth⟩ ⟨k.env.depth⟩ (m.enter s bindings) (k.enter t (bindings.rename π))
  /-- At its end both machines have their old environments again. -/
  resume {s t : ScopeId} {m m' k k' : Machine} : R s t m k →
    R ⟨m.env.depth⟩ ⟨k.env.depth⟩ m' k' → R s t (m.resume m') (k.resume k')

namespace Machine.Simulation

variable {S : Set Name} {π : Name → Name} {R : ScopeId → ScopeId → Machine → Machine → Prop}
  {s t : ScopeId}

/-! ## Primitive steps -/

theorem ofExcept {α : Type} (r : Except EvalError α) :
    Proc.Lockstep (R s t) Eq Eq (Run.ofExcept r) (Run.ofExcept r) := by
  refine .ofExcept ?_
  cases r with
  | error e => exact .error rfl
  | ok a => exact .ok rfl

/-- A step that comes to a number, if to anything. -/
theorem ofExcept_number (r : Except EvalError Number) :
    Proc.Lockstep (R s t) Eq (Value.RenamesTo S π) (Run.ofExcept (r.map Value.number))
      (Run.ofExcept (r.map Value.number)) := by
  refine .ofExcept ?_
  cases r with
  | error e => exact .error rfl
  | ok k => exact .ok (.number k)

/-- A value is called, or refused as none that can be called, whatever the
names. -/
theorem ofExcept_toFunction {v w : Value} (same : v.RenamesTo S π w) :
    Proc.Lockstep (R s t) Eq (fun f g => g = f.rename π ∧ ∀ x ∈ f.names, x ∈ S)
      (Run.ofExcept (toFunction v)) (Run.ofExcept (toFunction w)) := by
  obtain ⟨rfl, within⟩ := same
  refine .ofExcept ?_
  cases v with
  | number k => exact .error rfl
  | function f => exact .ok ⟨rfl, within⟩
  | void => exact .error rfl

section

variable (sim : Simulation S π R)

include sim

theorem record (e : Event) :
    Proc.Lockstep (R s t) Eq (fun _ _ => True) (Run.record e) (Run.record e) :=
  .modify fun _ _ related => sim.log e related

theorem lookup {x : Name} (known : x ∈ S) :
    Proc.Lockstep (R s t) Eq (Value.RenamesTo S π) (Run.lookup s x) (Run.lookup t (π x)) := by
  intro m k related
  obtain ⟨hm, hk⟩ | ⟨v, w, hm, hk, same⟩ := Proc.rel_cases (sim.get related known)
  · simp only [Run.lookup, hm, hk, sim.text related known]
    exact .some ⟨.error rfl, related⟩
  · simp only [Run.lookup, hm, hk]
    exact .some ⟨.ok same, related⟩

theorem assign {x : Name} {v : Value} (known : x ∈ S) (within : ∀ y ∈ v.names, y ∈ S) :
    Proc.Lockstep (R s t) Eq (fun _ _ => True) (Run.assign s x v)
      (Run.assign t (π x) (v.rename π)) := by
  intro m k related
  rcases sim.scopes related with ⟨live, live'⟩ | ⟨rfl, dead, dead'⟩
  · have bound := Environment.set_eq_ok_iff.mpr
      ⟨live, (rfl : _ = (⟨m.env.frames.modify s.index (·.assign x v)⟩ : Environment))⟩
    have bound' := Environment.set_eq_ok_iff.mpr
      ⟨live', (rfl : _ = (⟨k.env.frames.modify t.index (·.assign (π x) (v.rename π))⟩ :
        Environment))⟩
    simp only [Run.assign, bound, bound']
    exact .some ⟨.ok trivial, sim.set related known within bound bound'⟩
  · have refused : m.env.set s x v = .error (.deadScope s) := if_neg dead
    have refused' : k.env.set s (π x) (v.rename π) = .error (.deadScope s) := if_neg dead'
    simp only [Run.assign, refused, refused']
    exact .some ⟨.error rfl, related⟩

theorem emit_lockstep (n : Number) :
    Proc.Lockstep (R s t) Eq (fun _ _ => True) (Run.emit n) (Run.emit n) :=
  .modify fun _ _ related => sim.log (.printed n) (sim.emit n related)

theorem evalRead {x : Name} (known : x ∈ S) :
    Proc.Lockstep (R s t) Eq (Value.RenamesTo S π) (evalRead x s) (evalRead (π x) t) := by
  refine .bind (sim.readLine s t) fun line line' same => ?_
  cases same with
  | none => exact .ofExcept (.error rfl)
  | some core =>
    dsimp only
    rw [core]
    split
    · exact .ofExcept (.error rfl)
    · next n _ =>
      refine .bind (sim.assign known (v := .number n) nofun) fun _ _ _ => ?_
      exact .pure (.number n)

/-- Bodies that run in lockstep do so in scopes of their own as well.  By
confinement nothing of them is left in the environments afterwards. -/
theorem withScope {α β : Type} {V : α → β → Prop} {bindings : Bindings}
    (within : bindings.Within S) {body : ScopeId → Run α} {body' : ScopeId → Run β}
    (confined : ∀ u, Run.Confined Set.univ u (body u))
    (confined' : ∀ u, Run.Confined Set.univ u (body' u))
    (h : ∀ u u', Proc.Lockstep (R u u') Eq V (body u) (body' u')) :
    Proc.Lockstep (R s t) Eq V (Run.withScope s bindings body)
      (Run.withScope t (bindings.rename π) body') := by
  intro m k related
  rcases sim.scopes related with ⟨live, live'⟩ | ⟨rfl, dead, dead'⟩
  · have inner := h _ _ _ _ (sim.enter related live live' within)
    rw [Run.run_withScope_of_confined live bindings (confined _),
      Run.run_withScope_of_confined live' (bindings.rename π) (confined' _)]
    exact Proc.rel_map inner fun o o' both => ⟨both.1, sim.resume related both.2⟩
  · rw [Run.run_withScope_of_not_isLive dead, Run.run_withScope_of_not_isLive dead']
    exact .some ⟨.error rfl, related⟩

end

/-! ## Evaluation -/

section

variable {depth : Nat}
  (ih : ∀ (n : Node) (s t : ScopeId), (∀ x ∈ n.names, x ∈ S) →
    Proc.Lockstep (R s t) Eq (Value.RenamesTo S π) (TreeWalk.eval depth n s)
      (TreeWalk.eval depth (n.rename π) t))

include ih

theorem evalFrom (s t : ScopeId) {last last' : Value} (same : last.RenamesTo S π last')
    (body : List Node) (within : ∀ x ∈ Node.namesAll body, x ∈ S) :
    Proc.Lockstep (R s t) Eq (Value.RenamesTo S π)
      (evalFrom (TreeWalk.eval depth) s last body)
      (evalFrom (TreeWalk.eval depth) t last' (Node.renameAll π body)) := by
  induction body generalizing last last' with
  | nil => exact .pure same
  | cons n rest rest_ih =>
    simp only [Node.namesAll, List.mem_append] at within
    refine .bind (ih n s t fun x hx => within x (.inl hx)) fun v v' same => ?_
    exact rest_ih same fun x hx => within x (.inr hx)

theorem evalBlock (body : List Node) (s t : ScopeId)
    (within : ∀ x ∈ Node.namesAll body, x ∈ S) :
    Proc.Lockstep (R s t) Eq (Value.RenamesTo S π) (evalBlock (TreeWalk.eval depth) body s)
      (evalBlock (TreeWalk.eval depth) (Node.renameAll π body) t) :=
  evalFrom ih s t .void body within

theorem evalArgs (s t : ScopeId) (args : List Node)
    (within : ∀ x ∈ Node.namesAll args, x ∈ S) :
    Proc.Lockstep (R s t) Eq
      (fun vs ws => ws = vs.map (Value.rename π) ∧ ∀ v ∈ vs, ∀ x ∈ v.names, x ∈ S)
      (evalArgs (TreeWalk.eval depth) s args)
      (evalArgs (TreeWalk.eval depth) t (Node.renameAll π args)) := by
  induction args with
  | nil => exact .pure ⟨rfl, nofun⟩
  | cons n rest rest_ih =>
    simp only [Node.namesAll, List.mem_append] at within
    refine .bind (ih n s t fun x hx => within x (.inl hx)) fun v v' same => ?_
    refine .bind (rest_ih fun x hx => within x (.inr hx)) fun vs vs' sames => ?_
    refine .pure ⟨?_, ?_⟩
    · rw [same.eq, sames.1, List.map_cons]
    · rintro u (_ | ⟨_, mem⟩)
      · exact same.within
      · exact sames.2 u mem

theorem evalBody (f : Function) (s t : ScopeId) (within : ∀ x ∈ f.names, x ∈ S) :
    Proc.Lockstep (R s t) Eq (Value.RenamesTo S π) (evalBody (TreeWalk.eval depth) f s)
      (evalBody (TreeWalk.eval depth) (f.rename π) t) := by
  obtain ⟨params, body⟩ := f
  cases body with
  | nil => exact .pure (.number 0)
  | cons n rest =>
    refine evalBlock ih (n :: rest) s t fun x hx => within x ?_
    exact List.mem_append_right params hx

theorem evalConditional (condition : Node) (ifTrue : List Node) (ifFalse : Option (List Node))
    (s t : ScopeId)
    (within : ∀ x ∈ condition.names ++ (Node.namesAll ifTrue ++ Node.namesBranch ifFalse),
      x ∈ S) :
    Proc.Lockstep (R s t) Eq (Value.RenamesTo S π)
      (evalConditional (TreeWalk.eval depth) condition ifTrue ifFalse s)
      (evalConditional (TreeWalk.eval depth) (condition.rename π) (Node.renameAll π ifTrue)
        (Node.renameBranch π ifFalse) t) := by
  rw [List.forall_mem_append] at within
  refine .bind (ih condition s t within.1) fun v w same => ?_
  rw [same.eq, Value.toNumber_rename]
  refine .bind (ofExcept v.toNumber) fun c c' equal => ?_
  subst equal
  rw [Node.chooseBranch_rename]
  refine evalBlock ih _ s t fun x hx => within.2 x ?_
  exact Node.namesAll_chooseBranch c ifTrue ifFalse hx

variable (sim : Simulation S π R)

include sim

theorem applyFunction {f : Function} {args : List Value} (within : ∀ x ∈ f.names, x ∈ S)
    (within_args : ∀ v ∈ args, ∀ x ∈ v.names, x ∈ S) (s t : ScopeId) :
    Proc.Lockstep (R s t) Eq (Value.RenamesTo S π)
      (applyFunction (TreeWalk.eval depth) f args s)
      (applyFunction (TreeWalk.eval depth) (f.rename π) (args.map (Value.rename π)) t) := by
  have confined : ∀ (g : Function) (u : ScopeId),
      Run.Confined Set.univ u (TreeWalk.evalBody (TreeWalk.eval depth) g u) := fun g u =>
    Run.confined_compositional.evalBody (Run.confined_compositional.eval depth) g u
      fun _ _ => Set.mem_univ _
  have bound : Bindings.Within S (f.params.zip args) := by
    rintro ⟨x, v⟩ mem
    obtain ⟨param, arg⟩ := List.of_mem_zip mem
    exact ⟨within x (List.mem_append_left _ param), within_args v arg⟩
  have noted : Proc.Lockstep (R s t) Eq (fun _ _ => True) (noteArity f args)
      (noteArity (f.rename π) (args.map (Value.rename π))) := by
    unfold noteArity
    rw [Function.arity_rename, List.length_map]
    split
    · exact .pure trivial
    · exact sim.record _
  refine .bind noted fun _ _ _ => ?_
  rw [show (f.rename π).params = f.params.map π from rfl, List.zip_map]
  exact sim.withScope bound (confined f) (confined (f.rename π))
    fun u u' => evalBody ih f u u' within

theorem evalCall (callee : Node) (args : List Node) (s t : ScopeId)
    (within : ∀ x ∈ callee.names ++ Node.namesAll args, x ∈ S) :
    Proc.Lockstep (R s t) Eq (Value.RenamesTo S π)
      (evalCall (TreeWalk.eval depth) callee args s)
      (evalCall (TreeWalk.eval depth) (callee.rename π) (Node.renameAll π args) t) := by
  simp only [List.mem_append] at within
  unfold TreeWalk.evalCall
  rw [Node.kind_rename, Node.length_renameAll]
  refine .bind (sim.record _) fun _ _ _ => .ensuring_modify ?_ fun _ _ => sim.log .callEnded
  refine .bind (ih callee s t fun x hx => within x (.inl hx)) fun v w same => ?_
  refine .bind (ofExcept_toFunction same) fun f g function => ?_
  refine .bind (evalArgs ih s t args fun x hx => within x (.inr hx)) fun vs ws values => ?_
  rw [function.1, values.1]
  exact sim.applyFunction ih function.2 values.2 s t

end

variable (sim : Simulation S π R)

include sim

/-- **Under every bound on the depth, the two evaluations run in lockstep.** -/
theorem eval (depth : Nat) (n : Node) (s t : ScopeId) (within : ∀ x ∈ n.names, x ∈ S) :
    Proc.Lockstep (R s t) Eq (Value.RenamesTo S π) (TreeWalk.eval depth n s)
      (TreeWalk.eval depth (n.rename π) t) := by
  -- By induction on the bound, not on the tree: a call goes on with a body that was
  -- bound somewhere else.
  induction depth generalizing n s t with
  | zero => exact .noOutcome
  | succ depth ih =>
    rw [eval_succ, eval_succ]
    unfold evalNode
    rw [Node.kind_rename]
    refine .bind (sim.record _) fun _ _ _ => ?_
    cases n with
    | number k => exact .pure (.number k)
    | reference x => exact sim.lookup (within x (List.mem_singleton_self x))
    | unary op operand =>
      refine .bind (ih operand s t within) fun v w same => ?_
      rw [same.eq, op.evaluate_eq_map, op.evaluate_eq_map, Value.toNumber_rename]
      exact ofExcept_number _
    | binary op left right =>
      rw [Node.names, List.forall_mem_append] at within
      refine .bind (ih left s t within.1) fun l l' same => ?_
      refine .bind (ih right s t within.2) fun r r' same' => ?_
      rw [same.eq, same'.eq, op.evaluate_eq_map, op.evaluate_eq_map, Value.toNumber_rename,
        Value.toNumber_rename]
      exact ofExcept_number _
    | literal params body => exact evalBody ih ⟨params, body⟩ s t within
    | define x params body =>
      rw [Node.names, List.forall_mem_cons] at within
      refine .bind (sim.assign (v := .function ⟨params, body⟩) within.1 within.2) fun _ _ _ => ?_
      exact .pure ⟨rfl, within.2⟩
    | call callee args => exact sim.evalCall ih callee args s t within
    | conditional condition ifTrue ifFalse =>
      exact evalConditional ih condition ifTrue ifFalse s t within
    | print operand =>
      refine .bind (ih operand s t within) fun v w same => ?_
      rw [same.eq, Value.toNumber_rename]
      refine .bind (ofExcept v.toNumber) fun k k' equal => ?_
      subst equal
      refine .bind (sim.emit_lockstep k) fun _ _ _ => ?_
      exact .pure ⟨rfl, same.within⟩
    | read x => exact sim.evalRead (within x (List.mem_singleton_self x))

/-- An error that is noted on one side is noted on the other. -/
theorem noting {α β : Type} {V : α → β → Prop} {x : Run α} {y : Run β}
    (h : Proc.Lockstep (R s t) Eq V x y) (note : EvalError → Event) :
    Proc.Lockstep (R s t) Eq V (x.noting note) (y.noting note) := by
  intro m k related
  simp only [Run.noting]
  obtain ⟨hx, hy⟩ | ⟨o, o', hx, hy, agree, related'⟩ := Proc.rel_cases (h m k related) <;>
    rw [hx, hy]
  · exact .none
  · obtain ⟨⟨r, m'⟩, ⟨r', k'⟩⟩ := o, o'
    rcases agree with same | @⟨stop, _, rfl⟩
    · exact .some ⟨.ok same, related'⟩
    · cases stop with
      | error e => exact .some ⟨.error rfl, sim.log (note e) related'⟩
      | fault f => exact .some ⟨.error rfl, related'⟩

/-- Whole programs run in lockstep, and so do their records. -/
theorem runProgram (depth : Nat) (program : List Node)
    (within : ∀ x ∈ Node.namesAll program, x ∈ S) :
    Proc.Lockstep (R .root .root) Eq (Value.RenamesTo S π) (TreeWalk.runProgram depth program)
      (TreeWalk.runProgram depth (Node.renameAll π program)) := by
  unfold TreeWalk.runProgram
  rw [Node.length_renameAll]
  refine .bind (sim.record _) fun _ _ _ => .ensuring_modify ?_ fun _ _ => sim.log .runEnded
  exact sim.noting (evalBlock (sim.eval depth) program .root .root within) .runAborted

/-- **From machines that are alike, the two evaluations come to the same value or
the same reason to stop, and leave machines that are alike.** -/
theorem matchedAll (body : List Node) {m k : Machine} (related : R s t m k)
    (within : ∀ x ∈ Node.namesAll body, x ∈ S) :
    Matched
      (fun o o' => Proc.Agree (Value.RenamesTo S π) Eq o.1 o'.1 ∧ R s t o.2 o'.2)
      (EvaluatesAll body s m) (EvaluatesAll (Node.renameAll π body) t k) :=
  Proc.Lockstep.matched (fun depth => evalBlock (sim.eval depth) body s t within) related

theorem matched {n : Node} {m k : Machine} (related : R s t m k)
    (within : ∀ x ∈ n.names, x ∈ S) :
    Matched
      (fun o o' => Proc.Agree (Value.RenamesTo S π) Eq o.1 o'.1 ∧ R s t o.2 o'.2)
      (Evaluates n s m) (Evaluates (n.rename π) t k) := by
  have names : Node.namesAll [n] = n.names := List.append_nil _
  rw [← evaluatesAll_singleton, ← evaluatesAll_singleton]
  refine sim.matchedAll [n] related fun x hx => within x ?_
  rwa [names] at hx

end Machine.Simulation

/-- Of outcomes that agree, the second is the first with other names. -/
theorem Value.eq_map_of_agree {S : Set Name} {π : Name → Name} {r r' : Except Stop Value}
    (h : Proc.Agree (RenamesTo S π) Eq r r') : r' = r.map (Value.rename π) := by
  rcases h with same | same
  · rw [same.eq]
    rfl
  · rw [same]
    rfl

/-- Where no name is exchanged, outcomes that agree are the same. -/
theorem Value.eq_of_agree_id {S : Set Name} {r r' : Except Stop Value}
    (h : Proc.Agree (RenamesTo S id) Eq r r') : r' = r := by
  rw [eq_map_of_agree h, show Value.rename id = id from funext rename_id, Except.map_id, id_eq]

/-! ## The same input -/

/-- Machines with the same input take the same line from it. -/
theorem Run.readLine_lockstep {R : Machine → Machine → Prop}
    (input_eq : ∀ {m k}, R m k → k.input = m.input)
    (taken : ∀ {m k} (rest : Input), R m k → R { m with input := rest } { k with input := rest })
    (log : ∀ {m k} (e : Event), R m k → R (m.log e) (k.log e)) :
    Proc.Lockstep R Eq
      (Option.Rel fun line line' => Text.trim line'.toList = Text.trim line.toList)
      readLine readLine := by
  intro m k related
  simp only [readLine, input_eq related]
  rcases m.input.read with ⟨reading, rest⟩
  cases reading with
  | line text => exact .some ⟨.ok (.some rfl), log _ (taken rest related)⟩
  | exhausted => exact .some ⟨.ok .none, log _ (taken rest related)⟩
  | undecodable => exact .some ⟨.error rfl, taken rest related⟩

/-! ## The same environment -/

/-- A relation between machines that does not see the environment and that single
steps keep. -/
structure Machine.ChannelSimulation (P : Machine → Machine → Prop) : Prop where
  env {m k : Machine} (e e' : Environment) : P m k → P { m with env := e } { k with env := e' }
  log {m k : Machine} (e : Event) : P m k → P (m.log e) (k.log e)
  emit {m k : Machine} (n : Number) : P m k →
    P { m with output := m.output.emit n } { k with output := k.output.emit n }
  readLine :
    Proc.Lockstep P Eq
      (Option.Rel fun line line' => Text.trim line'.toList = Text.trim line.toList)
      Run.readLine Run.readLine

/-- The machines have the same environment, seen from the same scope, and the same
names; their channels are related by `P`. -/
structure Machine.SharesEnv (P : Machine → Machine → Prop) (s t : ScopeId) (m k : Machine) :
    Prop where
  scope_eq : s = t
  env_eq : k.env = m.env
  names_eq : k.names = m.names
  channels : P m k

/-- Taking a line leaves the environment and the names alone. -/
theorem Run.readLine_env {m m' : Machine} {r : Except Stop (Option String)}
    (run : readLine.run m = some (r, m')) : m'.env = m.env ∧ m'.names = m.names := by
  simp only [readLine] at run
  split at run <;> cases run <;> exact ⟨rfl, rfl⟩

namespace Machine.ChannelSimulation

variable {P : Machine → Machine → Prop} (sim : ChannelSimulation P)

include sim

/-- Where the environment is shared, the channels are all that is left to look
at. -/
theorem simulation : Simulation Set.univ id (SharesEnv P) where
  scopes := by
    rintro s _ m k ⟨rfl, env_eq, -, -⟩
    by_cases live : m.env.IsLive s
    · exact .inl ⟨live, env_eq ▸ live⟩
    · exact .inr ⟨rfl, live, env_eq ▸ live⟩
  text := by
    rintro s _ m k x ⟨-, -, names_eq, -⟩ -
    rw [names_eq, id_eq]
  get := by
    rintro s _ m k x ⟨rfl, env_eq, -, -⟩ -
    rw [env_eq, id_eq]
    cases m.env.get? s x with
    | none => exact .none
    | some v => exact .some (Value.renamesTo_id_iff.mpr rfl)
  set := by
    rintro s _ m k x v env env' ⟨rfl, env_eq, names_eq, channels⟩ - - bound bound'
    rw [env_eq, Value.rename_id, id_eq, bound] at bound'
    cases bound'
    exact ⟨rfl, rfl, names_eq, sim.env env env channels⟩
  log e related := ⟨related.1, related.2, related.3, sim.log e related.4⟩
  emit n related := ⟨related.1, related.2, related.3, sim.emit n related.4⟩
  readLine s t := by
    rintro m k ⟨rfl, env_eq, names_eq, channels⟩
    obtain ⟨hm, hk⟩ | ⟨o, o', hm, hk, agree, channels'⟩ :=
      Proc.rel_cases (sim.readLine m k channels) <;> rw [hm, hk]
    · exact .none
    · obtain ⟨env_eq', names_eq'⟩ := Run.readLine_env hm
      obtain ⟨env_eq'', names_eq''⟩ := Run.readLine_env hk
      refine .some ⟨agree, rfl, ?_, ?_, channels'⟩
      · rw [env_eq'', env_eq, env_eq']
      · rw [names_eq'', names_eq, names_eq']
  enter := by
    rintro s _ m k bindings ⟨rfl, env_eq, names_eq, channels⟩ - - -
    unfold Machine.enter
    rw [env_eq, Bindings.rename_id]
    exact ⟨rfl, rfl, names_eq, sim.log _ (sim.env _ _ channels)⟩
  resume := by
    rintro s _ m m' k k' ⟨rfl, env_eq, names_eq, -⟩ ⟨-, -, names_eq', channels⟩
    unfold Machine.resume
    rw [env_eq]
    exact ⟨rfl, rfl, names_eq', sim.log _ (sim.env _ _ channels)⟩

/-- **Evaluations from one environment come to the same value or the same reason to
stop, and to one environment again**, whatever the channels have in common. -/
theorem matchedAll_of_env_eq {body : List Node} {s : ScopeId} {m k : Machine} (channels : P m k)
    (env_eq : k.env = m.env) (names_eq : k.names = m.names) :
    Matched
      (fun o o' => o'.1 = o.1 ∧ o'.2.env = o.2.env ∧ o'.2.names = o.2.names ∧ P o.2 o'.2)
      (EvaluatesAll body s m) (EvaluatesAll body s k) := by
  have start : SharesEnv P s s m k := ⟨rfl, env_eq, names_eq, channels⟩
  have both := sim.simulation.matchedAll body start fun x _ => Set.mem_univ x
  rw [Node.renameAll_id] at both
  refine both.imp fun o o' ⟨agree, after⟩ => ?_
  exact ⟨Value.eq_of_agree_id agree, after.env_eq, after.names_eq, after.channels⟩

theorem matched_of_env_eq {n : Node} {s : ScopeId} {m k : Machine} (channels : P m k)
    (env_eq : k.env = m.env) (names_eq : k.names = m.names) :
    Matched
      (fun o o' => o'.1 = o.1 ∧ o'.2.env = o.2.env ∧ o'.2.names = o.2.names ∧ P o.2 o'.2)
      (Evaluates n s m) (Evaluates n s k) := by
  rw [← evaluatesAll_singleton, ← evaluatesAll_singleton]
  exact sim.matchedAll_of_env_eq channels env_eq names_eq

end Machine.ChannelSimulation

end TreeWalk
