import TreeWalk.Proofs.Confinement
import TreeWalk.Proofs.Flat
import TreeWalk.Proofs.Lockstep

/-!
# Scopes implement views

Evaluation in an arena of frames and flat evaluation are the same thing seen from
two sides.  A scope stands for the view that a lookup from it gives; binding in
the scope updates the view; entering a call gives the new scope a copy of the
view with the parameters bound anew; and leaving the call brings back the
environment, hence the view, of the caller.

## Main definitions

* `Machine.Represents`: a machine, seen from a scope that is there, stands for a
  flat state

## Main statements

* `eval_lockstep`: under every bound, the two evaluations run in lockstep
* `evaluates_iff_flat`: they come to the same outcomes

## Design notes

The relation is the same before and after a step, and it is generalised over the
scope.  That is what carries it through a call: the body runs in lockstep in the
new scope, and by confinement nothing of it is left in the old one.
-/

namespace TreeWalk

/-- Seen from the scope `s`, which is there, the machine stands for the flat state
`st`. -/
structure Machine.Represents (names : NameTable) (s : ScopeId) (m : Machine) (st : Flat) :
    Prop where
  names_eq : m.names = names
  wellFormed : m.env.WellFormed
  live : m.env.IsLive s
  flatten_eq : m.flatten s = st

/-- A run stops with the error that a flat run stops with. -/
def Stop.IsError (stop : Stop) (e : EvalError) : Prop := stop = .error e

/-- A run in the scope `s` and a flat run come to the same results and errors. -/
abbrev Run.Implements {α : Type} (names : NameTable) (s : ScopeId) (x : Run α) (y : Flat.Run α) :
    Prop :=
  Proc.Lockstep (Machine.Represents names s) Stop.IsError Eq x y

/-! ## Entering a scope -/

/-- Bindings that are made one after another in a frame shadow what was there. -/
theorem Bindings.or_find?_assignAll (bs : Bindings) (more : List (Name × Value))
    (view : Name → Option Value) (y : Name) :
    ((bs.assignAll more).find? y).or (view y) =
      Flat.override (fun z => (bs.find? z).or (view z)) more y := by
  induction more generalizing bs with
  | nil => rfl
  | cons b rest ih =>
    have first : (fun z => ((bs.assign b.1 b.2).find? z).or (view z)) =
        Function.update (fun z => (bs.find? z).or (view z)) b.1 (some b.2) := by
      funext z
      rw [find?_assign]
      by_cases hz : z = b.1
      · rw [if_pos hz, Option.some_or, hz, Function.update_self]
      · rw [if_neg hz, Function.update_of_ne hz]
    rw [Flat.override, List.foldl_cons, ← first]
    exact ih (bs.assign b.1 b.2)

namespace Environment

variable {env : Environment} {parent : ScopeId}

theorem own?_enter_self (env : Environment) (parent : ScopeId) (bindings : Bindings) (y : Name) :
    (env.enter parent bindings).own? ⟨env.depth⟩ y =
      (Bindings.assignAll [] bindings).find? y := by
  simp [own?, enter, depth]

theorem parent?_enter_self (env : Environment) (parent : ScopeId) (bindings : Bindings) :
    (env.enter parent bindings).parent? ⟨env.depth⟩ = some parent := by
  simp [parent?, enter, depth]

/-- Entering a scope keeps the arena well-formed: it differs from a push only in
what the new frame binds. -/
theorem WellFormed.enter (wf : env.WellFormed) (live : env.IsLive parent) (bindings : Bindings) :
    (env.enter parent bindings).WellFormed := by
  have pushed := push_eq_ok_iff.mpr
    ⟨live, rfl, (rfl : _ = (⟨env.frames.push ⟨[], some parent⟩⟩ : Environment))⟩
  have depth_eq := (env.depth_enter parent bindings).trans (depth_push pushed).symm
  refine (wf.push pushed).of_parent?_eq ?_ (Nat.le_of_eq depth_eq) fun t inside => ?_
  · rw [depth_enter]
    exact Nat.succ_pos _
  · have bound : t.index < env.depth + 1 := env.depth_enter parent bindings ▸ inside
    rcases Nat.lt_succ_iff_lt_or_eq.mp bound with older | newest
    · exact parent?_congr ((env.getElem?_frames_enter parent bindings older).trans
        (getElem?_frames_push pushed older).symm)
    · obtain rfl : t = ⟨env.depth⟩ := congrArg ScopeId.mk newest
      exact (env.parent?_enter_self parent bindings).trans (parent?_push_self pushed).symm

/-- **A new scope sees a copy of its parent's view, with the given names bound
anew.** -/
theorem WellFormed.get?_enter (wf : env.WellFormed) (live : env.IsLive parent)
    (bindings : Bindings) :
    (env.enter parent bindings).get? ⟨env.depth⟩ = Flat.override (env.get? parent) bindings := by
  funext y
  have outer : (env.enter parent bindings).get? parent y = env.get? parent y :=
    wf.get?_congr (wf.enter live bindings) y parent fun i hi =>
      env.getElem?_frames_enter parent bindings (Nat.lt_of_le_of_lt hi live)
  rw [(wf.enter live bindings).get?_eq, own?_enter_self, parent?_enter_self, Option.bind_some,
    outer]
  exact Bindings.or_find?_assignAll [] bindings (env.get? parent) y

end Environment

/-! ## Primitive steps -/

namespace Run

variable {α : Type} {names : NameTable} {s : ScopeId}

/-- What only the record sees is not seen at all. -/
theorem represents_log (e : Event) (m : Machine) (st : Flat) (h : m.Represents names s st) :
    (m.log e).Represents names s st :=
  ⟨h.names_eq, h.wellFormed, h.live, h.flatten_eq⟩

theorem implements_ofExcept (r : Except EvalError α) :
    Implements names s (ofExcept r) (Proc.ofExcept r) := by
  refine .ofExcept ?_
  cases r with
  | error e => exact .error rfl
  | ok a => exact .ok rfl

theorem implements_lookup (x : Name) : Implements names s (lookup s x) (Flat.lookup names x) := by
  rintro m _ ⟨rfl, wf, live, rfl⟩
  simp only [lookup, Flat.lookup, Machine.flatten]
  cases found : m.env.get? s x with
  | none => exact .some ⟨.error rfl, rfl, wf, live, rfl⟩
  | some v => exact .some ⟨.ok rfl, rfl, wf, live, rfl⟩

/-- Binding in a scope updates the view of the scope. -/
theorem implements_assign (x : Name) (v : Value) :
    Implements names s (assign s x v) (Flat.assign x v) := by
  rintro m _ ⟨rfl, wf, live, rfl⟩
  obtain ⟨env, bound⟩ : ∃ env, m.env.set s x v = .ok env :=
    ⟨_, Environment.set_eq_ok_iff.mpr ⟨live, rfl⟩⟩
  have view : env.get? s = Function.update (m.env.get? s) x (some v) := by
    funext y
    rw [wf.get?_set bound, Function.update_apply]
  have still : env.IsLive s := by
    rw [Environment.IsLive, ← Environment.depth, Environment.depth_set bound]
    exact live
  simp only [assign, bound]
  exact .some ⟨.ok rfl, rfl, wf.set bound, still, congrArg (Flat.mk · m.input m.output) view⟩

theorem implements_emit (n : Number) : Implements names s (emit n) (Flat.emit n) := by
  rintro m _ ⟨rfl, wf, live, rfl⟩
  exact .some ⟨.ok rfl, rfl, wf, live, rfl⟩

theorem implements_readLine : Implements names s readLine Flat.readLine := by
  rintro m _ ⟨rfl, wf, live, rfl⟩
  simp only [readLine, Flat.readLine, Machine.flatten]
  rcases m.input.read with ⟨reading, rest⟩
  cases reading with
  | line text => exact .some ⟨.ok rfl, rfl, wf, live, rfl⟩
  | exhausted => exact .some ⟨.ok rfl, rfl, wf, live, rfl⟩
  | undecodable => exact .some ⟨.error rfl, rfl, wf, live, rfl⟩

/-- **A body in a new scope is a body on a copy of the view.** -/
theorem implements_withScope {body : ScopeId → Run α} {flat : Flat.Run α} (bindings : Bindings)
    (confined : ∀ t, Confined Set.univ t (body t)) (h : ∀ t, Implements names t (body t) flat) :
    Implements names s (withScope s bindings body) (Flat.onCopy bindings flat) := by
  rintro m _ ⟨rfl, wf, live, rfl⟩
  have entered : (m.enter s bindings).Represents m.names ⟨m.env.depth⟩
      { m.flatten s with view := Flat.override (m.env.get? s) bindings } :=
    ⟨rfl, wf.enter live bindings, m.isLive_enter s bindings,
      congrArg (Flat.mk · m.input m.output) (wf.get?_enter live bindings)⟩
  have inner := h ⟨m.env.depth⟩ _ _ entered
  rw [run_withScope_of_confined live bindings (confined _)]
  exact Proc.rel_map inner fun o o' both =>
    ⟨both.1, both.2.names_eq, wf, live, congrArg (fun st => { st with view := m.env.get? s })
      both.2.flatten_eq⟩

end Run

/-! ## Evaluation -/

section

variable {names : NameTable} {depth : Nat}
  (ih : ∀ n s, Run.Implements names s (eval depth n s) (Flat.eval names depth n))

include ih

theorem evalFrom_lockstep (s : ScopeId) (last : Value) (body : List Node) :
    Run.Implements names s (evalFrom (eval depth) s last body)
      (body.foldlM (fun _ n => Flat.eval names depth n) last) := by
  induction body generalizing last with
  | nil => exact .pure rfl
  | cons n rest rest_ih =>
    rw [List.foldlM_cons]
    refine .bind (ih n s) fun v _ same => ?_
    subst same
    exact rest_ih v

theorem evalBlock_lockstep (body : List Node) (s : ScopeId) :
    Run.Implements names s (evalBlock (eval depth) body s)
      (Flat.block (Flat.eval names depth) body) :=
  evalFrom_lockstep ih s .void body

theorem evalBody_lockstep (f : Function) (s : ScopeId) :
    Run.Implements names s (evalBody (eval depth) f s) (Flat.body (Flat.eval names depth) f) := by
  unfold evalBody Flat.body
  split
  · next empty =>
    rw [if_pos empty]
    exact .pure rfl
  · next n rest body =>
    rw [if_neg (by rw [body]; exact List.cons_ne_nil n rest), body]
    exact evalBlock_lockstep ih (n :: rest) s

theorem evalArgs_lockstep (s : ScopeId) (args : List Node) :
    Run.Implements names s (evalArgs (eval depth) s args)
      (args.mapM (Flat.eval names depth)) := by
  induction args with
  | nil => exact .pure rfl
  | cons n rest rest_ih =>
    rw [List.mapM_cons]
    refine .bind (ih n s) fun v _ same => .bind rest_ih fun vs _ same' => ?_
    subst same same'
    exact .pure rfl

theorem applyFunction_lockstep (f : Function) (args : List Value) (s : ScopeId) :
    Run.Implements names s (applyFunction (eval depth) f args s)
      (Flat.onCopy (f.params.zip args) (Flat.body (Flat.eval names depth) f)) := by
  have confined : ∀ t, Run.Confined Set.univ t (evalBody (eval depth) f t) := fun t =>
    Run.confined_compositional.evalBody (Run.confined_compositional.eval depth) f t
      fun _ _ => Set.mem_univ _
  have called : Run.Implements names s (Run.withScope s (f.params.zip args) (evalBody _ f)) _ :=
    Run.implements_withScope (f.params.zip args) confined (evalBody_lockstep ih f)
  unfold applyFunction noteArity
  split
  · exact called
  · exact .modify_bind_left called (Run.represents_log _)

theorem evalCall_lockstep (callee : Node) (args : List Node) (s : ScopeId) :
    Run.Implements names s (evalCall (eval depth) callee args s)
      (Flat.eval names (depth + 1) (.call callee args)) := by
  refine .modify_bind_left (.ensuring_modify_left ?_ (Run.represents_log _))
    (Run.represents_log _)
  refine .bind (ih callee s) fun v _ same => ?_
  subst same
  refine .bind (Run.implements_ofExcept (toFunction v)) fun f _ same => ?_
  subst same
  refine .bind (evalArgs_lockstep ih s args) fun values _ same => ?_
  subst same
  exact applyFunction_lockstep ih f values s

theorem evalConditional_lockstep (condition : Node) (ifTrue : List Node)
    (ifFalse : Option (List Node)) (s : ScopeId) :
    Run.Implements names s (evalConditional (eval depth) condition ifTrue ifFalse s)
      (Flat.eval names (depth + 1) (.conditional condition ifTrue ifFalse)) := by
  refine .bind (ih condition s) fun v _ same => ?_
  subst same
  refine .bind (Run.implements_ofExcept v.toNumber) fun c _ same => ?_
  subst same
  exact evalBlock_lockstep ih (chooseBranch c ifTrue ifFalse) s

end

theorem evalRead_lockstep {names : NameTable} (x : Name) (s : ScopeId) :
    Run.Implements names s (evalRead x s) (Flat.read x) := by
  refine .bind Run.implements_readLine fun line _ same => ?_
  subst same
  cases line with
  | none => exact .ofExcept (.error rfl)
  | some line =>
    dsimp only
    cases Number.ofGrouped? (Text.trim line.toList) with
    | none => exact .ofExcept (.error rfl)
    | some n =>
      refine .bind (Run.implements_assign x _) fun _ _ _ => ?_
      exact .pure rfl

/-- **Under every bound on the depth, evaluation in a scope and flat evaluation run
in lockstep.** -/
theorem eval_lockstep {names : NameTable} (depth : Nat) (n : Node) (s : ScopeId) :
    Run.Implements names s (eval depth n s) (Flat.eval names depth n) := by
  induction depth generalizing n s with
  | zero => exact .noOutcome
  | succ depth ih =>
    refine .modify_bind_left ?_ (Run.represents_log _)
    cases n with
    | number k => exact .pure rfl
    | reference x => exact Run.implements_lookup x
    | unary op operand =>
      refine .bind (ih operand s) fun v _ same => ?_
      subst same
      exact Run.implements_ofExcept (op.evaluate v)
    | binary op left right =>
      refine .bind (ih left s) fun l _ same => .bind (ih right s) fun r _ same' => ?_
      subst same same'
      exact Run.implements_ofExcept (op.evaluate l r)
    | literal params body => exact evalBody_lockstep ih ⟨params, body⟩ s
    | define x params body =>
      refine .bind (Run.implements_assign x _) fun _ _ _ => ?_
      exact .pure rfl
    | call callee args => exact evalCall_lockstep ih callee args s
    | conditional condition ifTrue ifFalse =>
      exact evalConditional_lockstep ih condition ifTrue ifFalse s
    | print operand =>
      refine .bind (ih operand s) fun v _ same => ?_
      subst same
      refine .bind (Run.implements_ofExcept v.toNumber) fun k _ same => ?_
      subst same
      refine .bind (Run.implements_emit k) fun _ _ _ => ?_
      exact .pure rfl
    | read x => exact evalRead_lockstep x s

theorem Stop.agree_iff {α : Type} {r : Except Stop α} {r' : Except EvalError α} :
    Proc.Agree Eq Stop.IsError r r' ↔ r = r'.mapError Stop.error := by
  constructor
  · rintro (rfl | rfl) <;> rfl
  · rintro rfl
    cases r' with
    | error e => exact .error rfl
    | ok a => exact .ok rfl

theorem Stop.mapError_injective {α : Type} :
    Function.Injective (Except.mapError Stop.error : Except EvalError α → Except Stop α) := by
  intro r r' same
  cases r <;> cases r' <;> cases same <;> rfl

/-- **Scopes implement views.**  In every reachable environment and every scope
that is there, an evaluation comes to a value or an error, with some input left
and some output, exactly if flat evaluation from the view of that scope does; and
the view of the scope afterwards is then the view that flat evaluation leaves.
An evaluation comes to nothing else. -/
theorem evaluates_iff_flat {m : Machine} {s : ScopeId} (reachable : m.env.Reachable)
    (live : m.env.IsLive s) (n : Node) :
    (∀ (r : Except EvalError Value) (st : Flat),
      (∃ m', Evaluates n s m (r.mapError Stop.error, m') ∧ m'.env.get? s = st.view ∧
        m'.input = st.input ∧ m'.output = st.output) ↔
      Flat.Evaluates m.names n ⟨m.env.get? s, m.input, m.output⟩ (r, st)) ∧
    ∀ r m', Evaluates n s m (r, m') →
      ∃ r' : Except EvalError Value, r = r'.mapError Stop.error := by
  have start : m.Represents m.names s (m.flatten s) := ⟨rfl, reachable.wellFormed, live, rfl⟩
  have forward : ∀ {r m'}, Evaluates n s m (r, m') → ∃ r' : Except EvalError Value,
      r = r'.mapError Stop.error ∧ Flat.Evaluates m.names n (m.flatten s) (r', m'.flatten s) := by
    rintro r m' ⟨depth, run⟩
    obtain ⟨r', st, flat, agree, after⟩ := (eval_lockstep depth n s).exists_right start run
    refine ⟨r', Stop.agree_iff.mp agree, depth, ?_⟩
    rw [flat, after.flatten_eq]
  refine ⟨fun r st => ⟨?_, ?_⟩, fun r m' h => ?_⟩
  · rintro ⟨m', h, view, input, output⟩
    obtain ⟨r', same, flat⟩ := forward h
    obtain rfl : r = r' := Stop.mapError_injective same
    obtain rfl : m'.flatten s = st := by rw [Machine.flatten, view, input, output]
    exact flat
  · rintro ⟨depth, flat⟩
    obtain ⟨r', m', run, agree, after⟩ := (eval_lockstep depth n s).exists_left start flat
    have same := after.flatten_eq
    subst same
    exact ⟨m', ⟨depth, Stop.agree_iff.mp agree ▸ run⟩, rfl, rfl, rfl⟩
  · obtain ⟨r', same, -⟩ := forward h
    exact ⟨r', same⟩

/-- A call in the outermost scope, below another frame.  The body prints its
parameter, which shadows a name of the caller, defines a name of its own, and then
fails to read.  The view of the caller is as before but for the function that was
called; what was printed stays. -/
theorem evaluates_iff_flat_failing_body :
    let env : Environment := ⟨#[⟨[(⟨1⟩, .number 7)], none⟩, ⟨[], some .root⟩]⟩
    let m : Machine := ⟨.initial, env, .queue [], .captured "", #[]⟩
    let f : Function := ⟨[⟨1⟩], [.print (.reference ⟨1⟩), .define ⟨3⟩ [] [], .read ⟨1⟩]⟩
    let n : Node := .call (.define ⟨2⟩ f.params f.body) [.number 5]
    m.env.Reachable ∧ m.env.IsLive .root ∧
      ∃ m', Evaluates n .root m (.error (.error .inputExhausted), m') ∧
        m'.env.get? .root = Function.update (env.get? .root) ⟨2⟩ (some (.function f)) ∧
        m'.input = .queue [] ∧ m'.output = (Output.captured "").emit 5 := by
  intro env m f n
  have reachable : m.env.Reachable := by
    have pushed : (Environment.ofBindings [(⟨1⟩, .number 7)]).push .root = .ok (⟨1⟩, env) := rfl
    exact (Environment.Reachable.ofBindings _).push pushed
  have live : m.env.IsLive .root := by decide
  have flat : Flat.Evaluates m.names n ⟨m.env.get? .root, m.input, m.output⟩
      (.error .inputExhausted, ⟨Function.update (env.get? .root) ⟨2⟩ (some (.function f)),
        .queue [], (Output.captured "").emit 5⟩) := ⟨4, rfl⟩
  exact ⟨reachable, live, ((evaluates_iff_flat reachable live n).1 _ _).mpr flat⟩

end TreeWalk
