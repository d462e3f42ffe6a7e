import TreeWalk.Proofs.Provenance

/-!
# Programs that end

An evaluation need not end: a function may call itself, and which function a call goes on with
is decided by the environment, which the evaluation itself changes.  **Where no function calls
anything, every evaluation ends**, though the tree itself may call as often as it likes, with
calls as callees and as arguments.  For whatever function comes up, it was bound at the start
or is defined in the tree, so that its body makes no call; such a body is evaluated by going
down the tree, and so is the tree around the calls.

## Main definitions

* `Function.CallFree`: a function without calls, at any depth
* `Repertoire.plain`: trees that define only such functions
* `Repertoire.Settles`: a run that comes to an outcome under all bounds that are large enough

## Main statements

* `Repertoire.Settles.eval`: a tree settles if the calls of functions from its repertoire do
* `evaluates_of_callFree`: evaluation ends where functions make no calls

## Design notes

One induction serves twice.  It goes over the size of a tree and takes for granted that calls
settle; trees without calls take nothing for granted, and calls of functions whose bodies are
such trees then settle too.  No bound on the depth is computed: it depends on the bodies that
are met, and these only come up as the evaluation proceeds.
-/

namespace TreeWalk

/-! ## Functions without calls -/

/-- Nowhere in the function is anything called, not even in the functions that it defines. -/
def Function.CallFree (f : Function) : Prop := ∀ t ∈ f.subtrees, t.kind ≠ .functionCall

instance (f : Function) : Decidable f.CallFree := inferInstanceAs (Decidable (∀ _ ∈ _, _))

namespace Node

mutual

/-- A tree inside of a tree brings nothing but trees inside of it. -/
theorem subtrees_subset_of_mem : ∀ {n t : Node}, t ∈ n.subtrees → t.subtrees ⊆ n.subtrees
  | .number _, t, h | .reference _, t, h | .read _, t, h => by
    rw [List.mem_singleton.mp h]
    exact List.Subset.refl _
  | .unary _ operand, t, h | .print operand, t, h => by
    rcases List.mem_cons.mp h with rfl | inside
    · exact List.Subset.refl _
    · exact List.subset_cons_of_subset _ (subtrees_subset_of_mem inside)
  | .literal _ body, t, h | .define _ _ body, t, h => by
    rcases List.mem_cons.mp h with rfl | inside
    · exact List.Subset.refl _
    · exact List.subset_cons_of_subset _ (subtreesAll_subset_of_mem inside)
  | .binary _ left right, t, h => by
    rcases List.mem_cons.mp h with rfl | inside
    · exact List.Subset.refl _
    · refine List.subset_cons_of_subset _ ?_
      rcases List.mem_append.mp inside with inLeft | inRight
      · exact List.subset_append_of_subset_left _ (subtrees_subset_of_mem inLeft)
      · exact List.subset_append_of_subset_right _ (subtrees_subset_of_mem inRight)
  | .call callee args, t, h => by
    rcases List.mem_cons.mp h with rfl | inside
    · exact List.Subset.refl _
    · refine List.subset_cons_of_subset _ ?_
      rcases List.mem_append.mp inside with inCallee | inArgs
      · exact List.subset_append_of_subset_left _ (subtrees_subset_of_mem inCallee)
      · exact List.subset_append_of_subset_right _ (subtreesAll_subset_of_mem inArgs)
  | .conditional condition ifTrue ifFalse, t, h => by
    rcases List.mem_cons.mp h with rfl | inside
    · exact List.Subset.refl _
    · refine List.subset_cons_of_subset _ ?_
      rcases List.mem_append.mp inside with inCondition | inside
      · exact List.subset_append_of_subset_left _ (subtrees_subset_of_mem inCondition)
      · refine List.subset_append_of_subset_right _ ?_
        rcases List.mem_append.mp inside with inTrue | inFalse
        · exact List.subset_append_of_subset_left _ (subtreesAll_subset_of_mem inTrue)
        · exact List.subset_append_of_subset_right _ (subtreesBranch_subset_of_mem inFalse)

theorem subtreesAll_subset_of_mem :
    ∀ {body : List Node} {t : Node}, t ∈ subtreesAll body → t.subtrees ⊆ subtreesAll body
  | [], _, h => nomatch h
  | n :: rest, t, h => by
    rcases List.mem_append.mp h with first | others
    · exact List.subset_append_of_subset_left _ (subtrees_subset_of_mem first)
    · exact List.subset_append_of_subset_right _ (subtreesAll_subset_of_mem others)

theorem subtreesBranch_subset_of_mem :
    ∀ {branch : Option (List Node)} {t : Node},
      t ∈ subtreesBranch branch → t.subtrees ⊆ subtreesBranch branch
  | none, _, h => nomatch h
  | some _, _, h => subtreesAll_subset_of_mem h

end

end Node

/-! ## Procedures that always end -/

/-- The procedure has an outcome in every state. -/
def Proc.Total {σ ε α : Type} (x : Proc σ ε α) : Prop := ∀ s, ∃ o, x.run s = some o

namespace Proc.Total

variable {σ ε α β : Type}

theorem ofExcept (r : Except ε α) : Total (Proc.ofExcept r : Proc σ ε α) := fun _ => ⟨_, rfl⟩

theorem modify (f : σ → σ) : Total (Proc.modify f : Proc σ ε Unit) := fun _ => ⟨_, rfl⟩

theorem bind {x : Proc σ ε α} {f : α → Proc σ ε β} (hx : Total x) (hf : ∀ a, Total (f a)) :
    Total (x >>= f) := by
  intro s
  obtain ⟨⟨r, s'⟩, run⟩ := hx s
  rcases r with e | a
  · exact ⟨_, run_bind_of_error run f⟩
  · rw [run_bind_of_ok run]
    exact hf a s'

end Proc.Total

namespace Run

theorem total_lookup (s : ScopeId) (x : Name) : Proc.Total (lookup s x) := by
  intro m
  simp only [lookup]
  split <;> exact ⟨_, rfl⟩

theorem total_assign (s : ScopeId) (x : Name) (v : Value) : Proc.Total (assign s x v) := by
  intro m
  simp only [assign]
  split <;> exact ⟨_, rfl⟩

theorem total_assignAll (s : ScopeId) (bindings : Bindings) :
    Proc.Total (assignAll s bindings) := by
  induction bindings with
  | nil => exact .ofExcept (.ok ())
  | cons b rest ih => exact .bind (total_assign s b.1 b.2) fun _ => ih

theorem total_pushScope (parent : ScopeId) : Proc.Total (pushScope parent) := by
  intro m
  simp only [pushScope]
  split <;> exact ⟨_, rfl⟩

theorem total_popScope (s : ScopeId) : Proc.Total (popScope s) := by
  intro m
  simp only [popScope]
  split
  · split <;> exact ⟨_, rfl⟩
  · exact ⟨_, rfl⟩

theorem total_readLine : Proc.Total readLine := by
  intro m
  simp only [readLine]
  split <;> exact ⟨_, rfl⟩

theorem total_evalRead (x : Name) (s : ScopeId) : Proc.Total (evalRead x s) :=
  evalRead_of_parts (P := fun _ y => Proc.Total y) .bind (fun v => .ofExcept (.ok v))
    total_readLine (fun _ _ => ⟨_, rfl⟩) fun k => total_assign s x (.number k)

end Run

/-! ## Repertoires without calls in functions -/

namespace Repertoire

/-- The trees that define only functions without calls, and these functions.  The trees
themselves may call. -/
def plain : Repertoire where
  trees := {n | ∀ x params body, .define x params body ∈ n.subtrees →
    Function.CallFree ⟨params, body⟩}
  functions := {f | f.CallFree}
  part_mem h part x params body mem :=
    h x params body (Node.subtrees_subset_of_mem_parts part mem)
  define_mem h := h _ _ _ (Node.mem_subtrees_self _)
  body_mem hf hn x params body mem t ht := by
    have inside : t ∈ (Node.define x params body).subtrees := List.mem_cons_of_mem _ ht
    have inBody := Node.subtrees_subset_of_mem mem inside
    exact hf t (Node.subtrees_subset_subtreesAll hn inBody)

/-! ## Runs that settle -/

variable {α β : Type} {R : Repertoire} {V : α → Prop} {W : β → Prop}

/-- From every machine whose functions are from the repertoire, `x` comes to an outcome, the
same one under all bounds that are large enough.  The functions are from the repertoire then
too, and a result is as `V` says. -/
def Settles (R : Repertoire) (V : α → Prop) (x : Nat → Run α) : Prop :=
  ∀ m, m.env.FunctionsIn R.functions → ∃ enough r m',
    (∀ depth, enough ≤ depth → (x depth).run m = some (r, m')) ∧
      m'.env.FunctionsIn R.functions ∧ ∀ a, r = .ok a → V a

/-- To call a function from the repertoire in the scope `s` settles, whatever the arguments
are. -/
def CallsSettle (R : Repertoire) (ev : Nat → Evaluator) (s : ScopeId) : Prop :=
  ∀ f ∈ R.functions, ∀ values, (∀ v ∈ values, v ∈ R.values) →
    R.Settles (· ∈ R.values) fun depth => applyFunction (ev depth) f values s

namespace Settles

/-- A step without a bound settles if it always has an outcome. -/
theorem of_total {x : Run α} (h : R.Obeys (fun _ _ _ => True) V x) (total : Proc.Total x) :
    R.Settles V fun _ => x := by
  intro m known
  obtain ⟨⟨r, m'⟩, run⟩ := total m
  obtain ⟨known', -, result⟩ := h m known r m' run
  exact ⟨0, r, m', fun _ _ => run, known', result⟩

theorem bind {x : Nat → Run α} {f : Nat → α → Run β} (hx : R.Settles V x)
    (hf : ∀ a, V a → R.Settles W fun depth => f depth a) :
    R.Settles W fun depth => x depth >>= f depth := by
  intro m known
  obtain ⟨d, r, m₁, first, known₁, result⟩ := hx m known
  rcases r with e | a
  · exact ⟨d, .error e, m₁, fun depth large => Proc.run_bind_of_error (first depth large) _,
      known₁, noResult⟩
  · obtain ⟨d', r, m', second, known', result'⟩ := hf a (result a rfl) m₁ known₁
    refine ⟨max d d', r, m', fun depth large => ?_, known', result'⟩
    rw [Proc.run_bind_of_ok (first depth (by omega))]
    exact second depth (by omega)

theorem ensuring {x : Nat → Run α} {last : Run Unit} (hx : R.Settles V x)
    (hlast : R.Settles (fun _ => True) fun _ => last) :
    R.Settles V fun depth => (x depth).ensuring last := by
  intro m known
  obtain ⟨d, r, m₁, first, known₁, result⟩ := hx m known
  obtain ⟨d', r', m₂, second, known₂, -⟩ := hlast m₁ known₁
  have atEnd : last.run m₁ = some (r', m₂) := second d' (Nat.le_refl _)
  rcases r' with e | _
  · refine ⟨d, .error e, m₂, fun depth large => ?_, known₂, noResult⟩
    simp only [Proc.ensuring, first depth large, atEnd]
  · refine ⟨d, r, m₂, fun depth large => ?_, known₂, result⟩
    simp only [Proc.ensuring, first depth large, atEnd]

theorem pure {a : α} (h : V a) : R.Settles V fun _ => Pure.pure a :=
  of_total (R.law_true.pure h) (.ofExcept (.ok a))

theorem ofExcept {r : Except EvalError α} (h : EvalError.OnlyOfValues r)
    (result : ∀ a, r = .ok a → V a) : R.Settles V fun _ => Run.ofExcept r :=
  of_total (R.law_true.ofExcept h result) (.ofExcept _)

theorem record (e : Event) : R.Settles (fun _ => True) fun _ => Run.record e :=
  of_total (R.law_true.record e) (.modify _)

theorem popScope (s : ScopeId) : R.Settles (fun _ => True) fun _ => Run.popScope s := by
  refine of_total (fun m known r m' run => ?_) (Run.total_popScope s)
  simp only [Run.popScope] at run
  split at run
  · split at run
    · next env popped =>
      cases run
      exact ⟨known.pop popped, trivial, fun _ _ => trivial⟩
    · cases run
      exact ⟨known, trivial, fun _ _ => trivial⟩
  · cases run
    exact ⟨known, trivial, fun _ _ => trivial⟩

/-- A body in a scope of its own settles if it does so in every scope. -/
theorem withScope (parent : ScopeId) {bindings : Bindings}
    (bound : ∀ b ∈ bindings, b.2 ∈ R.values) {body : Nat → ScopeId → Run α}
    (h : ∀ s, R.Settles V fun depth => body depth s) :
    R.Settles V fun depth => Run.withScope parent bindings (body depth) := by
  refine bind (of_total (R.law_true.pushScope parent) (Run.total_pushScope parent)) fun s _ => ?_
  have assigned := of_total (R.law_true.assignAll s bound) (Run.total_assignAll s bindings)
  exact ensuring (bind assigned fun _ _ => h s) (popScope s)

/-! ## Evaluation -/

section

variable {ev : Nat → Evaluator} {s : ScopeId}

theorem evalFrom {last : Value} (known : last ∈ R.values) (body : List Node)
    (hev : ∀ p ∈ body, R.Settles (· ∈ R.values) fun depth => ev depth p s) :
    R.Settles (· ∈ R.values) fun depth => evalFrom (ev depth) s last body := by
  induction body generalizing last with
  | nil => exact pure known
  | cons n rest ih =>
    rw [List.forall_mem_cons] at hev
    exact bind hev.1 fun v hv => ih hv hev.2

theorem evalBlock (body : List Node)
    (hev : ∀ p ∈ body, R.Settles (· ∈ R.values) fun depth => ev depth p s) :
    R.Settles (· ∈ R.values) fun depth => evalBlock (ev depth) body s :=
  evalFrom R.void_mem body hev

theorem evalBody (f : Function)
    (hev : ∀ p ∈ f.body, R.Settles (· ∈ R.values) fun depth => ev depth p s) :
    R.Settles (· ∈ R.values) fun depth => evalBody (ev depth) f s := by
  obtain ⟨params, body⟩ := f
  cases body with
  | nil => exact pure (R.number_mem 0)
  | cons n rest => exact evalBlock (n :: rest) hev

theorem evalArgs (args : List Node)
    (hev : ∀ p ∈ args, R.Settles (· ∈ R.values) fun depth => ev depth p s) :
    R.Settles (fun vs => ∀ v ∈ vs, v ∈ R.values) fun depth => evalArgs (ev depth) s args := by
  induction args with
  | nil => exact pure nofun
  | cons n rest ih =>
    rw [List.forall_mem_cons] at hev
    refine bind hev.1 fun v hv => bind (ih hev.2) fun vs hvs => ?_
    exact pure (List.forall_mem_cons.mpr ⟨hv, hvs⟩)

/-- To apply a function settles if its body does. -/
theorem applyFunction {f : Function} {args : List Value} (h : ∀ v ∈ args, v ∈ R.values)
    (hbody : ∀ t, R.Settles (· ∈ R.values) fun depth => TreeWalk.evalBody (ev depth) f t) :
    R.Settles (· ∈ R.values) fun depth => applyFunction (ev depth) f args s := by
  have noted : R.Settles (fun _ => True) fun _ => noteArity f args := by
    unfold noteArity
    split
    · exact pure trivial
    · exact record _
  refine bind noted fun _ _ => withScope s ?_ hbody
  rintro ⟨x, v⟩ mem
  exact h v (List.of_mem_zip mem).2

theorem evalCall (callee : Node) (args : List Node)
    (hev : ∀ p ∈ callee :: args, R.Settles (· ∈ R.values) fun depth => ev depth p s)
    (calls : R.CallsSettle ev s) :
    R.Settles (· ∈ R.values) fun depth => evalCall (ev depth) callee args s := by
  rw [List.forall_mem_cons] at hev
  refine bind (record _) fun _ _ => ensuring ?_ (record _)
  refine bind hev.1 fun v hv => ?_
  refine bind (ofExcept (V := (· ∈ R.functions)) (.toFunction v) fun f hf => ?_) fun f hf => ?_
  · cases v with
    | function g =>
      cases hf
      exact hv f rfl
    | number | void => cases hf
  · exact bind (evalArgs args hev.2) fun values hvalues => calls f hf values hvalues

/-- One step of evaluation settles if the evaluation of the parts does, and if calls do. -/
theorem evalNode {n : Node} (mem : n ∈ R.trees)
    (hev : ∀ p ∈ n.parts, R.Settles (· ∈ R.values) fun depth => ev depth p s)
    (calls : n.kind = .functionCall → R.CallsSettle ev s) :
    R.Settles (· ∈ R.values) fun depth => evalNode (ev depth) n s := by
  refine bind (record _) fun _ _ => ?_
  cases n with
  | number k => exact pure (R.number_mem k)
  | reference x => exact of_total (R.law_true.lookup_obeys s mem) (Run.total_lookup s x)
  | unary op operand =>
    refine bind (hev operand (.head _)) fun v _ => ?_
    refine ofExcept (.unaryEvaluate op v) fun w hw => ?_
    rw [op.evaluate_eq_map] at hw
    exact mem_of_map_number hw
  | binary op left right =>
    refine bind (hev left (.head _)) fun l _ => ?_
    refine bind (hev right (.tail _ (.head _))) fun r _ => ?_
    refine ofExcept (.binaryEvaluate op l r) fun w hw => ?_
    rw [op.evaluate_eq_map] at hw
    exact mem_of_map_number hw
  | literal params body => exact evalBody ⟨params, body⟩ hev
  | define x params body =>
    have defined := function_mem (R.define_mem mem)
    exact bind (of_total (R.law_true.assign s x defined) (Run.total_assign s x _)) fun _ _ =>
      pure defined
  | call callee args => exact evalCall callee args hev (calls rfl)
  | conditional condition ifTrue ifFalse =>
    refine bind (hev condition (.head _)) fun v _ => ?_
    refine bind (ofExcept (V := fun _ => True) (.toNumber v) fun _ _ => trivial) fun c _ => ?_
    refine evalBlock _ fun p hp => hev p (.tail _ ?_)
    exact Node.chooseBranch_subset c ifTrue ifFalse hp
  | print operand =>
    refine bind (hev operand (.head _)) fun v hv => ?_
    refine bind (ofExcept (V := fun _ => True) (.toNumber v) fun _ _ => trivial) fun k _ => ?_
    exact bind (of_total (R.law_true.emit_obeys k mem) (.modify _)) fun _ _ => pure hv
  | read x => exact of_total (R.law_true.evalRead s mem) (Run.total_evalRead x s)

end

/-- **A tree settles if the calls of functions from its repertoire do.**  Trees that do not call
settle in any case. -/
theorem eval (s : ScopeId) {n : Node} (mem : n ∈ R.trees)
    (calls : ∀ p ∈ R.trees, p.kind = .functionCall → R.CallsSettle TreeWalk.eval s) :
    R.Settles (· ∈ R.values) fun depth => eval depth n s := by
  -- By induction on the size of the tree.  The bodies that are called are no parts of it, and
  -- they are what `calls` is about.
  induction hn : sizeOf n using Nat.strongRecOn generalizing n with
  | ind size ih =>
    subst hn
    have parts : ∀ p ∈ n.parts, R.Settles (· ∈ R.values) fun depth => TreeWalk.eval depth p s :=
      fun p hp => ih (sizeOf p) (Node.sizeOf_lt_of_mem_parts hp) (R.part_mem mem hp) rfl
    intro m known
    obtain ⟨enough, r, m', run, known', result⟩ := evalNode mem parts (calls n mem) m known
    refine ⟨enough + 1, r, m', fun depth large => ?_, known', result⟩
    obtain ⟨d, rfl⟩ : ∃ d, depth = d + 1 := ⟨depth - 1, by omega⟩
    exact run d (by omega)

end Settles

/-- A body without calls settles. -/
theorem settles_evalBody_of_callFree {f : Function} (h : f.CallFree) (s : ScopeId) :
    plain.Settles (· ∈ plain.values) fun depth => evalBody (eval depth) f s := by
  let R := ofSubtrees fun t => t.kind ≠ .functionCall
  have body : ∀ p ∈ f.body, p ∈ R.trees := fun p hp => R.body_mem (f := f) h hp
  have settles : R.Settles (· ∈ R.values) fun depth => evalBody (eval depth) f s :=
    Settles.evalBody f fun p hp => Settles.eval s (body p hp) fun q mem call =>
      absurd call (mem q (Node.mem_subtrees_self q))
  -- The functions of both repertoires are those without calls, and nothing else matters here.
  exact settles

/-- A tree that defines only functions without calls settles. -/
theorem settles_eval_of_plain {n : Node} (mem : n ∈ plain.trees) (s : ScopeId) :
    plain.Settles (· ∈ plain.values) fun depth => eval depth n s :=
  .eval s mem fun _ _ _ _ hf _ hvalues =>
    .applyFunction hvalues fun t => settles_evalBody_of_callFree hf t

end Repertoire

/-- **Where functions make no calls, evaluation ends.**  No function that the tree defines, and
none that some scope binds, contains a call at any depth; the tree itself may contain any.  Then
its evaluation, in a scope that is there, comes to a value or to an error of the program. -/
theorem evaluates_of_callFree {n : Node} {s : ScopeId} {m : Machine} (live : m.env.IsLive s)
    (defined : ∀ x params body, .define x params body ∈ n.subtrees →
      Function.CallFree ⟨params, body⟩)
    (bound : m.env.FunctionsIn {f | f.CallFree}) :
    ∃ r m', Evaluates n s m (r, m') ∧ ((∃ v, r = .ok v) ∨ ∃ e, r = .error (.error e)) := by
  obtain ⟨enough, r, m', run, -⟩ := Repertoire.settles_eval_of_plain defined s m bound
  have ends := run enough (Nat.le_refl _)
  exact ⟨r, m', ⟨enough, ends⟩, (eval_confined enough n s).ok_or_error live ends⟩

/-- A function that prints its argument is bound at the start.  The tree calls it on the result of
a call, whose callee is defined on the spot and whose argument comes from a literal that calls
the first function too, and reads. -/
theorem evaluates_of_callFree_nested_calls :
    let g : Function := ⟨[⟨2⟩], [.print (.reference ⟨2⟩)]⟩
    let m : Machine :=
      ⟨.initial, .ofBindings [(⟨1⟩, .function g)], .queue ["4"], .captured "", #[]⟩
    let double : Node := .define ⟨3⟩ [⟨2⟩] [.binary .add (.reference ⟨2⟩) (.reference ⟨2⟩)]
    let n : Node := .call (.reference ⟨1⟩)
      [.call double [.literal [] [.call (.reference ⟨1⟩) [.number 5], .read ⟨4⟩]]]
    m.env.IsLive .root ∧
      (∀ x params body, .define x params body ∈ n.subtrees → Function.CallFree ⟨params, body⟩) ∧
      m.env.FunctionsIn {f | f.CallFree} ∧
      ∃ r m', Evaluates n .root m (r, m') ∧ ((∃ v, r = .ok v) ∨ ∃ e, r = .error (.error e)) := by
  intro g m double n
  have live : m.env.IsLive .root := by decide
  have defined : ∀ x params body, .define x params body ∈ n.subtrees →
      Function.CallFree ⟨params, body⟩ := by
    have only : Function.CallFree ⟨[⟨2⟩], [.binary .add (.reference ⟨2⟩) (.reference ⟨2⟩)]⟩ := by
      decide
    intro x params body mem
    simp only [n, double, Node.subtrees, Node.subtreesAll, List.mem_cons, List.mem_append,
      List.not_mem_nil, reduceCtorEq, or_false, false_or, Node.define.injEq] at mem
    obtain ⟨rfl, rfl, rfl⟩ := mem
    exact only
  have bound : m.env.FunctionsIn {f | f.CallFree} := by
    have only : g.CallFree := by decide
    refine .of_frames ?_
    simpa [m, Environment.ofBindings, Bindings.assignAll, Bindings.assign] using only
  exact ⟨live, defined, bound, evaluates_of_callFree live defined bound⟩

end TreeWalk
