import TreeWalk.Proofs.Repertoire

/-!
# Evaluation where there is no scope

A host may evaluate in a scope that is gone.  Nothing is found there and nothing can be bound
there, and that leaves little to an evaluation: it computes with the numbers in its tree, it
prints, and at the first name, read or definition it stops.  **No function ever comes up**, so
nothing is called, and the evaluation follows the tree and ends.

## Main definitions

* `Node.spine`: a tree without what only a call could reach
* `Run.Inert`: how a run goes in a scope that is gone, together with a second run that goes
  alike

## Main statements

* `eval_inert`: an evaluation in a scope that is gone is inert, and so is that of the spine
* `evaluates_in_dead_scope`: what evaluation in a scope that is gone can do

## Design notes

That arguments and bodies are not evaluated is said by taking them away.  The record notes
every tree that is entered; if the evaluation of a tree and that of any other with the same
spine leave the same record, in any environment whatsoever, then no argument was entered, nor
the body of any function.
-/

namespace TreeWalk

/-! ## Trees without arguments and bodies -/

namespace Node

mutual

/-- A tree without the arguments of calls, of which only the number is left, and without the
bodies of the functions that it defines. -/
def spine : Node → Node
  | .number k => .number k
  | .reference x => .reference x
  | .unary op operand => .unary op operand.spine
  | .binary op left right => .binary op left.spine right.spine
  | .literal params body => .literal params (spineAll body)
  | .define x params _ => .define x params []
  | .call callee args => .call callee.spine (args.map fun _ => .number 0)
  | .conditional condition ifTrue ifFalse =>
    .conditional condition.spine (spineAll ifTrue) (spineBranch ifFalse)
  | .print operand => .print operand.spine
  | .read x => .read x

/-- The spines of several trees. -/
def spineAll : List Node → List Node
  | [] => []
  | n :: rest => n.spine :: spineAll rest

/-- The spines of a branch that may be missing. -/
def spineBranch : Option (List Node) → Option (List Node)
  | none => none
  | some body => some (spineAll body)

end

@[simp] theorem kind_spine (n : Node) : n.spine.kind = n.kind := by
  cases n <;> rfl

theorem spineAll_eq_nil_iff {body : List Node} : spineAll body = [] ↔ body = [] := by
  cases body <;> simp [spineAll]

/-- A condition chooses the same branch of the spine. -/
theorem chooseBranch_spine (c : Number) (ifTrue : List Node) (ifFalse : Option (List Node)) :
    chooseBranch c (spineAll ifTrue) (spineBranch ifFalse) =
      spineAll (chooseBranch c ifTrue ifFalse) := by
  unfold chooseBranch
  simp only [ne_eq, spineAll_eq_nil_iff]
  split
  · rfl
  · cases ifFalse <;> rfl

end Node

/-! ## Values that cannot be called -/

namespace Value

/-- A number or `void`. -/
def IsData (v : Value) : Prop := v.isFunction = false

theorem IsData.cases {v : Value} (h : v.IsData) : (∃ k, v = .number k) ∨ v = .void := by
  cases v with
  | number k => exact .inl ⟨k, rfl⟩
  | function f => cases h
  | void => exact .inr rfl

theorem IsData.toFunction_eq {v : Value} (h : v.IsData) :
    toFunction v = .error (.notCallable v.typeName) := by
  cases v with
  | function f => cases h
  | number | void => rfl

/-- What operators come to is a number. -/
theorem isData_of_map_number {r : Except EvalError Number} {v : Value}
    (h : r.map Value.number = .ok v) : v.IsData := by
  cases r with
  | error e => cases h
  | ok k =>
    cases h
    rfl

end Value

namespace Run

variable {α β : Type} {s : ScopeId} {V : α → Prop} {W : β → Prop}

/-! ## Inert runs -/

/-- How a run from `m` can end in the scope `s`, which is gone.  It leaves the environment alone
in any case. -/
inductive EndsInertly (s : ScopeId) (V : α → Prop) (m : Machine) :
    Except Stop α → Machine → Prop where
  /-- It came to a result that `V` allows, and nothing was read. -/
  | result {a : α} {m' : Machine} :
      V a → m'.env = m.env → m'.input = m.input → EndsInertly s V m (.ok a) m'
  /-- The program went wrong, after one attempt to read at most. -/
  | error {e : EvalError} {m' : Machine} :
      m'.env = m.env → (m'.input = m.input ∨ m'.input = m.input.read.2) →
        EndsInertly s V m (.error (.error e)) m'
  /-- Something was to be bound in the scope. -/
  | fault {m' : Machine} :
      m'.env = m.env → (m'.input = m.input ∨ m'.input = m.input.read.2) →
        EndsInertly s V m (.error (.fault (.deadScope s))) m'

namespace EndsInertly

variable {m m₁ m' : Machine} {r : Except Stop α}

theorem env_eq (h : EndsInertly s V m r m') : m'.env = m.env := by
  cases h <;> assumption

theorem input_read (h : EndsInertly s V m r m') :
    m'.input = m.input ∨ m'.input = m.input.read.2 := by
  cases h with
  | result _ _ input => exact .inl input
  | error _ input => exact input
  | fault _ input => exact input

/-- Only environment and input matter at the start. -/
theorem of_eq (h : EndsInertly s V m₁ r m') (env : m₁.env = m.env) (input : m₁.input = m.input) :
    EndsInertly s V m r m' := by
  cases h with
  | result allowed env' input' => exact .result allowed (env'.trans env) (input'.trans input)
  | error env' input' => exact .error (env'.trans env) (input ▸ input')
  | fault env' input' => exact .fault (env'.trans env) (input ▸ input')

theorem log (h : EndsInertly s V m r m') (e : Event) : EndsInertly s V m r (m'.log e) := by
  cases h with
  | result allowed env input => exact .result allowed env input
  | error env input => exact .error env input
  | fault env input => exact .fault env input

end EndsInertly

/-- Wherever the scope `s` is gone, `x` ends inertly, and in every other environment without
that scope `y` does just the same. -/
def Inert (s : ScopeId) (V : α → Prop) (x y : Run α) : Prop :=
  ∀ m env, ¬ m.env.IsLive s → ¬ env.IsLive s → ∃ r m',
    x.run m = some (r, m') ∧ y.run { m with env := env } = some (r, { m' with env := env }) ∧
      EndsInertly s V m r m'

/-- Nothing can be bound in a scope that is gone. -/
theorem run_assign_of_not_isLive {m : Machine} (gone : ¬ m.env.IsLive s) (x : Name) (v : Value) :
    (assign s x v).run m = some (.error (.fault (.deadScope s)), m) := by
  have refused : m.env.set s x v = .error (.deadScope s) := if_neg gone
  simp only [assign, refused]

namespace Inert

theorem bind {x y : Run α} {f g : α → Run β} (hxy : Inert s V x y)
    (hfg : ∀ a, V a → Inert s W (f a) (g a)) : Inert s W (x >>= f) (y >>= g) := by
  intro m env gone gone'
  obtain ⟨r, m₁, hx, hy, ends⟩ := hxy m env gone gone'
  cases ends with
  | @result a _ allowed same unread =>
    -- Nothing was read so far, so the one attempt is still to come.
    have still : ¬ m₁.env.IsLive s := same ▸ gone
    obtain ⟨r, m', hf, hg, ends'⟩ := hfg a allowed m₁ env still gone'
    exact ⟨r, m', (Proc.run_bind_of_ok hx f).trans hf, (Proc.run_bind_of_ok hy g).trans hg,
      ends'.of_eq same unread⟩
  | error same read =>
    exact ⟨_, m₁, Proc.run_bind_of_error hx f, Proc.run_bind_of_error hy g, .error same read⟩
  | fault same read =>
    exact ⟨_, m₁, Proc.run_bind_of_error hx f, Proc.run_bind_of_error hy g, .fault same read⟩

/-- A step that does not use the machine. -/
theorem ofExcept {r : Except EvalError α} (h : ∀ a, r = .ok a → V a) :
    Inert s V (ofExcept r) (ofExcept r) := by
  intro m env _ _
  refine ⟨r.mapError .error, m, rfl, rfl, ?_⟩
  cases r with
  | error e => exact .error rfl (.inl rfl)
  | ok a => exact .result (h a rfl) rfl rfl

theorem pure {a : α} (h : V a) : Inert s V (Pure.pure a) (Pure.pure a) :=
  fun m _ _ _ => ⟨.ok a, m, rfl, rfl, .result h rfl rfl⟩

/-- What comes after an error does not matter. -/
theorem error_bind (e : EvalError) (f g : α → Run β) :
    Inert s W (Run.ofExcept (.error e) >>= f) (Run.ofExcept (.error e) >>= g) :=
  fun m _ _ _ => ⟨.error (.error e), m, rfl, rfl, .error rfl (.inl rfl)⟩

theorem record (e : Event) : Inert s (fun _ => True) (record e) (record e) :=
  fun m _ _ _ => ⟨.ok (), m.log e, rfl, rfl, .result trivial rfl rfl⟩

theorem emit (k : Number) : Inert s (fun _ => True) (emit k) (emit k) :=
  fun m _ _ _ => ⟨.ok (), { m with output := m.output.emit k }.log (.printed k), rfl, rfl,
    .result trivial rfl rfl⟩

/-- Nothing is found. -/
theorem lookup (x : Name) {V : Value → Prop} : Inert s V (lookup s x) (lookup s x) := by
  intro m env gone gone'
  refine ⟨.error (.error (.undefinedVariable (m.names.lookup x))), m, ?_, ?_,
    .error rfl (.inl rfl)⟩
  · simp only [Run.lookup, Environment.get?_of_not_isLive gone]
  · simp only [Run.lookup, Environment.get?_of_not_isLive gone']

/-- Nothing is bound, and what was to come after does not matter. -/
theorem assign_bind (x : Name) (v w : Value) (f g : Unit → Run β) :
    Inert s W (assign s x v >>= f) (assign s x w >>= g) := by
  intro m env gone gone'
  exact ⟨_, m, Proc.run_bind_of_error (run_assign_of_not_isLive gone x v) f,
    Proc.run_bind_of_error (run_assign_of_not_isLive gone' x w) g, .fault rfl (.inl rfl)⟩

/-- A read makes its attempt and then stops in any case: where there is a number, it cannot be
bound. -/
theorem evalRead (x : Name) {V : Value → Prop} : Inert s V (evalRead x s) (evalRead x s) := by
  intro m env gone gone'
  rcases read : m.input.read with ⟨reading, rest⟩
  have attempt : rest = m.input.read.2 := by rw [read]
  have read' : { m with env := env }.input.read = (reading, rest) := read
  cases reading with
  | line text =>
    rw [TreeWalk.evalRead, Proc.run_bind_of_ok (run_readLine_line read),
      Proc.run_bind_of_ok (run_readLine_line read')]
    dsimp only
    split
    · exact ⟨_, _, rfl, rfl, .error rfl (.inr attempt)⟩
    · next k _ =>
      refine ⟨_, { m with input := rest }.log (.lineRead (some text)),
        Proc.run_bind_of_error (run_assign_of_not_isLive ?_ x (.number k)) _,
        Proc.run_bind_of_error (run_assign_of_not_isLive ?_ x (.number k)) _,
        .fault rfl (.inr attempt)⟩
      · exact gone
      · exact gone'
  | exhausted =>
    exact ⟨_, _, run_evalRead_exhausted read, run_evalRead_exhausted read',
      .error rfl (.inr attempt)⟩
  | undecodable =>
    exact ⟨_, _, Proc.run_bind_of_error (run_readLine_undecodable read) _,
      Proc.run_bind_of_error (run_readLine_undecodable read') _, .error rfl (.inr attempt)⟩

/-- Notes at the start and at the end, however the run ends. -/
theorem noted {x y : Run α} (hxy : Inert s V x y) (before after : Event) :
    Inert s V (do Run.record before; x.ensuring (Run.record after))
      (do Run.record before; y.ensuring (Run.record after)) := by
  refine bind (record before) fun _ _ m env gone gone' => ?_
  obtain ⟨r, m', hx, hy, ends⟩ := hxy m env gone gone'
  refine ⟨r, m'.log after, ?_, ?_, ends.log after⟩
  · rw [Run.record, Proc.run_ensuring_modify, hx, Option.map_some]
  · rw [Run.record, Proc.run_ensuring_modify, hy, Option.map_some]
    rfl

/-! ## Evaluation -/

section

variable {ev : Evaluator}

theorem evalFrom {last : Value} (h : last.IsData) (body : List Node)
    (hev : ∀ p ∈ body, Inert s Value.IsData (ev p s) (ev p.spine s)) :
    Inert s Value.IsData (evalFrom ev s last body) (evalFrom ev s last (Node.spineAll body)) := by
  induction body generalizing last with
  | nil => exact pure h
  | cons n rest ih =>
    rw [List.forall_mem_cons] at hev
    exact bind hev.1 fun v hv => ih hv hev.2

theorem evalBlock (body : List Node)
    (hev : ∀ p ∈ body, Inert s Value.IsData (ev p s) (ev p.spine s)) :
    Inert s Value.IsData (evalBlock ev body s) (evalBlock ev (Node.spineAll body) s) :=
  evalFrom (show Value.IsData .void from rfl) body hev

theorem evalBody (params : List Name) (body : List Node)
    (hev : ∀ p ∈ body, Inert s Value.IsData (ev p s) (ev p.spine s)) :
    Inert s Value.IsData (evalBody ev ⟨params, body⟩ s)
      (evalBody ev ⟨params, Node.spineAll body⟩ s) := by
  cases body with
  | nil => exact pure rfl
  | cons n rest => exact evalBlock (n :: rest) hev

/-- A call does not get beyond its callee. -/
theorem evalCall (callee : Node) (args : List Node)
    (hev : Inert s Value.IsData (ev callee s) (ev callee.spine s)) :
    Inert s Value.IsData (evalCall ev callee args s)
      (evalCall ev callee.spine (args.map fun _ => .number 0) s) := by
  unfold TreeWalk.evalCall
  rw [Node.kind_spine, List.length_map]
  refine noted (bind hev fun v hv => ?_) _ _
  rw [hv.toFunction_eq]
  exact error_bind _ _ _

/-- One step of evaluation is inert if the evaluation of the parts is. -/
theorem evalNode (n : Node)
    (hev : ∀ p ∈ n.parts, Inert s Value.IsData (ev p s) (ev p.spine s)) :
    Inert s Value.IsData (evalNode ev n s) (evalNode ev n.spine s) := by
  unfold TreeWalk.evalNode
  rw [Node.kind_spine]
  refine bind (record _) fun _ _ => ?_
  cases n with
  | number k => exact pure rfl
  | reference x => exact lookup x
  | unary op operand =>
    refine bind (hev operand (.head _)) fun v _ => ofExcept fun w hw => ?_
    rw [op.evaluate_eq_map] at hw
    exact Value.isData_of_map_number hw
  | binary op left right =>
    refine bind (hev left (.head _)) fun l _ => ?_
    refine bind (hev right (.tail _ (.head _))) fun r _ => ofExcept fun w hw => ?_
    rw [op.evaluate_eq_map] at hw
    exact Value.isData_of_map_number hw
  | literal params body => exact evalBody params body hev
  | define x params body => exact assign_bind x _ _ _ _
  | call callee args => exact evalCall callee args (hev callee (.head _))
  | conditional condition ifTrue ifFalse =>
    refine bind (hev condition (.head _)) fun v _ => ?_
    refine bind (V := fun _ => True) (ofExcept fun _ _ => trivial) fun c _ => ?_
    rw [Node.chooseBranch_spine]
    refine evalBlock _ fun p hp => hev p (.tail _ ?_)
    exact Node.chooseBranch_subset c ifTrue ifFalse hp
  | print operand =>
    refine bind (hev operand (.head _)) fun v hv => ?_
    refine bind (V := fun _ => True) (ofExcept fun _ _ => trivial) fun k _ => ?_
    exact bind (emit k) fun _ _ => pure hv
  | read x => exact evalRead x

end

end Inert

end Run

/-- **In a scope that is gone every evaluation is inert**, and that of the spine goes alike.
The size of the tree bounds the depth. -/
theorem eval_inert {depth : Nat} {n : Node} (bound : sizeOf n < depth) (s : ScopeId) :
    Run.Inert s Value.IsData (eval depth n s) (eval depth n.spine s) := by
  induction depth generalizing n with
  | zero => exact absurd bound (Nat.not_lt_zero _)
  | succ depth ih =>
    refine .evalNode n fun p hp => ih ?_
    have smaller := Node.sizeOf_lt_of_mem_parts hp
    omega

/-- **Evaluation in a scope that is gone is harmless.**  It always ends, and in one way only: it
comes to a number or to `void`, or stops with an error of the program, or with the fault of
binding in that very scope.  The environment is as it was, and of the lines that wait in a
queue at most one is gone.  Every tree with the same spine, in every environment without the
scope, is evaluated alike, down to the record of the trees that were entered: so no argument of
a call was evaluated, and no body of a function. -/
theorem evaluates_in_dead_scope {m : Machine} {s : ScopeId} (gone : ¬ m.env.IsLive s) (n : Node) :
    ∃ r m', (∀ o, Evaluates n s m o ↔ o = (r, m')) ∧
      ((∃ k, r = .ok (.number k)) ∨ r = .ok .void ∨ (∃ e, r = .error (.error e)) ∨
        r = .error (.fault (.deadScope s))) ∧
      m'.env = m.env ∧
      (∀ lines, m.input = .queue lines → ∃ k ≤ 1, m'.input = .queue (lines.drop k)) ∧
      ∀ n' env, n'.spine = n.spine → ¬ env.IsLive s →
        Evaluates n' s { m with env := env } (r, { m' with env := env }) := by
  have inert (n : Node) := eval_inert (Nat.lt_succ_self (sizeOf n)) s
  obtain ⟨r, m', run, -, ends⟩ := inert n m m.env gone gone
  have evaluates : Evaluates n s m (r, m') := ⟨_, run⟩
  refine ⟨r, m', fun o => ⟨fun h => h.unique evaluates, ?_⟩, ?_, ends.env_eq,
    fun lines queue => ?_, fun n' env same gone' => ?_⟩
  · rintro rfl
    exact evaluates
  · cases ends with
    | result data =>
      rcases data.cases with ⟨k, rfl⟩ | rfl
      · exact .inl ⟨k, rfl⟩
      · exact .inr (.inl rfl)
    | error => exact .inr (.inr (.inl ⟨_, rfl⟩))
    | fault => exact .inr (.inr (.inr rfl))
  · rcases ends.input_read with unread | read
    · exact ⟨0, Nat.zero_le _, unread.trans queue⟩
    · refine ⟨1, Nat.le_refl _, read.trans ?_⟩
      rw [queue]
      cases lines <;> rfl
  · -- Both trees are evaluated like the spine that they share.
    obtain ⟨r₁, m₁, run₁, spine₁, ends₁⟩ := inert n' { m with env := env } env gone' gone'
    obtain ⟨r₂, m₂, run₂, spine₂, -⟩ := inert n m env gone gone'
    have unchanged : { m₁ with env := env } = m₁ := by
      have here : m₁.env = env := ends₁.env_eq
      rw [← here]
    rw [same, unchanged] at spine₁
    rw [Evaluates.unique ⟨_, spine₁⟩ ⟨_, spine₂⟩] at run₁
    cases evaluates.unique ⟨_, run₂⟩
    exact ⟨_, run₁⟩

/-- A call in a scope that is gone prints while its callee is evaluated, and gets no further: it
is the same with another argument and in another environment, and no line is used up.  A read
there uses up one of two lines, and finds a number that it cannot bind. -/
theorem evaluates_in_dead_scope_call_and_read :
    let m : Machine := ⟨.initial, .initial, .queue ["5", "6"], .captured "", #[]⟩
    let env : Environment := .ofBindings [(⟨4⟩, .function ⟨[], []⟩)]
    let n : Node → Node := fun arg => .call (.print (.number 2)) [arg]
    ¬ m.env.IsLive ⟨7⟩ ∧ ¬ env.IsLive ⟨7⟩ ∧
      (∃ m', Evaluates (n (.read ⟨3⟩)) ⟨7⟩ m (.error (.error (.notCallable "number")), m') ∧
        m'.input = .queue ["5", "6"] ∧
        Evaluates (n (.call (.reference ⟨4⟩) [])) ⟨7⟩ { m with env := env }
          (.error (.error (.notCallable "number")), { m' with env := env })) ∧
      ∃ m', Evaluates (.read ⟨3⟩) ⟨7⟩ m (.error (.fault (.deadScope ⟨7⟩)), m') ∧
        m'.env = .initial ∧ m'.input = .queue ["6"] := by
  intro m env n
  have gone : ¬ m.env.IsLive ⟨7⟩ := by decide
  have gone' : ¬ env.IsLive ⟨7⟩ := by decide
  refine ⟨gone, gone', ?_, ?_⟩
  · obtain ⟨r, m', outcome, -, -, -, alike⟩ := evaluates_in_dead_scope gone (n (.read ⟨3⟩))
    obtain ⟨m₁, run, input⟩ : ∃ m₁, (eval 3 (n (.read ⟨3⟩)) ⟨7⟩).run m =
        some (.error (.error (.notCallable "number")), m₁) ∧ m₁.input = .queue ["5", "6"] :=
      ⟨_, rfl, rfl⟩
    cases (outcome _).mp ⟨3, run⟩
    exact ⟨_, ⟨3, run⟩, input, alike (n (.call (.reference ⟨4⟩) [])) env rfl gone'⟩
  · obtain ⟨r, m', outcome, -, same, -, -⟩ := evaluates_in_dead_scope gone (.read ⟨3⟩)
    obtain ⟨m₁, run, input⟩ : ∃ m₁, (eval 1 (.read ⟨3⟩) ⟨7⟩).run m =
        some (.error (.fault (.deadScope ⟨7⟩)), m₁) ∧ m₁.input = .queue ["6"] := ⟨_, rfl, rfl⟩
    cases (outcome _).mp ⟨1, run⟩
    exact ⟨_, ⟨1, run⟩, same, input⟩

end TreeWalk
