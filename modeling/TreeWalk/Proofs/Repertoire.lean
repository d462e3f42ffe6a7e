import TreeWalk.Proofs.Arena
import TreeWalk.Proofs.Lookahead
import TreeWalk.Proofs.Naming

/-!
# What an evaluation can meet

A call goes on with a function that was bound somewhere, by someone, and the tree
at hand does not show its body.  But functions do not come out of nothing.  **Every
function that an evaluation meets was bound at the start, or is defined in the tree
or in a function that it met before.**  So a stock of trees and functions which
holds the tree and the functions of the start, and is closed under parts, holds
everything there is to evaluate.  What the trees of the stock can do to the channels,
and which errors they can give rise to, is then all that can happen.

## Main definitions

* `Node.parts`: the trees that are evaluated with a tree, in the same scope
* `Node.subtrees`: all trees inside of a tree, the bodies of functions included
* `Repertoire`: trees and functions that an evaluation cannot leave
* `Repertoire.ofSubtrees`: those all of whose subtrees have a property
* `Environment.FunctionsIn`: every function that is bound is from a set
* `Repertoire.Law`: a law about the channels and the stops of runs that the trees
  of a repertoire obey

## Main statements

* `Repertoire.Law.eval`: then every evaluation of a tree from the repertoire obeys the
  law, and comes to no function from elsewhere

## Design notes

**Nothing is asked of the scope**: it may be gone, in which case an attempt to bind in
it is a fault.  A law has to put up with faults wherever they come.

A law does not look at scopes or at the record, and those change most often.  What is
left are a few steps: a number is printed, a line is taken, a name is not found, an
operator meets a value that it cannot work with.
-/

namespace TreeWalk

/-! ## Parts and subtrees -/

namespace Node

/-- The trees that are evaluated with a tree, in the same scope.  The body of a
definition is none of them: it waits until it is called. -/
def parts : Node → List Node
  | .unary _ operand => [operand]
  | .binary _ left right => [left, right]
  | .literal _ body => body
  | .call callee args => callee :: args
  | .conditional condition ifTrue ifFalse => condition :: (ifTrue ++ ifFalse.getD [])
  | .print operand => [operand]
  | .number _ | .reference _ | .define .. | .read _ => []

mutual

/-- A tree and all trees inside of it, the bodies of functions included. -/
def subtrees : Node → List Node
  | .number k => [.number k]
  | .reference x => [.reference x]
  | .unary op operand => .unary op operand :: operand.subtrees
  | .binary op left right => .binary op left right :: (left.subtrees ++ right.subtrees)
  | .literal params body => .literal params body :: subtreesAll body
  | .define x params body => .define x params body :: subtreesAll body
  | .call callee args => .call callee args :: (callee.subtrees ++ subtreesAll args)
  | .conditional condition ifTrue ifFalse =>
    .conditional condition ifTrue ifFalse ::
      (condition.subtrees ++ (subtreesAll ifTrue ++ subtreesBranch ifFalse))
  | .print operand => .print operand :: operand.subtrees
  | .read x => [.read x]

/-- The subtrees of several trees. -/
def subtreesAll : List Node → List Node
  | [] => []
  | n :: rest => n.subtrees ++ subtreesAll rest

/-- The subtrees of a branch that may be missing. -/
def subtreesBranch : Option (List Node) → List Node
  | none => []
  | some body => subtreesAll body

end

theorem mem_subtrees_self (n : Node) : n ∈ n.subtrees := by
  cases n <;> exact List.mem_cons_self

theorem subtreesAll_eq_flatMap (body : List Node) : subtreesAll body = body.flatMap subtrees := by
  induction body with
  | nil => rfl
  | cons n rest ih => rw [subtreesAll, ih, List.flatMap_cons]

theorem subtreesBranch_eq (branch : Option (List Node)) :
    subtreesBranch branch = subtreesAll (branch.getD []) := by
  cases branch <;> rfl

theorem subtrees_subset_subtreesAll {n : Node} {body : List Node} (h : n ∈ body) :
    n.subtrees ⊆ subtreesAll body := by
  rw [subtreesAll_eq_flatMap]
  exact fun t ht => List.mem_flatMap.mpr ⟨n, h, ht⟩

/-- The subtrees of a part are subtrees of the whole. -/
theorem subtrees_subset_of_mem_parts {n p : Node} (h : p ∈ n.parts) :
    p.subtrees ⊆ n.subtrees := by
  suffices ∀ n : Node, subtreesAll n.parts ⊆ n.subtrees from
    fun t ht => this n (subtrees_subset_subtreesAll h ht)
  intro n t ht
  cases n with
  | number | reference | define | read => cases ht
  | unary | print =>
    simp only [parts, subtreesAll, List.append_nil] at ht
    exact List.mem_cons_of_mem _ ht
  | binary =>
    simp only [parts, subtreesAll, List.append_nil] at ht
    exact List.mem_cons_of_mem _ ht
  | literal => exact List.mem_cons_of_mem _ ht
  | call => exact List.mem_cons_of_mem _ ht
  | conditional condition ifTrue ifFalse =>
    have split : subtreesAll (ifTrue ++ ifFalse.getD []) =
        subtreesAll ifTrue ++ subtreesBranch ifFalse := by
      rw [subtreesBranch_eq]
      simp only [subtreesAll_eq_flatMap, List.flatMap_append]
    rw [parts, subtreesAll, split] at ht
    exact List.mem_cons_of_mem _ ht

/-- The branch that a condition chooses is among the parts. -/
theorem chooseBranch_subset (c : Number) (ifTrue : List Node) (ifFalse : Option (List Node)) :
    chooseBranch c ifTrue ifFalse ⊆ ifTrue ++ ifFalse.getD [] := by
  unfold chooseBranch
  split
  · exact List.subset_append_left _ _
  · exact List.subset_append_right _ _

/-- A part is smaller than the whole. -/
theorem sizeOf_lt_of_mem_parts {n p : Node} (h : p ∈ n.parts) : sizeOf p < sizeOf n := by
  have inside {body : List Node} (mem : p ∈ body) : sizeOf p < sizeOf body :=
    List.sizeOf_lt_of_mem mem
  cases n with
  | number | reference | define | read => cases h
  | unary op operand =>
    obtain rfl := List.mem_singleton.mp h
    rw [unary.sizeOf_spec]
    omega
  | print operand =>
    obtain rfl := List.mem_singleton.mp h
    rw [print.sizeOf_spec]
    omega
  | binary op left right =>
    rw [binary.sizeOf_spec]
    rcases List.mem_cons.mp h with rfl | mem
    · omega
    · obtain rfl := List.mem_singleton.mp mem
      omega
  | literal params body =>
    have smaller : sizeOf p < sizeOf body := inside h
    rw [literal.sizeOf_spec]
    omega
  | call callee args =>
    rw [call.sizeOf_spec]
    rcases List.mem_cons.mp h with rfl | mem
    · omega
    · have smaller := inside mem
      omega
  | conditional condition ifTrue ifFalse =>
    rw [conditional.sizeOf_spec]
    rcases List.mem_cons.mp h with rfl | mem
    · omega
    · rcases List.mem_append.mp mem with mem | mem
      · have smaller := inside mem
        omega
      · cases ifFalse with
        | none => cases mem
        | some body =>
          have smaller : sizeOf p < sizeOf body := inside mem
          rw [Option.some.sizeOf_spec]
          omega

end Node

/-- All trees inside of a function. -/
def Function.subtrees (f : Function) : List Node := Node.subtreesAll f.body

/-! ## Repertoires -/

/-- Trees and functions that an evaluation cannot leave. -/
structure Repertoire where
  trees : Set Node
  functions : Set Function
  /-- The parts of a tree are there. -/
  part_mem : ∀ {n p : Node}, n ∈ trees → p ∈ n.parts → p ∈ trees
  /-- A function that a tree defines is there. -/
  define_mem : ∀ {x : Name} {params : List Name} {body : List Node},
    .define x params body ∈ trees → ⟨params, body⟩ ∈ functions
  /-- The body of a function is there. -/
  body_mem : ∀ {f : Function} {n : Node}, f ∈ functions → n ∈ f.body → n ∈ trees

namespace Repertoire

/-- The trees and functions all of whose subtrees have a property. -/
def ofSubtrees (Q : Node → Prop) : Repertoire where
  trees := {n | ∀ t ∈ n.subtrees, Q t}
  functions := {f | ∀ t ∈ f.subtrees, Q t}
  part_mem h part t ht := h t (Node.subtrees_subset_of_mem_parts part ht)
  define_mem h t ht := h t (List.mem_cons_of_mem _ ht)
  body_mem h mem t ht := h t (Node.subtrees_subset_subtreesAll mem ht)

/-- The values that an evaluation can come to: if it is a function, it is one from the
repertoire. -/
def values (R : Repertoire) : Set Value := {v | ∀ f, v = .function f → f ∈ R.functions}

theorem number_mem (R : Repertoire) (k : Number) : .number k ∈ R.values := by
  rintro f ⟨⟩

/-- What operators come to is a number. -/
theorem mem_of_map_number {R : Repertoire} {r : Except EvalError Number} {v : Value}
    (h : r.map Value.number = .ok v) : v ∈ R.values := by
  cases r with
  | error e => cases h
  | ok k =>
    cases h
    exact R.number_mem k

theorem void_mem (R : Repertoire) : .void ∈ R.values := by
  rintro f ⟨⟩

theorem function_mem {R : Repertoire} {f : Function} (h : f ∈ R.functions) :
    .function f ∈ R.values := by
  rintro g ⟨⟩
  exact h

end Repertoire

/-! ## Environments -/

/-- What is found is there. -/
theorem Bindings.mem_of_find? {bs : Bindings} {x : Name} {v : Value} (h : bs.find? x = some v) :
    (x, v) ∈ bs := by
  induction bs with
  | nil => cases h
  | cons b rest ih =>
    rw [find?_cons] at h
    split at h
    · next same =>
      cases h
      rw [same]
      exact .head _
    · exact .tail _ (ih h)

/-- Every function that some scope binds is from `F`. -/
def Environment.FunctionsIn (F : Set Function) (env : Environment) : Prop :=
  ∀ s x f, env.own? s x = some (.function f) → f ∈ F

namespace Environment.FunctionsIn

variable {F : Set Function} {env env' : Environment} {s p : ScopeId} {x : Name} {v : Value}

/-- It is enough to go through the bindings of all frames. -/
theorem of_frames
    (h : ∀ frame ∈ env.frames, ∀ b ∈ frame.bindings, ∀ f, b.2 = .function f → f ∈ F) :
    env.FunctionsIn F := by
  intro s x f found
  obtain ⟨frame, there, bound⟩ := Option.bind_eq_some_iff.mp found
  exact h frame (Array.mem_of_getElem? there) _ (Bindings.mem_of_find? bound) f rfl

/-- What a lookup finds, some scope binds. -/
theorem get? (h : env.FunctionsIn F) {f : Function} (found : env.get? s x = some (.function f)) :
    f ∈ F := by
  rw [get?_eq_findSome?] at found
  obtain ⟨t, -, bound⟩ := List.exists_of_findSome?_eq_some found
  exact h t x f bound

theorem set (h : env.FunctionsIn F) (known : ∀ f, v = .function f → f ∈ F)
    (bound : env.set s x v = .ok env') : env'.FunctionsIn F := by
  intro t y f found
  by_cases new : y = x ∧ t = s
  · obtain ⟨rfl, rfl⟩ := new
    rw [own?_set_self bound, if_pos rfl] at found
    exact known f (Option.some.inj found)
  · rw [own?_set bound new] at found
    exact h t y f found

theorem push (h : env.FunctionsIn F) (pushed : env.push p = .ok (s, env')) :
    env'.FunctionsIn F := by
  intro t y f found
  obtain ⟨-, rfl, rfl⟩ := push_eq_ok_iff.mp pushed
  by_cases ht : t.index = env.depth
  · obtain rfl : t = ⟨env.depth⟩ := congrArg ScopeId.mk ht
    rw [own?_push_self pushed] at found
    cases found
  · rw [own?, Array.getElem?_push, ← depth, if_neg ht] at found
    exact h t y f found

theorem pop (h : env.FunctionsIn F) (popped : env.pop s = .ok env') : env'.FunctionsIn F := by
  rcases pop_eq_ok_iff.mp popped with ⟨-, -, rfl⟩ | ⟨-, rfl⟩
  · intro t y f found
    rw [own?, Array.getElem?_pop] at found
    split at found
    · exact h t y f found
    · cases found
  · exact h

end Environment.FunctionsIn

/-! ## Laws -/

/-- Why a run ended early, if it did. -/
def Stop.of? {α : Type} : Except Stop α → Option Stop
  | .ok _ => none
  | .error e => some e

/-- What an attempt to read a number comes to: it stops unless there is a line with a
number on it. -/
def Reading.stop? : Reading → Option Stop
  | .line text =>
    if Number.ofGrouped? (Text.trim text.toList) = none then
      some (.error (.invalidInput (String.ofList (Text.trim text.toList))))
    else none
  | .exhausted => some (.error .inputExhausted)
  | .undecodable => some (.error (.inputFailed undecodableMessage))

/-- `Φ m stop m'` is kept by every step that a tree of the repertoire can take from `m`
to `m'`, with a reason to stop or without. -/
structure Repertoire.Law (R : Repertoire) (Φ : Machine → Option Stop → Machine → Prop) :
    Prop where
  refl : ∀ m, Φ m none m
  trans : ∀ {m₁ m₂ m₃ stop}, Φ m₁ none m₂ → Φ m₂ stop m₃ → Φ m₁ stop m₃
  /-- The law does not look at scopes. -/
  env : ∀ {m stop m'} (env : Environment), Φ m stop m' → Φ m stop { m' with env := env }
  /-- Nor does it look at the record. -/
  log : ∀ {m stop m'} (e : Event), Φ m stop m' → Φ m stop (m'.log e)
  /-- A fault may come at any time. -/
  fault : ∀ {m stop m'} (f : Fault), Φ m stop m' → Φ m (some (.fault f)) m'
  ofValues : ∀ {e : EvalError} (m), e.OfValues → Φ m (some (.error e)) m
  lookup : ∀ {x : Name} (m), .reference x ∈ R.trees →
    Φ m (some (.error (.undefinedVariable (m.names.lookup x)))) m
  emit : ∀ {n : Node} (m k), .print n ∈ R.trees →
    Φ m none { m with output := m.output.emit k }
  read : ∀ {x : Name} (m), .read x ∈ R.trees →
    Φ m m.input.read.1.stop? { m with input := m.input.read.2 }

namespace Repertoire

variable {α β : Type} {R : Repertoire} {Φ : Machine → Option Stop → Machine → Prop}

/-- A run that stopped has no result to speak of. -/
theorem noResult {V : α → Prop} {stop : Stop} (a : α) (h : .error stop = (.ok a : Except Stop α)) :
    V a := by
  cases h

/-- From a machine whose functions are from the repertoire, `x` leads to such a machine
again.  What it did obeys the law, and a result is as `V` says. -/
def Obeys (R : Repertoire) (Φ : Machine → Option Stop → Machine → Prop) (V : α → Prop)
    (x : Run α) : Prop :=
  ∀ m, m.env.FunctionsIn R.functions → ∀ r m', x.run m = some (r, m') →
    m'.env.FunctionsIn R.functions ∧ Φ m (Stop.of? r) m' ∧ ∀ a, r = .ok a → V a

namespace Law

variable (law : R.Law Φ)

include law

/-! ## Primitive steps -/

/-- A step that does not use the machine. -/
theorem ofExcept {V : α → Prop} {r : Except EvalError α} (h : EvalError.OnlyOfValues r)
    (result : ∀ a, r = .ok a → V a) : R.Obeys Φ V (Run.ofExcept r) := by
  rintro m known _ m' ⟨⟩
  refine ⟨known, ?_, ?_⟩
  · cases r with
    | error e => exact law.ofValues m (h e rfl)
    | ok a => exact law.refl m
  · cases r with
    | error e => exact noResult
    | ok a =>
      rintro _ ⟨⟩
      exact result a rfl

theorem pure {V : α → Prop} {a : α} (h : V a) : R.Obeys Φ V (Pure.pure a : Run α) := by
  rintro m known r m' ⟨⟩
  refine ⟨known, law.refl m, ?_⟩
  rintro _ ⟨⟩
  exact h

theorem bind {V : α → Prop} {W : β → Prop} {x : Run α} {f : α → Run β} (hx : R.Obeys Φ V x)
    (hf : ∀ a, V a → R.Obeys Φ W (f a)) : R.Obeys Φ W (x >>= f) := by
  intro m known r m' run
  rcases Proc.run_bind_eq_some_iff.mp run with ⟨a, m₁, first, second⟩ | ⟨e, m₁, first, outcome⟩
  · obtain ⟨known₁, before, result⟩ := hx m known _ m₁ first
    obtain ⟨known', after, result'⟩ := hf a (result a rfl) m₁ known₁ r m' second
    exact ⟨known', law.trans before after, result'⟩
  · cases outcome
    obtain ⟨known₁, before, -⟩ := hx m known _ _ first
    exact ⟨known₁, before, noResult⟩

theorem lookup_obeys (s : ScopeId) {x : Name} (h : .reference x ∈ R.trees) :
    R.Obeys Φ (· ∈ R.values) (Run.lookup s x) := by
  intro m known r m' run
  simp only [Run.lookup] at run
  split at run
  · next v found =>
    cases run
    refine ⟨known, law.refl m, ?_⟩
    rintro _ ⟨⟩ f rfl
    exact known.get? found
  · cases run
    exact ⟨known, law.lookup m h, noResult⟩

theorem assign (s : ScopeId) (x : Name) {v : Value} (h : v ∈ R.values) :
    R.Obeys Φ (fun _ => True) (Run.assign s x v) := by
  intro m known r m' run
  simp only [Run.assign] at run
  split at run
  · next env bound =>
    cases run
    exact ⟨known.set h bound, law.env env (law.refl m), fun _ _ => trivial⟩
  · next f _ =>
    cases run
    exact ⟨known, law.fault f (law.refl m), fun _ _ => trivial⟩

theorem assignAll (s : ScopeId) {bindings : Bindings} (h : ∀ b ∈ bindings, b.2 ∈ R.values) :
    R.Obeys Φ (fun _ => True) (Run.assignAll s bindings) := by
  induction bindings with
  | nil => exact law.pure trivial
  | cons b rest ih =>
    rw [List.forall_mem_cons] at h
    exact law.bind (law.assign s b.1 h.1) fun _ _ => ih h.2

theorem record (e : Event) : R.Obeys Φ (fun _ => True) (Run.record e) := by
  rintro m known r m' ⟨⟩
  exact ⟨known, law.log e (law.refl m), fun _ _ => trivial⟩

theorem emit_obeys {n : Node} (k : Number) (h : .print n ∈ R.trees) :
    R.Obeys Φ (fun _ => True) (Run.emit k) := by
  rintro m known r m' ⟨⟩
  exact ⟨known, law.log _ (law.emit m k h), fun _ _ => trivial⟩

/-- A note at the end of a run, however it ends. -/
theorem ensuring_record {V : α → Prop} {x : Run α} (hx : R.Obeys Φ V x) (e : Event) :
    R.Obeys Φ V (x.ensuring (Run.record e)) := by
  intro m known r m' run
  rw [Run.record, Proc.run_ensuring_modify, Option.map_eq_some_iff] at run
  obtain ⟨⟨r, m₁⟩, inner, outcome⟩ := run
  cases outcome
  obtain ⟨known', during, result⟩ := hx m known r m₁ inner
  exact ⟨known', law.log e during, result⟩

/-- A read is an attempt to take a line, and then a binding if there is a number on
it. -/
theorem evalRead (s : ScopeId) {x : Name} (h : .read x ∈ R.trees) :
    R.Obeys Φ (· ∈ R.values) (evalRead x s) := by
  intro m known r m' run
  have attempt := law.read m h
  rcases read : m.input.read with ⟨reading, rest⟩
  rw [read] at attempt
  cases reading with
  | line text =>
    rw [TreeWalk.evalRead, Proc.run_bind_of_ok (Run.run_readLine_line read)] at run
    dsimp only at run
    split at run
    · next invalid =>
      cases run
      rw [Reading.stop?, if_pos invalid] at attempt
      exact ⟨known, law.log _ attempt, noResult⟩
    · next k valid =>
      rw [Reading.stop?, if_neg (by rw [valid]; nofun)] at attempt
      have binding := law.bind (law.assign s x (R.number_mem k)) fun _ _ =>
        law.pure (R.number_mem k)
      have known₁ : ({ m with input := rest }.log
          (.lineRead (some text))).env.FunctionsIn R.functions := known
      obtain ⟨known', after, result⟩ := binding _ known₁ r m' run
      exact ⟨known', law.trans (law.log _ attempt) after, result⟩
  | exhausted =>
    rw [TreeWalk.evalRead, Proc.run_bind_of_ok (Run.run_readLine_exhausted read)] at run
    cases run
    exact ⟨known, law.log _ attempt, noResult⟩
  | undecodable =>
    rw [TreeWalk.evalRead, Proc.run_bind_of_error (Run.run_readLine_undecodable read)] at run
    cases run
    exact ⟨known, attempt, noResult⟩

theorem pushScope (parent : ScopeId) : R.Obeys Φ (fun _ => True) (Run.pushScope parent) := by
  intro m known r m' run
  simp only [Run.pushScope] at run
  split at run
  · next s env pushed =>
    cases run
    exact ⟨known.push pushed, law.log _ (law.env env (law.refl m)), fun _ _ => trivial⟩
  · next f _ =>
    cases run
    exact ⟨known, law.fault f (law.refl m), fun _ _ => trivial⟩

/-- A scope is discarded at the end of a run, however it ends.  If that is a fault,
what the run did before still obeys the law. -/
theorem ensuring_popScope {V : α → Prop} {x : Run α} (hx : R.Obeys Φ V x) (s : ScopeId) :
    R.Obeys Φ V (x.ensuring (Run.popScope s)) := by
  intro m known r m' run
  simp only [Proc.ensuring] at run
  rcases inner : x.run m with _ | ⟨r₁, m₁⟩
  · simp only [inner] at run
    cases run
  · obtain ⟨known₁, during, result⟩ := hx m known r₁ m₁ inner
    simp only [inner, Run.popScope] at run
    by_cases isInner : m₁.env.IsInner s
    · rw [if_pos isInner] at run
      rcases popped : m₁.env.pop s with f | env
      · rw [popped] at run
        cases run
        exact ⟨known₁, law.fault f during, noResult⟩
      · rw [popped] at run
        cases run
        exact ⟨known₁.pop popped, law.log _ (law.env env during), result⟩
    · rw [if_neg isInner] at run
      cases run
      exact ⟨known₁, during, result⟩

theorem withScope {V : α → Prop} (parent : ScopeId) {bindings : Bindings}
    (bound : ∀ b ∈ bindings, b.2 ∈ R.values) {body : ScopeId → Run α}
    (h : ∀ s, R.Obeys Φ V (body s)) : R.Obeys Φ V (Run.withScope parent bindings body) :=
  law.bind (law.pushScope parent) fun s _ =>
    law.ensuring_popScope (law.bind (law.assignAll s bound) fun _ _ => h s) s

/-! ## Evaluation -/

section

variable {ev : Evaluator}
  (hev : ∀ (n : Node) (s : ScopeId), n ∈ R.trees → R.Obeys Φ (· ∈ R.values) (ev n s))

include hev

theorem evalFrom (s : ScopeId) {last : Value} (known : last ∈ R.values) (body : List Node)
    (h : ∀ n ∈ body, n ∈ R.trees) : R.Obeys Φ (· ∈ R.values) (evalFrom ev s last body) := by
  induction body generalizing last with
  | nil => exact law.pure known
  | cons n rest ih =>
    rw [List.forall_mem_cons] at h
    exact law.bind (hev n s h.1) fun v hv => ih hv h.2

theorem evalBlock (body : List Node) (s : ScopeId) (h : ∀ n ∈ body, n ∈ R.trees) :
    R.Obeys Φ (· ∈ R.values) (evalBlock ev body s) := law.evalFrom hev s R.void_mem body h

theorem evalBody (f : Function) (s : ScopeId) (h : ∀ n ∈ f.body, n ∈ R.trees) :
    R.Obeys Φ (· ∈ R.values) (evalBody ev f s) := by
  unfold TreeWalk.evalBody
  split
  · exact law.pure (R.number_mem 0)
  · next n rest body =>
    rw [body] at h
    exact law.evalBlock hev (n :: rest) s h

theorem evalArgs (s : ScopeId) (args : List Node) (h : ∀ n ∈ args, n ∈ R.trees) :
    R.Obeys Φ (fun vs => ∀ v ∈ vs, v ∈ R.values) (evalArgs ev s args) := by
  induction args with
  | nil => exact law.pure nofun
  | cons n rest ih =>
    rw [List.forall_mem_cons] at h
    refine law.bind (hev n s h.1) fun v hv => law.bind (ih h.2) fun vs hvs => ?_
    exact law.pure (List.forall_mem_cons.mpr ⟨hv, hvs⟩)

theorem applyFunction {f : Function} {args : List Value} (hf : f ∈ R.functions)
    (h : ∀ v ∈ args, v ∈ R.values) (s : ScopeId) :
    R.Obeys Φ (· ∈ R.values) (applyFunction ev f args s) := by
  have noted : R.Obeys Φ (fun _ => True) (noteArity f args) := by
    unfold noteArity
    split
    · exact law.pure trivial
    · exact law.record _
  refine law.bind noted fun _ _ => law.withScope s ?_ fun t => ?_
  · rintro ⟨x, v⟩ mem
    exact h v (List.of_mem_zip mem).2
  · exact law.evalBody hev f t fun n hn => R.body_mem hf hn

theorem evalCall (callee : Node) (args : List Node) (s : ScopeId)
    (h : .call callee args ∈ R.trees) :
    R.Obeys Φ (· ∈ R.values) (evalCall ev callee args s) := by
  have parts : ∀ n ∈ callee :: args, n ∈ R.trees := fun n hn => R.part_mem h hn
  rw [List.forall_mem_cons] at parts
  refine law.bind (law.record _) fun _ _ => law.ensuring_record ?_ _
  refine law.bind (hev callee s parts.1) fun v hv => ?_
  -- Only a function is called, and a function that was come to is from the repertoire.
  have called : ∀ f, toFunction v = .ok f → f ∈ R.functions := by
    intro f hf
    cases v with
    | function g =>
      cases hf
      exact hv f rfl
    | number | void => cases hf
  refine law.bind (law.ofExcept (.toFunction v) called) fun f hf => ?_
  refine law.bind (law.evalArgs hev s args parts.2) fun vs hvs => ?_
  exact law.applyFunction hev hf hvs s

theorem evalConditional (condition : Node) (ifTrue : List Node) (ifFalse : Option (List Node))
    (s : ScopeId) (h : .conditional condition ifTrue ifFalse ∈ R.trees) :
    R.Obeys Φ (· ∈ R.values) (evalConditional ev condition ifTrue ifFalse s) := by
  have parts : ∀ n ∈ condition :: (ifTrue ++ ifFalse.getD []), n ∈ R.trees :=
    fun n hn => R.part_mem h hn
  rw [List.forall_mem_cons] at parts
  refine law.bind (hev condition s parts.1) fun v _ => ?_
  refine law.bind (law.ofExcept (V := fun _ => True) (.toNumber v) fun _ _ => trivial)
    fun c _ => ?_
  refine law.evalBlock hev _ s fun n hn => parts.2 n ?_
  exact Node.chooseBranch_subset c ifTrue ifFalse hn

/-- One step of evaluation obeys the law if the evaluator for the parts does. -/
theorem evalNode (n : Node) (s : ScopeId) (h : n ∈ R.trees) :
    R.Obeys Φ (· ∈ R.values) (evalNode ev n s) := by
  have part (p : Node) (hp : p ∈ n.parts) : R.Obeys Φ (· ∈ R.values) (ev p s) :=
    hev p s (R.part_mem h hp)
  refine law.bind (law.record _) fun _ _ => ?_
  cases n with
  | number k => exact law.pure (R.number_mem k)
  | reference x => exact law.lookup_obeys s h
  | unary op operand =>
    refine law.bind (part operand (.head _)) fun v _ => ?_
    refine law.ofExcept (.unaryEvaluate op v) fun w hw => ?_
    rw [op.evaluate_eq_map] at hw
    exact mem_of_map_number hw
  | binary op left right =>
    refine law.bind (part left (.head _)) fun l _ => ?_
    refine law.bind (part right (.tail _ (.head _))) fun r _ => ?_
    refine law.ofExcept (.binaryEvaluate op l r) fun w hw => ?_
    rw [op.evaluate_eq_map] at hw
    exact mem_of_map_number hw
  | literal params body => exact law.evalBody hev ⟨params, body⟩ s fun n hn => R.part_mem h hn
  | define x params body =>
    have defined := function_mem (R.define_mem h)
    exact law.bind (law.assign s x defined) fun _ _ => law.pure defined
  | call callee args => exact law.evalCall hev callee args s h
  | conditional condition ifTrue ifFalse =>
    exact law.evalConditional hev condition ifTrue ifFalse s h
  | print operand =>
    refine law.bind (part operand (.head _)) fun v hv => ?_
    refine law.bind (law.ofExcept (V := fun _ => True) (.toNumber v) fun _ _ => trivial)
      fun k _ => ?_
    exact law.bind (law.emit_obeys k h) fun _ _ => law.pure hv
  | read x => exact law.evalRead s h

end

/-- **Every evaluation of a tree from the repertoire obeys the law**, and what it comes
to is from the repertoire. -/
theorem eval (depth : Nat) (n : Node) (s : ScopeId) (h : n ∈ R.trees) :
    R.Obeys Φ (· ∈ R.values) (eval depth n s) := by
  -- By induction on the bound, not on the tree: the body of a function that is called
  -- is no part of the call.
  induction depth generalizing n s with
  | zero => rintro m _ r m' ⟨⟩
  | succ depth ih => exact law.evalNode ih n s h

end Law

end Repertoire

end TreeWalk
