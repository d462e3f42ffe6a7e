import TreeWalk.Proofs.Refinement
import TreeWalk.Proofs.Simulation

/-!
# Names that a program cannot mention

A function sees the bindings of whoever calls it, and of their callers, so that
any binding anywhere might seem to matter.  **What matters is what stands behind
the names within reach.**  These are the names in the tree, and with every
function that one of them stands for, the names in that function.  Two
environments that agree on such a set of names are one and the same to the tree,
however many frames they have and whatever else is bound in them.

## Main definitions

* `Machine.CoincidesOn`: two machines, each seen from a scope, agree on a set of
  names

## Main statements

* `evaluates_coincide`: from there on they evaluate a tree alike, and agree on the
  set of names again

## Design notes

**The set stays closed on its own.**  A function that is found under a name of the
set has all its names in the set, and so has every function that is defined in its
body.  A call binds its parameters to values that came from the set, so the scope
of the call agrees on it too.  Nothing has to be known of functions that stand
behind other names.
-/

namespace TreeWalk

/-- A new scope finds what its bindings give, and else what its parent finds. -/
theorem Environment.WellFormed.get?_enter_apply {env : Environment} {parent : ScopeId}
    (wf : env.WellFormed) (live : env.IsLive parent) (bindings : Bindings) (x : Name) :
    (env.enter parent bindings).get? ⟨env.depth⟩ x =
      ((Bindings.assignAll [] bindings).find? x).or (env.get? parent x) := by
  rw [wf.get?_enter live bindings]
  exact (Bindings.or_find?_assignAll [] bindings (env.get? parent) x).symm

/-- Seen from scopes that are there, the two machines agree on the names from `N`.
Their names, inputs and outputs are the same. -/
structure Machine.CoincidesOn (N : Set Name) (s t : ScopeId) (m k : Machine) : Prop where
  wellFormed : m.env.WellFormed
  wellFormed' : k.env.WellFormed
  live : m.env.IsLive s
  live' : k.env.IsLive t
  get_eq : ∀ x ∈ N, k.env.get? t x = m.env.get? s x
  /-- Every name in a value behind a name from `N` is from `N` again. -/
  closed : ∀ x ∈ N, ∀ v, m.env.get? s x = some v → ∀ y ∈ v.names, y ∈ N
  names_eq : k.names = m.names
  input_eq : k.input = m.input
  output_eq : k.output = m.output

namespace Machine.CoincidesOn

variable {N : Set Name} {s t : ScopeId} {m m' k k' : Machine}

/-- What the record says does not matter. -/
theorem log (h : CoincidesOn N s t m k) (e e' : Event) :
    CoincidesOn N s t (m.log e) (k.log e') := { h with }

/-- Binding a name from the set to a value within it, on both sides. -/
theorem set (h : CoincidesOn N s t m k) {x : Name} {v : Value} {env env' : Environment}
    (within : ∀ y ∈ v.names, y ∈ N) (bound : m.env.set s x v = .ok env)
    (bound' : k.env.set t x v = .ok env') :
    CoincidesOn N s t { m with env := env } { k with env := env' } where
  wellFormed := h.wellFormed.set bound
  wellFormed' := h.wellFormed'.set bound'
  live := by
    rw [Environment.IsLive, ← Environment.depth, Environment.depth_set bound]
    exact h.live
  live' := by
    rw [Environment.IsLive, ← Environment.depth, Environment.depth_set bound']
    exact h.live'
  get_eq y hy := by
    rw [h.wellFormed'.get?_set bound', h.wellFormed.get?_set bound, h.get_eq y hy]
  closed y hy w found := by
    rw [h.wellFormed.get?_set bound] at found
    by_cases same : y = x
    · rw [if_pos same, Option.some.injEq] at found
      exact found ▸ within
    · rw [if_neg same] at found
      exact h.closed y hy w found
  names_eq := h.names_eq
  input_eq := h.input_eq
  output_eq := h.output_eq

/-- The scopes of two calls agree where the calling scopes do. -/
theorem enter (h : CoincidesOn N s t m k) {bindings : Bindings} (within : bindings.Within N) :
    CoincidesOn N ⟨m.env.depth⟩ ⟨k.env.depth⟩ (m.enter s bindings) (k.enter t bindings) where
  wellFormed := h.wellFormed.enter h.live bindings
  wellFormed' := h.wellFormed'.enter h.live' bindings
  live := m.isLive_enter s bindings
  live' := k.isLive_enter t bindings
  get_eq x hx := by
    show (k.env.enter t bindings).get? ⟨k.env.depth⟩ x =
      (m.env.enter s bindings).get? ⟨m.env.depth⟩ x
    rw [h.wellFormed'.get?_enter_apply h.live', h.wellFormed.get?_enter_apply h.live,
      h.get_eq x hx]
  closed x hx v found := by
    have found' : ((Bindings.assignAll [] bindings).find? x).or (m.env.get? s x) = some v :=
      (h.wellFormed.get?_enter_apply h.live bindings x).symm.trans found
    rcases Option.or_eq_some_iff.mp found' with own | ⟨-, outer⟩
    · have all : (Bindings.assignAll [] bindings).Within N :=
        Bindings.Within.assignAll nofun within
      exact all.of_find? own
    · exact h.closed x hx v outer
  names_eq := h.names_eq
  input_eq := h.input_eq
  output_eq := h.output_eq

/-- After two calls the environments are the callers' again, and the rest is what
the bodies left. -/
theorem resume (h : CoincidesOn N s t m k) {u u' : ScopeId} (h' : CoincidesOn N u u' m' k') :
    CoincidesOn N s t (m.resume m') (k.resume k') :=
  { h with names_eq := h'.names_eq, input_eq := h'.input_eq, output_eq := h'.output_eq }

end Machine.CoincidesOn

/-- No step of an evaluation leads out of the set of names, or can tell apart what
agrees on it. -/
theorem Machine.simulation_coincidesOn (N : Set Name) : Simulation N id (CoincidesOn N) where
  scopes h := .inl ⟨h.live, h.live'⟩
  text h _ := by rw [h.names_eq, id_eq]
  get := by
    intro s t m k x h hx
    rw [id_eq, h.get_eq x hx]
    cases found : m.env.get? s x with
    | none => exact .none
    | some v => exact .some ⟨v.rename_id.symm, h.closed x hx v found⟩
  set := by
    intro s t m k x v env env' h _ within bound bound'
    rw [Value.rename_id, id_eq] at bound'
    exact h.set within bound bound'
  log e h := h.log e e
  emit n h := { h with output_eq := congrArg (·.emit n) h.output_eq }
  readLine s t := by
    refine Run.readLine_lockstep (fun h => h.input_eq) ?_ fun e h => h.log e e
    exact fun rest h => { h with input_eq := rfl }
  enter := by
    intro s t m k bindings h _ _ within
    rw [Bindings.rename_id]
    exact h.enter within
  resume h h' := h.resume h'

/-- **Bindings that a program cannot mention never matter.**  Let a set of names
hold every name in a tree, and every name in every function that stands behind a
name of the set.  From two reachable environments in which each name of the set
stands for the same, with the same table, input and output, evaluations of the
tree come to the same outcome with the same output and input left, if to any; and
each name of the set stands for the same again. -/
theorem evaluates_coincide {N : Set Name} {n : Node} {s t : ScopeId} {m k : Machine}
    (reachable : m.env.Reachable) (reachable' : k.env.Reachable) (live : m.env.IsLive s)
    (live' : k.env.IsLive t) (mentioned : ∀ x ∈ n.names, x ∈ N)
    (closed : ∀ x ∈ N, ∀ f, m.env.get? s x = some (.function f) → ∀ y ∈ f.names, y ∈ N)
    (get_eq : ∀ x ∈ N, k.env.get? t x = m.env.get? s x) (names_eq : k.names = m.names)
    (input_eq : k.input = m.input) (output_eq : k.output = m.output) :
    Matched
      (fun o o' => o'.1 = o.1 ∧ o'.2.output = o.2.output ∧ o'.2.input = o.2.input ∧
        ∀ x ∈ N, o'.2.env.get? t x = o.2.env.get? s x)
      (Evaluates n s m) (Evaluates n t k) := by
  have start : Machine.CoincidesOn N s t m k :=
    { wellFormed := reachable.wellFormed
      wellFormed' := reachable'.wellFormed
      live, live', get_eq, names_eq, input_eq, output_eq
      closed := by
        intro x hx v found
        cases v with
        | number k => exact nofun
        | function f => exact closed x hx f found
        | void => exact nofun }
  have both := (Machine.simulation_coincidesOn N).matched start mentioned
  rw [Node.rename_id] at both
  refine both.imp fun o o' ⟨agree, after⟩ => ?_
  exact ⟨Value.eq_of_agree_id agree, after.output_eq, after.input_eq, after.get_eq⟩

/-- A function that prints its argument and then looks outward, called from the
outermost scope, and from an inner one that shadows a name and leaves another one
visible that is not mentioned. -/
theorem evaluates_coincide_shadowed :
    let f : Function := ⟨[⟨2⟩], [.print (.reference ⟨2⟩), .reference ⟨3⟩]⟩
    let env : Environment := .ofBindings [(⟨1⟩, .function f), (⟨3⟩, .number 7)]
    let env' : Environment := ⟨#[⟨[(⟨1⟩, .function f), (⟨3⟩, .void), (⟨4⟩, .void)], none⟩,
      ⟨[(⟨3⟩, .number 7)], some .root⟩]⟩
    let m : Machine := ⟨.initial, env, .queue [], .captured "", #[]⟩
    let n : Node := .call (.reference ⟨1⟩) [.number 5]
    let N : Set Name := {x | x ∈ [⟨1⟩, ⟨2⟩, ⟨3⟩]}
    env.Reachable ∧ env'.Reachable ∧
      ∃ k, Evaluates n ⟨1⟩ { m with env := env' } (.ok (.number 7), k) ∧
        k.output = .captured "5\n" ∧ ∀ x ∈ N, k.env.get? ⟨1⟩ x = env.get? .root x := by
  intro f env env' m n N
  have reachable : env.Reachable := .ofBindings _
  have reachable' : env'.Reachable := by
    let outer : Environment := .ofBindings [(⟨1⟩, .function f), (⟨3⟩, .void), (⟨4⟩, .void)]
    have pushed : outer.push .root = .ok (⟨1⟩, outer.enter .root []) := rfl
    have bound : (outer.enter .root []).set ⟨1⟩ ⟨3⟩ (.number 7) = .ok env' := rfl
    exact ((Environment.Reachable.ofBindings _).push pushed).set bound
  have live : env.IsLive .root := by decide
  have live' : env'.IsLive ⟨1⟩ := by decide
  have mentioned : ∀ x ∈ n.names, x ∈ N := by
    show ∀ x ∈ n.names, x ∈ [⟨1⟩, ⟨2⟩, ⟨3⟩]
    decide
  have get_eq : ∀ x ∈ N, env'.get? ⟨1⟩ x = env.get? .root x := by
    show ∀ x ∈ [⟨1⟩, ⟨2⟩, ⟨3⟩], env'.get? ⟨1⟩ x = env.get? .root x
    decide
  have closed : ∀ x ∈ N, ∀ g, env.get? .root x = some (.function g) → ∀ y ∈ g.names, y ∈ N := by
    intro x hx g found
    have only : ∀ x ∈ [⟨1⟩, ⟨2⟩, ⟨3⟩], ∀ v, env.get? .root x = some v →
        ∀ y ∈ v.names, y ∈ [⟨1⟩, ⟨2⟩, ⟨3⟩] := by decide
    exact only x hx (.function g) found
  obtain ⟨m', run, output, after⟩ : ∃ m', (eval 4 n .root).run m = some (.ok (.number 7), m') ∧
      m'.output = .captured "5\n" ∧ m'.env = env := ⟨_, rfl, rfl, rfl⟩
  obtain ⟨⟨r, k⟩, h, same, printed, -, view⟩ :=
    (evaluates_coincide (m := m) (k := { m with env := env' }) reachable reachable' live live'
      mentioned closed get_eq rfl rfl rfl).1 _ ⟨4, run⟩
  obtain rfl : r = .ok (.number 7) := same
  refine ⟨reachable, reachable', k, h, printed.trans output, fun x hx => ?_⟩
  rw [view x hx, after]

end TreeWalk
