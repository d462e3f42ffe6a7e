import TreeWalk.Proofs.Arena

/-!
# Who sees a binding

A binding is made in one scope, and every scope nested in that one may see it.  Whether it
does depends on what lies between: **the scope nearest to the reader that binds the name
decides**.  This module says exactly which lookups each change of an arena alters.  A push or
the discarding of the last scope alters none, and a binding alters those that come to its
scope without having met the name before.

## Main definitions

* `Environment.Exposes`: the search for a name from one scope comes to another

## Main statements

* `Environment.WellFormed.get?_set_of_exposes`,
  `Environment.WellFormed.get?_set_of_not_exposes`: who sees a new binding, and who does not
* `Environment.get?_push_set_pop`: what the three changes do to all lookups

## Design notes

`Exposes` follows parent links as they are and has no bound on its length; that the links
lead to an end is a fact about the arenas that can come up, and not a part of the notion.
-/

namespace TreeWalk

namespace Environment

variable {env env' : Environment} {s p t : ScopeId} {x y : Name} {v : Value}

/-- The search for `x` from `t` outward comes to the scope `s`, which is there: `s` is `t`
itself or a scope that `t` is nested in, and no scope nearer to `t` binds `x`. -/
inductive Exposes (env : Environment) (x : Name) (s : ScopeId) : ScopeId → Prop where
  | here : env.IsLive s → Exposes env x s s
  | outward {t p : ScopeId} :
      env.own? t x = none → env.parent? t = some p → Exposes env x s p → Exposes env x s t

/-! ## Bindings -/

namespace WellFormed

/-- A binding is seen from everywhere that the name leads to its scope. -/
theorem get?_set_of_exposes (wf : env.WellFormed) (h : env.set s x v = .ok env')
    (exposes : env.Exposes x s t) : env'.get? t x = some v := by
  induction exposes with
  | here => rw [wf.get?_set h, if_pos rfl]
  | @outward t p unbound parent _ seen =>
    by_cases same : t = s
    · rw [same, wf.get?_set h, if_pos rfl]
    · have own : env'.own? t x = none := (own?_set h fun both => same both.2).trans unbound
      rw [(wf.set h).get?_eq, own, parent?_set h, parent, Option.none_or, Option.bind_some, seen]

/-- Another name, or a name that leads elsewhere, has the value that it had. -/
theorem get?_set_of_not_exposes (wf : env.WellFormed) (h : env.set s x v = .ok env')
    (t : ScopeId) : ¬ (y = x ∧ env.Exposes x s t) → env'.get? t y = env.get? t y := by
  -- By strong induction on the position, since the search goes on in the parent, which stands
  -- before; a name that leads elsewhere from `t` does so from the parent too.
  induction hi : t.index using Nat.strongRecOn generalizing t with
  | ind i ih =>
    subst hi
    intro hidden
    have live : env.IsLive s := (set_eq_ok_iff.mp h).1
    have own : env'.own? t y = env.own? t y := by
      refine own?_set h ?_
      rintro ⟨rfl, rfl⟩
      exact hidden ⟨rfl, .here live⟩
    rw [(wf.set h).get?_eq, wf.get?_eq, own, parent?_set h]
    rcases bound : env.own? t y with _ | w
    · rcases parent : env.parent? t with _ | p
      · rfl
      · have further : ¬ (y = x ∧ env.Exposes x s p) := by
          rintro ⟨rfl, exposes⟩
          exact hidden ⟨rfl, .outward bound parent exposes⟩
        rw [Option.bind_some, Option.bind_some, ih p.index (wf.parent_lt parent) p rfl further]
    · rw [Option.some_or, Option.some_or]

/-! ## Scopes that come and go -/

/-- A push changes no lookup from the scopes that are there. -/
theorem get?_push_of_isLive (wf : env.WellFormed) (h : env.push p = .ok (s, env'))
    (live : env.IsLive t) (x : Name) : env'.get? t x = env.get? t x :=
  wf.get?_congr (wf.push h) x t fun _ hi => getElem?_frames_push h (Nat.lt_of_le_of_lt hi live)

/-- Discarding a scope changes no lookup from the scopes that stay. -/
theorem get?_pop (wf : env.WellFormed) (h : env.pop s = .ok env') (live : env'.IsLive t)
    (x : Name) : env'.get? t x = env.get? t x := by
  refine wf.get?_congr (wf.pop h) x t fun i hi => ?_
  have stays : i < env'.frames.size := Nat.lt_of_le_of_lt hi live
  rcases pop_eq_ok_iff.mp h with ⟨-, -, rfl⟩ | ⟨-, rfl⟩
  · rw [Array.size_pop] at stays
    rw [Array.getElem?_pop, if_pos stays]
  · rfl

end WellFormed

/-- **What the three changes do to all lookups.**  A push succeeds on a scope that is there:
every older scope finds what it found, and the new one finds what its parent finds, also where
it takes the place of a scope that was discarded.  A binding succeeds in a scope that is
there: the name has the new value wherever it leads to that scope, and every other lookup
comes to what it came to.  Discarding the last scope but the outermost succeeds, and every
scope that stays finds what it found. -/
theorem get?_push_set_pop {env : Environment} (reachable : env.Reachable) :
    (∀ p, env.IsLive p → ∃ env', env.push p = .ok (⟨env.depth⟩, env') ∧
      (∀ t x, env.IsLive t → env'.get? t x = env.get? t x) ∧
      ∀ x, env'.get? ⟨env.depth⟩ x = env.get? p x) ∧
    (∀ s x v, env.IsLive s → ∃ env', env.set s x v = .ok env' ∧ ∀ t y,
      (y = x ∧ env.Exposes x s t → env'.get? t y = some v) ∧
      (¬ (y = x ∧ env.Exposes x s t) → env'.get? t y = env.get? t y)) ∧
    ∀ s, s ≠ .root → s.index + 1 = env.depth → ∃ env', env.pop s = .ok env' ∧
      env'.depth = s.index ∧ ∀ t x, env'.IsLive t → env'.get? t x = env.get? t x := by
  have wf := reachable.wellFormed
  refine ⟨fun p live => ?_, fun s x v live => ?_, fun s notRoot last => ?_⟩
  · have pushed := push_eq_ok_iff.mpr ⟨live, rfl, rfl⟩
    exact ⟨_, pushed, fun t x older => wf.get?_push_of_isLive pushed older x, wf.get?_push pushed⟩
  · obtain ⟨env', bound⟩ : ∃ env', env.set s x v = .ok env' :=
      ⟨_, set_eq_ok_iff.mpr ⟨live, rfl⟩⟩
    refine ⟨env', bound, fun t y => ⟨?_, wf.get?_set_of_not_exposes bound t⟩⟩
    rintro ⟨rfl, exposes⟩
    exact wf.get?_set_of_exposes bound exposes
  · have inner : env.IsInner s := ⟨notRoot, by rw [IsLive, ← depth]; omega⟩
    have popped := pop_eq_ok_iff.mpr (.inl ⟨inner, last, rfl⟩)
    refine ⟨_, popped, ?_, fun t x stays => wf.get?_pop popped stays x⟩
    show env.frames.pop.size = s.index
    rw [Array.size_pop, ← depth]
    omega

/-- Two scopes in the outermost one, of which the first binds a name; the second has taken the
place of a scope that was discarded.  A new scope in the first sees the value there.  The
outermost scope binds the same name: the second scope sees that, and the first keeps its own.
When the second is discarded, the first still has its own. -/
theorem get?_push_set_pop_shadowed :
    let env : Environment :=
      ⟨#[⟨[], none⟩, ⟨[(⟨4⟩, .number 5)], some .root⟩, ⟨[], some .root⟩]⟩
    env.Reachable ∧
      (∃ env', env.push ⟨1⟩ = .ok (⟨3⟩, env') ∧ env'.get? ⟨3⟩ ⟨4⟩ = some (.number 5)) ∧
      (∃ env', env.set .root ⟨4⟩ (.number 7) = .ok env' ∧
        env'.get? ⟨2⟩ ⟨4⟩ = some (.number 7) ∧ env'.get? ⟨1⟩ ⟨4⟩ = some (.number 5)) ∧
      ∃ env', env.pop ⟨2⟩ = .ok env' ∧ env'.get? ⟨1⟩ ⟨4⟩ = some (.number 5) := by
  intro env
  have reachable : env.Reachable := by
    have opened : Reachable ⟨#[⟨[], none⟩, ⟨[], some .root⟩]⟩ := .push .initial (p := .root) rfl
    have bound : Reachable ⟨#[⟨[], none⟩, ⟨[(⟨4⟩, .number 5)], some .root⟩]⟩ :=
      opened.set (s := ⟨1⟩) (x := ⟨4⟩) (v := .number 5) rfl
    have nested := bound.push (p := ⟨1⟩) rfl
    have discarded := nested.pop (s := ⟨2⟩) rfl
    exact discarded.push (p := .root) rfl
  obtain ⟨push, set, pop⟩ := get?_push_set_pop reachable
  refine ⟨reachable, ?_, ?_, ?_⟩
  · obtain ⟨env', pushed, -, inherits⟩ := push ⟨1⟩ (by decide)
    exact ⟨env', pushed, inherits ⟨4⟩⟩
  · obtain ⟨env', bound, laws⟩ := set .root ⟨4⟩ (.number 7) (by decide)
    have sibling : env.Exposes ⟨4⟩ .root ⟨2⟩ := .outward rfl rfl (.here (by decide))
    refine ⟨env', bound, (laws ⟨2⟩ ⟨4⟩).1 ⟨rfl, sibling⟩, (laws ⟨1⟩ ⟨4⟩).2 ?_⟩
    rintro ⟨-, exposes⟩
    cases exposes with
    | outward unbound => cases unbound
  · obtain ⟨env', popped, -, stays⟩ := pop ⟨2⟩ (by decide) rfl
    refine ⟨env', popped, stays ⟨1⟩ ⟨4⟩ ?_⟩
    cases popped
    decide

end Environment

end TreeWalk
