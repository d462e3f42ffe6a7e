import TreeWalk.Environment

/-!
# The shape of the arena

Parent links are bare positions, and positions go stale and are used again.
What keeps a lookup from running in circles is that **a parent always stands
before its child**.  This module states that invariant, shows that every change
of an environment keeps it, and draws the consequences for looking up.

## Main definitions

* `Environment.WellFormed`: there is an outermost scope without a parent, and
  every other scope has a parent that stands before it
* `Environment.Reachable`: what pushing, discarding and binding can make of the
  initial environment
* `Environment.Walk`: the search for a name as the sequence of scopes that it
  looks into, with no bound on its length

## Main statements

* `Reachable.wellFormed`: the invariant holds of everything reachable
* `WellFormed.get?_eq`: a lookup is the scope's own value, or else the parent's
* `WellFormed.exists_walk`: every search ends, and looks into positions that
  strictly decrease
-/

namespace TreeWalk

namespace Environment

variable {env env' : Environment} {s p t : ScopeId} {x y : Name} {v : Value}

/-! ## What each change can do -/

/-- A push succeeds exactly on a parent that is there, and puts an empty frame
at the end. -/
theorem push_eq_ok_iff :
    env.push p = .ok (s, env') ↔
      env.IsLive p ∧ s = ⟨env.depth⟩ ∧ env' = ⟨env.frames.push ⟨[], some p⟩⟩ := by
  unfold push
  split
  · next live => simp [live, eq_comm]
  · next dead => simp [dead]

/-- A scope is discarded only from the end; where there is nothing to discard,
nothing changes. -/
theorem pop_eq_ok_iff :
    env.pop s = .ok env' ↔
      (env.IsInner s ∧ s.index + 1 = env.depth ∧ env' = ⟨env.frames.pop⟩) ∨
        (¬ env.IsInner s ∧ env' = env) := by
  unfold pop
  split
  · next inner =>
    split
    · next last => simp [inner, last, eq_comm]
    · next notLast => simp [inner, notLast]
  · next outer => simp [outer, eq_comm]

/-- A name is bound exactly in a scope that is there, and in that scope's own
frame. -/
theorem set_eq_ok_iff :
    env.set s x v = .ok env' ↔
      env.IsLive s ∧ env' = ⟨env.frames.modify s.index (·.assign x v)⟩ := by
  unfold set
  split
  · next live => simp [live, eq_comm]
  · next dead => simp [dead]

/-! ## Frames, parents and own values -/

theorem isLive_iff_getElem? : env.IsLive s ↔ ∃ f, env.frames[s.index]? = some f := by
  rw [IsLive, ← Option.isSome_iff_exists, isSome_getElem?]

theorem parent?_eq_some_iff :
    env.parent? s = some p ↔ ∃ f, env.frames[s.index]? = some f ∧ f.parent = some p := by
  rw [parent?, Option.bind_eq_some_iff]

/-- Own values and parents are read off the frame alone. -/
theorem own?_congr (h : env'.frames[s.index]? = env.frames[s.index]?) (x : Name) :
    env'.own? s x = env.own? s x := by
  rw [own?, own?, h]

theorem parent?_congr (h : env'.frames[s.index]? = env.frames[s.index]?) :
    env'.parent? s = env.parent? s := by
  rw [parent?, parent?, h]

/-- A push leaves every frame that is there alone. -/
theorem getElem?_frames_push {i : Nat} (h : env.push p = .ok (s, env')) (hi : i < env.depth) :
    env'.frames[i]? = env.frames[i]? := by
  obtain ⟨-, -, rfl⟩ := push_eq_ok_iff.mp h
  exact Array.getElem?_push_lt hi |>.trans (Array.getElem?_eq_getElem hi).symm

/-- Binding in one scope leaves the frames of all others alone. -/
theorem getElem?_frames_set {i : Nat} (h : env.set s x v = .ok env') (hi : i ≠ s.index) :
    env'.frames[i]? = env.frames[i]? := by
  obtain ⟨-, rfl⟩ := set_eq_ok_iff.mp h
  rw [Array.getElem?_modify, if_neg (Ne.symm hi)]

theorem getElem?_frames_set_self (h : env.set s x v = .ok env') :
    env'.frames[s.index]? = env.frames[s.index]?.map (·.assign x v) := by
  obtain ⟨-, rfl⟩ := set_eq_ok_iff.mp h
  rw [Array.getElem?_modify, if_pos rfl]

theorem depth_push (h : env.push p = .ok (s, env')) : env'.depth = env.depth + 1 := by
  obtain ⟨-, -, rfl⟩ := push_eq_ok_iff.mp h
  exact Array.size_push _

theorem depth_set (h : env.set s x v = .ok env') : env'.depth = env.depth := by
  obtain ⟨-, rfl⟩ := set_eq_ok_iff.mp h
  exact Array.size_modify

/-- Binding never changes what a scope is nested in. -/
theorem parent?_set (h : env.set s x v = .ok env') (t : ScopeId) :
    env'.parent? t = env.parent? t := by
  by_cases ht : t.index = s.index
  · rw [parent?, parent?, ht, getElem?_frames_set_self h]
    cases env.frames[s.index]? <;> rfl
  · exact parent?_congr (getElem?_frames_set h ht)

/-- The scope that is bound in gives the new value, and no other name changes. -/
theorem own?_set_self (h : env.set s x v = .ok env') (y : Name) :
    env'.own? s y = if y = x then some v else env.own? s y := by
  obtain ⟨f, hf⟩ := isLive_iff_getElem?.mp (set_eq_ok_iff.mp h).1
  rw [own?, own?, getElem?_frames_set_self h, hf]
  exact Bindings.find?_assign f.bindings x y v

/-- Only the scope that is bound in, and only the name that is bound, gets another value. -/
theorem own?_set (h : env.set s x v = .ok env') (ne : ¬ (y = x ∧ t = s)) :
    env'.own? t y = env.own? t y := by
  by_cases same : t = s
  · subst same
    have other : y ≠ x := fun hy => ne ⟨hy, rfl⟩
    rw [own?_set_self h, if_neg other]
  · have apart : t.index ≠ s.index := fun hi => same (congrArg ScopeId.mk hi)
    exact own?_congr (getElem?_frames_set h apart) y

/-- A new scope binds nothing itself. -/
theorem own?_push_self (h : env.push p = .ok (s, env')) (x : Name) : env'.own? s x = none := by
  obtain ⟨-, rfl, rfl⟩ := push_eq_ok_iff.mp h
  simp [own?, depth]

/-- A new scope is nested in the scope that it was pushed on. -/
theorem parent?_push_self (h : env.push p = .ok (s, env')) : env'.parent? s = some p := by
  obtain ⟨-, rfl, rfl⟩ := push_eq_ok_iff.mp h
  simp [parent?, depth]

/-! ## Well-formed arenas -/

/-- **The shape that every arena has.**  The outermost scope is always there and
is nested in nothing; every other scope is nested in one that stands before
it. -/
structure WellFormed (env : Environment) : Prop where
  /-- There is at least the outermost scope. -/
  depth_pos : 0 < env.depth
  /-- The outermost scope has no parent. -/
  root : env.parent? .root = none
  /-- Every other scope has a parent, and the parent stands before it. -/
  inner : ∀ s, env.IsInner s → ∃ p, env.parent? s = some p ∧ p.index < s.index

/-- What the three changes can make of the initial environment.  A change that
is refused makes nothing, so only successful ones count. -/
inductive Reachable : Environment → Prop where
  | initial : Reachable .initial
  | push {env env' : Environment} {p s : ScopeId} :
      Reachable env → env.push p = .ok (s, env') → Reachable env'
  | pop {env env' : Environment} {s : ScopeId} :
      Reachable env → env.pop s = .ok env' → Reachable env'
  | set {env env' : Environment} {s : ScopeId} {x : Name} {v : Value} :
      Reachable env → env.set s x v = .ok env' → Reachable env'

namespace WellFormed

theorem initial : WellFormed .initial where
  depth_pos := Nat.one_pos
  root := rfl
  inner s inner := by
    have live : s.index < 1 := inner.2
    have isRoot : s = .root := congrArg ScopeId.mk (Nat.lt_one_iff.mp live)
    exact absurd isRoot inner.1

/-- A parent that is recorded stands before its child. -/
theorem parent_lt (wf : env.WellFormed) (h : env.parent? s = some p) : p.index < s.index := by
  have notRoot : s ≠ .root := by
    rintro rfl
    rw [wf.root] at h
    cases h
  obtain ⟨f, hf, -⟩ := parent?_eq_some_iff.mp h
  obtain ⟨q, hq, before⟩ := wf.inner s ⟨notRoot, isLive_iff_getElem?.mpr ⟨f, hf⟩⟩
  rw [h] at hq
  cases hq
  exact before

/-- The shape depends on the number of frames and on the parents alone. -/
theorem of_parent?_eq (wf : env.WellFormed) (depth_pos : 0 < env'.depth)
    (depth_le : env'.depth ≤ env.depth)
    (parent : ∀ s, env'.IsLive s → env'.parent? s = env.parent? s) : env'.WellFormed where
  depth_pos := depth_pos
  root := (parent .root depth_pos).trans wf.root
  inner s inner := by
    rw [parent s inner.2]
    exact wf.inner s ⟨inner.1, Nat.lt_of_lt_of_le inner.2 depth_le⟩

theorem push (wf : env.WellFormed) (h : env.push p = .ok (s, env')) : env'.WellFormed where
  depth_pos := by
    rw [depth_push h]
    exact Nat.succ_pos _
  root := (parent?_congr (getElem?_frames_push h wf.depth_pos)).trans wf.root
  inner t inner := by
    obtain ⟨live, rfl, -⟩ := push_eq_ok_iff.mp h
    have bound : t.index < env.depth + 1 := depth_push h ▸ inner.2
    rcases Nat.lt_succ_iff_lt_or_eq.mp bound with older | newest
    · rw [parent?_congr (getElem?_frames_push h older)]
      exact wf.inner t ⟨inner.1, older⟩
    · obtain rfl : t = ⟨env.depth⟩ := congrArg ScopeId.mk newest
      exact ⟨p, parent?_push_self h, live⟩

theorem pop (wf : env.WellFormed) (h : env.pop s = .ok env') : env'.WellFormed := by
  rcases pop_eq_ok_iff.mp h with ⟨inner, last, rfl⟩ | ⟨-, rfl⟩
  · have size : env.frames.pop.size = s.index := by
      rw [Array.size_pop, ← depth, ← last, Nat.add_sub_cancel]
    have notZero : s.index ≠ 0 := fun zero => inner.1 (congrArg ScopeId.mk zero)
    refine wf.of_parent?_eq ?_ ?_ fun t live => parent?_congr ?_
    · rw [depth, size]
      exact Nat.pos_of_ne_zero notZero
    · rw [depth, size]
      exact Nat.le_of_lt inner.2
    · rw [Array.getElem?_pop, if_pos (by rwa [← Array.size_pop])]
  · exact wf

theorem set (wf : env.WellFormed) (h : env.set s x v = .ok env') : env'.WellFormed := by
  refine wf.of_parent?_eq ?_ (Nat.le_of_eq (depth_set h)) fun t _ => parent?_set h t
  rw [depth_set h]
  exact wf.depth_pos

end WellFormed

/-- **Every reachable arena is well-formed.** -/
theorem Reachable.wellFormed (h : env.Reachable) : env.WellFormed := by
  induction h with
  | initial => exact .initial
  | push _ pushed wf => exact wf.push pushed
  | pop _ popped wf => exact wf.pop popped
  | set _ bound wf => exact wf.set bound

/-- An outermost scope that binds names from the start could have bound them one
after another. -/
theorem Reachable.ofBindings (bindings : List (Name × Value)) :
    (ofBindings bindings).Reachable := by
  suffices ∀ bs : Bindings, Reachable ⟨#[⟨bs, none⟩]⟩ →
      Reachable ⟨#[⟨bs.assignAll bindings, none⟩]⟩ from this [] .initial
  induction bindings with
  | nil => exact fun _ reachable => reachable
  | cons b rest ih =>
    intro bs reachable
    have bound : (⟨#[⟨bs, none⟩]⟩ : Environment).set .root b.1 b.2 =
        .ok ⟨#[⟨bs.assign b.1 b.2, none⟩]⟩ := rfl
    exact ih (bs.assign b.1 b.2) (reachable.set bound)

/-! ## Looking up in a well-formed arena -/

namespace WellFormed

/-- The bound on a lookup is no part of its meaning: any that exceeds the
position of the scope gives the same value. -/
theorem findUpTo_eq_get? (wf : env.WellFormed) (x : Name) (s : ScopeId) :
    ∀ bound, s.index < bound → env.findUpTo x bound s = env.get? s x := by
  -- Strong induction on the position: the parent stands before, so both bounds
  -- exceed its position too.
  induction hi : s.index using Nat.strongRecOn generalizing s with
  | ind i ih =>
    subst hi
    intro bound large
    obtain ⟨bound, rfl⟩ : ∃ b, bound = b + 1 := ⟨bound - 1, by omega⟩
    rw [get?, findUpTo, findUpTo]
    rcases hf : env.frames[s.index]? with _ | f
    · rfl
    · rcases hp : f.parent with _ | p
      · simp [hp]
      · have before := wf.parent_lt (parent?_eq_some_iff.mpr ⟨f, hf, hp⟩)
        simp only [hp, ih p.index before p rfl bound (by omega),
          ih p.index before p rfl s.index before]

/-- **A lookup is the scope's own value, or else what its parent finds.** -/
theorem get?_eq (wf : env.WellFormed) (s : ScopeId) (x : Name) :
    env.get? s x = (env.own? s x).or ((env.parent? s).bind fun p => env.get? p x) := by
  rw [get?, findUpTo, own?, parent?]
  rcases hf : env.frames[s.index]? with _ | f
  · rfl
  · simp only [Option.bind_some]
    rcases hp : f.parent with _ | p
    · rcases f.bindings.find? x with _ | v <;> rfl
    · have before := wf.parent_lt (parent?_eq_some_iff.mpr ⟨f, hf, hp⟩)
      rcases f.bindings.find? x with _ | v
      · exact wf.findUpTo_eq_get? x p s.index before
      · rfl

/-- A lookup sees only the frames at or before the scope. -/
theorem get?_congr (wf : env.WellFormed) (wf' : env'.WellFormed) (x : Name) (s : ScopeId) :
    (∀ i ≤ s.index, env'.frames[i]? = env.frames[i]?) → env'.get? s x = env.get? s x := by
  induction hi : s.index using Nat.strongRecOn generalizing s with
  | ind i ih =>
    subst hi
    intro same
    have here := same s.index (Nat.le_refl _)
    rw [wf'.get?_eq, wf.get?_eq, own?_congr here, parent?_congr here]
    rcases hp : env.parent? s with _ | p
    · rfl
    · have before := wf.parent_lt hp
      have outer := ih p.index before p rfl fun i hi => same i (by omega)
      rw [Option.bind_some, Option.bind_some, outer]

/-- In a scope that binds a name, that name has the new value and all others
keep theirs. -/
theorem get?_set (wf : env.WellFormed) (h : env.set s x v = .ok env') (y : Name) :
    env'.get? s y = if y = x then some v else env.get? s y := by
  rw [(wf.set h).get?_eq, wf.get?_eq, own?_set_self h, parent?_set h]
  by_cases hy : y = x
  · rw [if_pos hy, if_pos hy, Option.some_or]
  · rw [if_neg hy, if_neg hy]
    rcases hp : env.parent? s with _ | p
    · rfl
    · have before := wf.parent_lt hp
      have outer := wf.get?_congr (wf.set h) y p fun i hi =>
        getElem?_frames_set h (by omega)
      rw [Option.bind_some, Option.bind_some, outer]

/-- A new scope sees what its parent saw. -/
theorem get?_push (wf : env.WellFormed) (h : env.push p = .ok (s, env')) (y : Name) :
    env'.get? s y = env.get? p y := by
  obtain ⟨live, -, -⟩ := push_eq_ok_iff.mp h
  rw [(wf.push h).get?_eq, own?_push_self h, parent?_push_self h, Option.none_or,
    Option.bind_some]
  exact wf.get?_congr (wf.push h) y p fun i hi =>
    getElem?_frames_push h (Nat.lt_of_le_of_lt hi live)

end WellFormed

/-! ## Searches without a bound -/

/-- The search for a name from a scope outward, as the scopes it looks into and
what it comes to.  Nothing here limits the number of steps: that there is a
`Walk` at all says that the search ends. -/
inductive Walk (env : Environment) (x : Name) : ScopeId → List ScopeId → Option Value → Prop where
  /-- There is no such scope. -/
  | gone {s : ScopeId} : env.frames[s.index]? = none → Walk env x s [] none
  /-- The scope itself binds the name. -/
  | found {s : ScopeId} {f : Frame} {v : Value} :
      env.frames[s.index]? = some f → f.bindings.find? x = some v → Walk env x s [s] (some v)
  /-- The scope does not bind the name and is nested in nothing. -/
  | outermost {s : ScopeId} {f : Frame} :
      env.frames[s.index]? = some f → f.bindings.find? x = none → f.parent = none →
        Walk env x s [s] none
  /-- The scope does not bind the name, and the search goes on in its parent. -/
  | outward {s p : ScopeId} {f : Frame} {path : List ScopeId} {r : Option Value} :
      env.frames[s.index]? = some f → f.bindings.find? x = none → f.parent = some p →
        Walk env x p path r → Walk env x s (s :: path) r

/-- **Every search ends.**  It comes to what a lookup comes to, and the positions
it looks into strictly decrease. -/
theorem WellFormed.exists_walk (wf : env.WellFormed) (x : Name) (s : ScopeId) :
    ∃ path, env.Walk x s path (env.get? s x) ∧ (∀ t ∈ path, t.index ≤ s.index) ∧
      path.Pairwise fun t u => u.index < t.index := by
  induction hi : s.index using Nat.strongRecOn generalizing s with
  | ind i ih =>
    subst hi
    rw [wf.get?_eq, own?, parent?]
    rcases hf : env.frames[s.index]? with _ | f
    · exact ⟨[], .gone hf, by simp, .nil⟩
    · simp only [Option.bind_some]
      rcases hx : f.bindings.find? x with _ | v
      · rcases hp : f.parent with _ | p
        · exact ⟨[s], .outermost hf hx hp, by simp, List.pairwise_singleton ..⟩
        · have before := wf.parent_lt (parent?_eq_some_iff.mpr ⟨f, hf, hp⟩)
          obtain ⟨path, walk, within, decreasing⟩ := ih p.index before p rfl
          refine ⟨s :: path, .outward hf hx hp walk, ?_, ?_⟩
          · rintro t (_ | ⟨_, mem⟩)
            · exact Nat.le_refl _
            · exact Nat.le_of_lt (Nat.lt_of_le_of_lt (within t mem) before)
          · exact .cons (fun t mem => Nat.lt_of_le_of_lt (within t mem) before) decreasing
      · exact ⟨[s], .found hf hx, by simp, List.pairwise_singleton ..⟩

end Environment

end TreeWalk
