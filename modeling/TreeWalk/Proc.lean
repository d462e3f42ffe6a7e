/-!
# Procedures

A procedure works on a state.  It comes to a result, or it stops early for a
reason, or it has no outcome at all.

## Main definitions

* `Proc`: a procedure over a type of states and a type of reasons to stop
* `Proc.stop`: stop early
* `Proc.ensuring`: do something at the end, however the procedure ends
* `Proc.Below`: agreement with another procedure, wherever there is an outcome

## Design notes

**A procedure that stops early keeps its state.**  What it did before stays done,
and whoever runs the procedure goes on from there.  Only a procedure without an
outcome has no state afterwards.  That case is kept for procedures that were
given too small a bound: `Below` says that one procedure is the other under a
smaller bound.
-/

namespace TreeWalk

/-- A procedure on states `σ` that may stop early with a reason `ε`.  Running it
gives `none` if it has no outcome. -/
@[ext] structure Proc (σ ε α : Type) where
  run : σ → Option (Except ε α × σ)

namespace Proc

variable {σ ε α β : Type}

/-- Come to a result at once. -/
@[inline] protected def pure (a : α) : Proc σ ε α := ⟨fun s => some (.ok a, s)⟩

/-- Go on with the result of a procedure, in the state that it left. -/
@[inline] protected def bind (x : Proc σ ε α) (f : α → Proc σ ε β) : Proc σ ε β :=
  ⟨fun s =>
    match x.run s with
    | none => none
    | some (.ok a, s) => (f a).run s
    | some (.error e, s) => some (.error e, s)⟩

instance : Monad (Proc σ ε) where
  pure := Proc.pure
  bind := Proc.bind

@[simp] theorem run_pure (a : α) (s : σ) : (pure a : Proc σ ε α).run s = some (.ok a, s) := rfl

theorem run_bind (x : Proc σ ε α) (f : α → Proc σ ε β) (s : σ) :
    (x >>= f).run s =
      match x.run s with
      | none => none
      | some (.ok a, s) => (f a).run s
      | some (.error e, s) => some (.error e, s) := rfl

theorem run_bind_of_ok {x : Proc σ ε α} {s s' : σ} {a : α} (h : x.run s = some (.ok a, s'))
    (f : α → Proc σ ε β) : (x >>= f).run s = (f a).run s' := by
  rw [run_bind, h]

theorem run_bind_of_error {x : Proc σ ε α} {s s' : σ} {e : ε}
    (h : x.run s = some (.error e, s')) (f : α → Proc σ ε β) :
    (x >>= f).run s = some (.error e, s') := by
  rw [run_bind, h]

theorem run_bind_of_none {x : Proc σ ε α} {s : σ} (h : x.run s = none) (f : α → Proc σ ε β) :
    (x >>= f).run s = none := by
  rw [run_bind, h]

/-- The two ways in which a sequence can come to an outcome. -/
theorem run_bind_eq_some_iff {x : Proc σ ε α} {f : α → Proc σ ε β} {s : σ}
    {o : Except ε β × σ} :
    (x >>= f).run s = some o ↔
      (∃ a s', x.run s = some (.ok a, s') ∧ (f a).run s' = some o) ∨
        ∃ e s', x.run s = some (.error e, s') ∧ o = (.error e, s') := by
  rcases h : x.run s with _ | ⟨e | a, s'⟩
  · simp [run_bind_of_none h]
  · rw [run_bind_of_error h]
    constructor
    · rintro ⟨⟩
      exact .inr ⟨e, s', rfl, rfl⟩
    · rintro (⟨_, _, ⟨⟩, _⟩ | ⟨_, _, ⟨⟩, rfl⟩)
      rfl
  · rw [run_bind_of_ok h]
    constructor
    · exact fun hf => .inl ⟨a, s', rfl, hf⟩
    · rintro (⟨_, _, ⟨⟩, hf⟩ | ⟨_, _, ⟨⟩, _⟩)
      exact hf

instance : LawfulMonad (Proc σ ε) := LawfulMonad.mk' (Proc σ ε)
  (fun x => by
    refine Proc.ext (funext fun s => ?_)
    show (x >>= pure).run s = x.run s
    rcases h : x.run s with _ | ⟨_ | a, s'⟩
    · exact run_bind_of_none h _
    · exact run_bind_of_error h _
    · exact run_bind_of_ok h _)
  (fun _ _ => rfl)
  (fun x f g => by
    refine Proc.ext (funext fun s => ?_)
    rcases h : x.run s with _ | ⟨_ | a, s'⟩
    · rw [run_bind_of_none h, run_bind_of_none (run_bind_of_none h f)]
    · rw [run_bind_of_error h, run_bind_of_error (run_bind_of_error h f)]
    · rw [run_bind_of_ok h, run_bind, run_bind_of_ok h, run_bind])

/-! ## Ways to end -/

/-- The procedure without an outcome. -/
def noOutcome : Proc σ ε α := ⟨fun _ => none⟩

/-- Stop early. -/
@[inline] def stop (e : ε) : Proc σ ε α := ⟨fun s => some (.error e, s)⟩

/-- A result or a reason to stop that does not depend on the state. -/
@[inline] def ofExcept (r : Except ε α) : Proc σ ε α := ⟨fun s => some (r, s)⟩

/-- Do `last` at the end of `x`, however `x` ends.  What `x` came to is kept,
unless `last` itself stops. -/
@[inline] def ensuring (x : Proc σ ε α) (last : Proc σ ε Unit) : Proc σ ε α :=
  ⟨fun s =>
    match x.run s with
    | none => none
    | some (outcome, s) =>
      match last.run s with
      | none => none
      | some (.ok (), s) => some (outcome, s)
      | some (.error e, s) => some (.error e, s)⟩

@[simp] theorem run_noOutcome (s : σ) : (noOutcome : Proc σ ε α).run s = none := rfl

@[simp] theorem run_stop (e : ε) (s : σ) :
    (stop e : Proc σ ε α).run s = some (.error e, s) := rfl

@[simp] theorem run_ofExcept (r : Except ε α) (s : σ) :
    (ofExcept r : Proc σ ε α).run s = some (r, s) := rfl

/-- A procedure with something done at its end comes to an outcome only if both do, and the
end leaves the state. -/
theorem exists_run_of_run_ensuring {x : Proc σ ε α} {last : Proc σ ε Unit} {s s' : σ}
    {r : Except ε α} (h : (x.ensuring last).run s = some (r, s')) :
    ∃ r₁ s₁ r₂, x.run s = some (r₁, s₁) ∧ last.run s₁ = some (r₂, s') := by
  simp only [ensuring] at h
  rcases hx : x.run s with _ | ⟨r₁, s₁⟩
  · simp [hx] at h
  · simp only [hx] at h
    rcases hl : last.run s₁ with _ | ⟨_ | _, s₂⟩
    · simp [hl] at h
    all_goals
      rw [hl] at h
      cases h
      exact ⟨_, s₁, _, rfl, hl⟩

/-! ## The state -/

/-- The state. -/
@[inline] protected def get : Proc σ ε σ := ⟨fun s => some (.ok s, s)⟩

/-- Change the state. -/
@[inline] protected def modify (f : σ → σ) : Proc σ ε Unit := ⟨fun s => some (.ok (), f s)⟩

@[simp] theorem run_get (s : σ) : (Proc.get : Proc σ ε σ).run s = some (.ok s, s) := rfl

@[simp] theorem run_modify (f : σ → σ) (s : σ) :
    (Proc.modify f : Proc σ ε Unit).run s = some (.ok (), f s) := rfl

/-- A change at the end applies to whatever state there is then. -/
theorem run_ensuring_modify (x : Proc σ ε α) (f : σ → σ) (s : σ) :
    (x.ensuring (Proc.modify f)).run s = (x.run s).map fun o => (o.1, f o.2) := by
  rcases h : x.run s with _ | ⟨r, s'⟩ <;> simp [ensuring, h]

/-! ## Agreement where there is an outcome -/

/-- Wherever `x` has an outcome, `y` has the same. -/
def Below (x y : Proc σ ε α) : Prop := ∀ s r, x.run s = some r → y.run s = some r

namespace Below

theorem refl (x : Proc σ ε α) : Below x x := fun _ _ h => h

theorem trans {x y z : Proc σ ε α} (hxy : Below x y) (hyz : Below y z) : Below x z :=
  fun s r h => hyz s r (hxy s r h)

theorem noOutcome (x : Proc σ ε α) : Below Proc.noOutcome x := fun _ _ h => nomatch h

/-- Going on with a result keeps agreement. -/
theorem bind {x y : Proc σ ε α} {f g : α → Proc σ ε β} (hx : Below x y)
    (hf : ∀ a, Below (f a) (g a)) : Below (x >>= f) (y >>= g) := by
  intro s r h
  rcases hxs : x.run s with _ | ⟨_ | a, s'⟩
  · rw [run_bind_of_none hxs] at h
    cases h
  · rw [run_bind_of_error hxs] at h
    rw [run_bind_of_error (hx s _ hxs), h]
  · rw [run_bind_of_ok hxs] at h
    rw [run_bind_of_ok (hx s _ hxs)]
    exact hf a s' r h

/-- Doing something at the end keeps agreement. -/
theorem ensuring {x y : Proc σ ε α} {last last' : Proc σ ε Unit} (hx : Below x y)
    (hlast : Below last last') : Below (x.ensuring last) (y.ensuring last') := by
  intro s r h
  simp only [Proc.ensuring] at h ⊢
  rcases hxs : x.run s with _ | ⟨outcome, s'⟩
  · simp [hxs] at h
  · simp only [hxs] at h
    simp only [hx s _ hxs]
    rcases hls : last.run s' with _ | o
    · simp [hls] at h
    · rw [hls] at h
      rw [hlast s' o hls]
      exact h

end Below

end Proc

end TreeWalk
