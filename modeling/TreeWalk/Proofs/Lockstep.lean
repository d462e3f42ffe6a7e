import TreeWalk.Proc

/-!
# Procedures in lockstep

Two procedures over different states run in lockstep if, from related states,
either both have no outcome, or both come to outcomes of the same kind and to
related states again.  Lockstep is put together along the structure of the
procedures, so a simulation has only its primitive steps to look at.

## Main definitions

* `Proc.Agree`: two outcomes of the same kind, with related contents
* `Proc.Lockstep`: the two procedures run in lockstep
* `Matched`: whatever comes out on one side comes out on the other

## Main statements

* `Proc.Lockstep.matched`: procedures that run in lockstep under every bound come
  to matching outcomes
-/

namespace TreeWalk

namespace Proc

variable {σ τ ε δ α β α' β' : Type}

/-- Two results that are related, or two reasons to stop that are. -/
inductive Agree (V : α → β → Prop) (E : ε → δ → Prop) : Except ε α → Except δ β → Prop where
  | ok {a : α} {b : β} : V a b → Agree V E (.ok a) (.ok b)
  | error {e : ε} {d : δ} : E e d → Agree V E (.error e) (.error d)

/-- Results may be said to have less in common. -/
theorem Agree.imp {V V' : α → β → Prop} {E : ε → δ → Prop} {r : Except ε α} {r' : Except δ β}
    (h : Agree V E r r') (weaken : ∀ a b, V a b → V' a b) : Agree V' E r r' := by
  rcases h with same | same
  · exact .ok (weaken _ _ same)
  · exact .error same

/-- Results that are related are turned into results that are. -/
theorem Agree.map {V : α → β → Prop} {W : α' → β' → Prop} {E : ε → δ → Prop} {r : Except ε α}
    {r' : Except δ β} {f : α → α'} {g : β → β'} (h : Agree V E r r')
    (hfg : ∀ a b, V a b → W (f a) (g b)) : Agree W E (r.map f) (r'.map g) := by
  rcases h with same | same
  · exact .ok (hfg _ _ same)
  · exact .error same

/-- Outcomes that agree still do when their reasons to stop are reworded. -/
theorem Agree.mapError {V : α → β → Prop} {r : Except ε α} {r' : Except ε β}
    (h : Agree V Eq r r') (f : ε → δ) : Agree V Eq (r.mapError f) (r'.mapError f) := by
  rcases h with same | same
  · exact .ok same
  · exact .error (congrArg f same)

/-- From states related by `R`, the procedures have an outcome together, the
outcomes agree, and the states are related again. -/
def Lockstep (R : σ → τ → Prop) (E : ε → δ → Prop) (V : α → β → Prop) (x : Proc σ ε α)
    (y : Proc τ δ β) : Prop :=
  ∀ s t, R s t →
    Option.Rel (fun o o' => Agree V E o.1 o'.1 ∧ R o.2 o'.2) (x.run s) (y.run t)

/-- Two options that are related are both missing, or both there. -/
theorem rel_cases {P : α → β → Prop} {a : Option α} {b : Option β} (h : Option.Rel P a b) :
    (a = none ∧ b = none) ∨ ∃ x y, a = some x ∧ b = some y ∧ P x y := by
  cases h with
  | none => exact .inl ⟨rfl, rfl⟩
  | some related => exact .inr ⟨_, _, rfl, rfl, related⟩

/-- Options that are related stay related under maps that respect the relation. -/
theorem rel_map {P : α → β → Prop} {Q : α' → β' → Prop} {f : α → α'} {g : β → β'}
    {a : Option α} {b : Option β} (h : Option.Rel P a b) (hfg : ∀ a b, P a b → Q (f a) (g b)) :
    Option.Rel Q (a.map f) (b.map g) := by
  cases h with
  | none => exact .none
  | some related => exact .some (hfg _ _ related)

/-- Options that are related become equal under maps that forget the difference. -/
theorem map_eq_of_rel {P : α → β → Prop} {f : α → α'} {g : β → α'} {a : Option α} {b : Option β}
    (h : Option.Rel P a b) (hfg : ∀ a b, P a b → g b = f a) : b.map g = a.map f := by
  cases h with
  | none => rfl
  | some related => exact congrArg some (hfg _ _ related)

/-- Options that are related stay related when they are gone on with alike. -/
theorem rel_bind {P : α → β → Prop} {Q : α' → β' → Prop} {f : α → Option α'}
    {g : β → Option β'} {a : Option α} {b : Option β} (h : Option.Rel P a b)
    (hfg : ∀ a b, P a b → Option.Rel Q (f a) (g b)) : Option.Rel Q (a >>= f) (b >>= g) := by
  cases h with
  | none => exact .none
  | some related => exact hfg _ _ related

namespace Lockstep

variable {R : σ → τ → Prop} {E : ε → δ → Prop} {V : α → β → Prop} {W : α' → β' → Prop}

theorem noOutcome : Lockstep R E V Proc.noOutcome Proc.noOutcome := fun _ _ _ => .none

theorem pure {a : α} {b : β} (h : V a b) : Lockstep R E V (Pure.pure a) (Pure.pure b) :=
  fun _ _ related => .some ⟨.ok h, related⟩

theorem ofExcept {r : Except ε α} {r' : Except δ β} (h : Agree V E r r') :
    Lockstep R E V (Proc.ofExcept r) (Proc.ofExcept r') :=
  fun _ _ related => .some ⟨h, related⟩

/-- Going on with related results keeps lockstep. -/
theorem bind {x : Proc σ ε α} {y : Proc τ δ β} {f : α → Proc σ ε α'} {g : β → Proc τ δ β'}
    (hxy : Lockstep R E V x y) (hfg : ∀ a b, V a b → Lockstep R E W (f a) (g b)) :
    Lockstep R E W (x >>= f) (y >>= g) := by
  intro s t related
  obtain ⟨hx, hy⟩ | ⟨⟨r, s'⟩, ⟨r', t'⟩, hx, hy, agree, related'⟩ := rel_cases (hxy s t related)
  · rw [run_bind_of_none hx, run_bind_of_none hy]
    exact .none
  · rcases agree with h | h
    · rw [run_bind_of_ok hx, run_bind_of_ok hy]
      exact hfg _ _ h s' t' related'
    · rw [run_bind_of_error hx, run_bind_of_error hy]
      exact .some ⟨.error h, related'⟩

/-- A change at the end of one of them that the relation does not see. -/
theorem ensuring_modify_left {x : Proc σ ε α} {y : Proc τ δ β} (hxy : Lockstep R E V x y)
    {f : σ → σ} (hf : ∀ s t, R s t → R (f s) t) :
    Lockstep R E V (x.ensuring (Proc.modify f)) y := by
  intro s t related
  have same : (y.run t).map id = y.run t := Option.map_id_apply
  rw [run_ensuring_modify, ← same]
  exact rel_map (hxy s t related) fun o o' agree => ⟨agree.1, hf o.2 o'.2 agree.2⟩

/-- A change at the start of one of them that the relation does not see. -/
theorem modify_bind_left {x : Proc σ ε α} {y : Proc τ δ β} (hxy : Lockstep R E V x y)
    {f : σ → σ} (hf : ∀ s t, R s t → R (f s) t) :
    Lockstep R E V (Proc.modify f >>= fun _ => x) y :=
  fun s t related => hxy (f s) t (hf s t related)

/-- A change of both states. -/
theorem modify {f : σ → σ} {g : τ → τ} (h : ∀ s t, R s t → R (f s) (g t)) :
    Lockstep R E (fun _ _ => True) (Proc.modify f) (Proc.modify g) :=
  fun s t related => .some ⟨.ok trivial, h s t related⟩

/-- A change of both states at the end, however the procedures end. -/
theorem ensuring_modify {x : Proc σ ε α} {y : Proc τ δ β} (hxy : Lockstep R E V x y)
    {f : σ → σ} {g : τ → τ} (h : ∀ s t, R s t → R (f s) (g t)) :
    Lockstep R E V (x.ensuring (Proc.modify f)) (y.ensuring (Proc.modify g)) := by
  intro s t related
  rw [run_ensuring_modify, run_ensuring_modify]
  exact rel_map (hxy s t related) fun o o' both => ⟨both.1, h o.2 o'.2 both.2⟩

/-- An outcome on the left is matched on the right. -/
theorem exists_right {x : Proc σ ε α} {y : Proc τ δ β} (hxy : Lockstep R E V x y) {s s' : σ}
    {t : τ} {r : Except ε α} (related : R s t) (run : x.run s = some (r, s')) :
    ∃ r' t', y.run t = some (r', t') ∧ Agree V E r r' ∧ R s' t' := by
  obtain ⟨hx, -⟩ | ⟨o, ⟨r', t'⟩, hx, hy, both⟩ := rel_cases (hxy s t related)
  · cases run.symm.trans hx
  · obtain rfl : (r, s') = o := Option.some.inj (run.symm.trans hx)
    exact ⟨r', t', hy, both⟩

/-- An outcome on the right is matched on the left. -/
theorem exists_left {x : Proc σ ε α} {y : Proc τ δ β} (hxy : Lockstep R E V x y) {s : σ}
    {t t' : τ} {r' : Except δ β} (related : R s t) (run : y.run t = some (r', t')) :
    ∃ r s', x.run s = some (r, s') ∧ Agree V E r r' ∧ R s' t' := by
  obtain ⟨-, hy⟩ | ⟨⟨r, s'⟩, o, hx, hy, both⟩ := rel_cases (hxy s t related)
  · cases run.symm.trans hy
  · obtain rfl : (r', t') = o := Option.some.inj (run.symm.trans hy)
    exact ⟨r, s', hx, both⟩

end Lockstep

end Proc

/-! ## Outcomes under some bound -/

/-- Whatever `P` allows has a counterpart that `P'` allows, and the other way
round; `Q` says what counterparts have in common. -/
def Matched {α β : Type} (Q : α → β → Prop) (P : α → Prop) (P' : β → Prop) : Prop :=
  (∀ a, P a → ∃ b, P' b ∧ Q a b) ∧ ∀ b, P' b → ∃ a, P a ∧ Q a b

/-- Counterparts may be said to have less in common, or something else that
follows. -/
theorem Matched.imp {α β : Type} {Q Q' : α → β → Prop} {P : α → Prop} {P' : β → Prop}
    (h : Matched Q P P') (weaken : ∀ a b, Q a b → Q' a b) : Matched Q' P P' := by
  refine ⟨fun a ha => ?_, fun b hb => ?_⟩
  · obtain ⟨b, hb, both⟩ := h.1 a ha
    exact ⟨b, hb, weaken a b both⟩
  · obtain ⟨a, ha, both⟩ := h.2 b hb
    exact ⟨a, ha, weaken a b both⟩

/-- **Procedures that run in lockstep under every bound come to matching
outcomes.** -/
theorem Proc.Lockstep.matched {σ τ ε δ α β : Type} {R : σ → τ → Prop} {E : ε → δ → Prop}
    {V : α → β → Prop} {x : Nat → Proc σ ε α} {y : Nat → Proc τ δ β}
    (h : ∀ depth, Lockstep R E V (x depth) (y depth)) {s : σ} {t : τ} (related : R s t) :
    Matched (fun o o' => Agree V E o.1 o'.1 ∧ R o.2 o'.2)
      (fun o => ∃ depth, (x depth).run s = some o)
      fun o' => ∃ depth, (y depth).run t = some o' := by
  constructor
  · rintro ⟨r, s'⟩ ⟨depth, run⟩
    obtain ⟨r', t', run', both⟩ := (h depth).exists_right related run
    exact ⟨(r', t'), ⟨depth, run'⟩, both⟩
  · rintro ⟨r', t'⟩ ⟨depth, run⟩
    obtain ⟨r, s', run', both⟩ := (h depth).exists_left related run
    exact ⟨(r, s'), ⟨depth, run'⟩, both⟩

end TreeWalk
