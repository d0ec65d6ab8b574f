import BlendVault.Foundations.FailStop

/-! Two programs in lockstep. From related states they stop with the same failure or both return,
with related values and in related states. Programs put together alike from parts in lockstep are
in lockstep again. -/
namespace FailStop

variable {σ σ' ε α α' β β' : Type} {R : σ → σ' → Prop} {V : α → α' → Prop} {U : β → β' → Prop}

/-- The ways two programs may have ended alike. -/
inductive Agree (R : σ → σ' → Prop) (V : α → α' → Prop) :
    Except ε (α × σ) → Except ε (α' × σ') → Prop
  | ok {a : α} {a' : α'} {s : σ} {s' : σ'} (value : V a a') (state : R s s') :
      Agree R V (.ok (a,s)) (.ok (a',s'))
  | error (err : ε) : Agree R V (.error err) (.error err)

/-- From related states the programs end alike. -/
def Lockstep (R : σ → σ' → Prop) (V : α → α' → Prop) (m : Program σ ε α) (m' : Program σ' ε α') :
    Prop := ∀ s s', R s s' → Agree R V (m s) (m' s')

namespace Lockstep
variable {m : Program σ ε α} {m' : Program σ' ε α'} {k : α → Program σ ε β}
  {k' : α' → Program σ' ε β'} {s t : σ} {s' : σ'} {a : α} {err : ε}

/-- What the first program returns, the second returns. -/
theorem returns (h : Lockstep R V m m') (hs : R s s') (hret : Returns m s a t) :
    ∃ a' t', Returns m' s' a' t' ∧ V a a' ∧ R t t' := by
  have hagree := h s s' hs
  rw [Returns] at hret
  rw [hret] at hagree
  cases hm : m' s' with
  | error err =>
    rw [hm] at hagree
    cases hagree
  | ok p =>
    rw [hm] at hagree
    cases hagree with
    | ok value state => exact ⟨_,_,hm,value,state⟩

/-- Seen from outside they do the same, where values are the same on both sides. -/
theorem observed {m' : Program σ' ε α} (h : Lockstep R Eq m m') (hs : R s s') :
    value m s = value m' s' ∧ failure m s = failure m' s' := by
  have hagree := h s s' hs
  unfold value failure
  generalize m s = x at hagree ⊢
  generalize m' s' = y at hagree ⊢
  cases hagree with
  | ok hvalue _ =>
    subst hvalue
    exact ⟨rfl,rfl⟩
  | error err => exact ⟨rfl,rfl⟩

theorem pure {a : α} {a' : α'} (h : V a a') :
    Lockstep R V (Pure.pure a : Program σ ε α) (Pure.pure a') := fun _ _ hs => .ok h hs

theorem throw : Lockstep R V (MonadExcept.throw err : Program σ ε α) (MonadExcept.throw err) :=
  fun _ _ _ => .error err

/-- One step after the other. -/
theorem bind (hm : Lockstep R V m m') (hk : ∀ a a', V a a' → Lockstep R U (k a) (k' a')) :
    Lockstep R U (m >>= k) (m' >>= k') := by
  intro s s' hs
  have hagree := hm s s' hs
  change Agree R U (m s >>= fun p => k p.1 p.2) (m' s' >>= fun p => k' p.1 p.2)
  cases hx : m s with
  | error err =>
    rw [hx] at hagree
    generalize m' s' = y at hagree ⊢
    cases hagree
    exact .error err
  | ok p =>
    rw [hx] at hagree
    generalize m' s' = y at hagree ⊢
    cases hagree with
    | ok value state => exact hk _ _ value _ _ state

/-- The same value is passed on. -/
theorem bind_same {m' : Program σ' ε α} {k' : α → Program σ' ε β'} (hm : Lockstep R Eq m m')
    (hk : ∀ a, Lockstep R U (k a) (k' a)) : Lockstep R U (m >>= k) (m' >>= k') := by
  apply hm.bind
  intro a a' ha
  subst ha
  exact hk a

theorem map {g : α → β} {g' : α' → β'} (hm : Lockstep R V m m')
    (hg : ∀ a a', V a a' → U (g a) (g' a')) : Lockstep R U (g <$> m) (g' <$> m') := by
  rw [← bind_pure_comp,← bind_pure_comp]
  exact hm.bind fun a a' ha => .pure (hg a a' ha)

theorem observe {f : σ → α} {f' : σ' → α'} (h : ∀ s s', R s s' → V (f s) (f' s')) :
    Lockstep R V (FailStop.observe f : Program σ ε α) (FailStop.observe f') :=
  fun s s' hs => .ok (h s s' hs) hs

theorem update {f : σ → σ} {f' : σ' → σ'} (h : ∀ s s', R s s' → R (f s) (f' s')) :
    Lockstep R Eq (FailStop.update f : Program σ ε Unit) (FailStop.update f') :=
  fun s s' hs => .ok rfl (h s s' hs)

theorem ofOption {o : Option α} {o' : Option α'} (h : Option.Rel V o o') :
    Lockstep R V (FailStop.ofOption err o : Program σ ε α) (FailStop.ofOption err o') := by
  cases h with
  | some hv => exact .pure hv
  | none => exact .throw

theorem require {c c' : Prop} [Decidable c] [Decidable c'] (h : c ↔ c') :
    Lockstep R Eq (FailStop.require c err : Program σ ε Unit) (FailStop.require c' err) := by
  unfold FailStop.require
  by_cases hc : c
  · rw [if_pos hc,if_pos (h.mp hc)]
    exact .pure rfl
  · rw [if_neg hc,if_neg (mt h.mpr hc)]
    exact .throw

theorem ite {c c' : Prop} [Decidable c] [Decidable c'] {n : Program σ ε α} {n' : Program σ' ε α'}
    (h : c ↔ c') (hm : Lockstep R V m m') (hn : Lockstep R V n n') :
    Lockstep R V (if c then m else n) (if c' then m' else n') := by
  by_cases hc : c
  · rw [if_pos hc,if_pos (h.mp hc)]
    exact hm
  · rw [if_neg hc,if_neg (mt h.mpr hc)]
    exact hn

end Lockstep

theorem optionRel_of_same {V : α → α → Prop} {o : Option α} (h : ∀ a, V a a) : Option.Rel V o o := by
  cases o with
  | none => exact .none
  | some a => exact .some (h a)

/-- Options that are the same are related by equality. -/
theorem optionRel_eq (o : Option α) : Option.Rel Eq o o := optionRel_of_same fun _ => rfl

theorem optionRel_flip {V : α → α' → Prop} {o : Option α} {o' : Option α'} (h : Option.Rel V o o') :
    Option.Rel (flip V) o' o := by
  cases h with
  | some h => exact .some h
  | none => exact .none

end FailStop
