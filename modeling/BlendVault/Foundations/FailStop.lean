import Mathlib.Init

/-! Programs that read and write a state and may stop with a failure. A program that
fails leaves nothing behind, so only what it returns, and in which state, is described. -/
namespace FailStop

/-- A program over states `σ` that stops with a failure `ε` or returns. -/
abbrev Program (σ ε : Type) := StateT σ (Except ε)

variable {σ τ ε α β : Type}

/-- Started in `s`, the program returns `a` and leaves the state `t`. -/
def Returns (m : Program σ ε α) (s : σ) (a : α) (t : σ) : Prop := m s = .ok (a,t)

/-- A value that may be missing; a missing one is the failure `err`. -/
def ofOption (err : ε) : Option α → Program σ ε α
  | some a => pure a
  | none => throw err

/-- Stop with `err` unless the condition holds. -/
def require (c : Prop) [Decidable c] (err : ε) : Program σ ε Unit :=
  if c then pure () else throw err

/-- Read a component of the state. -/
def observe (f : σ → α) : Program σ ε α := fun s => .ok (f s,s)

/-- Rewrite the state. -/
def update (f : σ → σ) : Program σ ε Unit := fun s => .ok ((),f s)

@[simp] theorem returns_pure {a b : α} {s t : σ} :
    Returns (pure a : Program σ ε α) s b t ↔ b = a ∧ t = s := by
  constructor
  · intro h; cases h; exact ⟨rfl,rfl⟩
  · intro h
    obtain ⟨rfl,rfl⟩ := h
    rfl

@[simp] theorem returns_throw {err : ε} {s t : σ} {a : α} :
    ¬ Returns (throw err : Program σ ε α) s a t := by
  intro h; cases h

@[simp] theorem returns_bind {m : Program σ ε α} {k : α → Program σ ε β} {s u : σ} {b : β} :
    Returns (m >>= k) s b u ↔ ∃ a t, Returns m s a t ∧ Returns (k a) t b u := by
  change (m s >>= fun p => k p.1 p.2) = .ok (b,u) ↔ _
  cases hm : m s with
  | error err =>
    constructor
    · intro h; cases h
    · intro h
      obtain ⟨a,t,ha,_⟩ := h
      rw [Returns,hm] at ha
      cases ha
  | ok p =>
    constructor
    · intro h; exact ⟨p.1,p.2,hm,h⟩
    · intro h
      obtain ⟨a,t,ha,hk⟩ := h
      rw [Returns,hm] at ha
      cases ha
      exact hk

@[simp] theorem returns_map {m : Program σ ε α} {h : α → β} {s t : σ} {b : β} :
    Returns (h <$> m) s b t ↔ ∃ a, Returns m s a t ∧ b = h a := by
  rw [← bind_pure_comp,returns_bind]
  simp only [returns_pure]
  constructor
  · intro h
    obtain ⟨a,u,ha,rfl,rfl⟩ := h
    exact ⟨a,ha,rfl⟩
  · intro h
    obtain ⟨a,ha,rfl⟩ := h
    exact ⟨a,t,ha,rfl,rfl⟩

@[simp] theorem returns_observe {f : σ → α} {s t : σ} {a : α} :
    Returns (observe f : Program σ ε α) s a t ↔ a = f s ∧ t = s := by
  constructor
  · intro h; cases h; exact ⟨rfl,rfl⟩
  · intro h
    obtain ⟨rfl,rfl⟩ := h
    rfl

@[simp] theorem returns_update {f : σ → σ} {s t : σ} {u : Unit} :
    Returns (update f : Program σ ε Unit) s u t ↔ t = f s := by
  constructor
  · intro h; cases h; rfl
  · intro h
    subst h
    rfl

@[simp] theorem returns_ofOption {err : ε} {o : Option α} {s t : σ} {a : α} :
    Returns (ofOption err o : Program σ ε α) s a t ↔ o = some a ∧ t = s := by
  cases o with
  | none => simp [ofOption]
  | some b => simp [ofOption,eq_comm]

@[simp] theorem returns_ite {c : Prop} [Decidable c] {m n : Program σ ε α} {s t : σ} {a : α} :
    Returns (if c then m else n) s a t ↔ (c ∧ Returns m s a t) ∨ (¬ c ∧ Returns n s a t) := by
  by_cases h : c <;> simp [h]

@[simp] theorem returns_require {c : Prop} [Decidable c] {err : ε} {s t : σ} {u : Unit} :
    Returns (require c err : Program σ ε Unit) s u t ↔ c ∧ t = s := by
  simp [require]

/-- Continuing after a program that only reads. -/
theorem returns_bind_of_read {m : Program σ ε α} {P : α → Prop} {k : α → Program σ ε β}
    {s u : σ} {b : β} (h : ∀ a t, Returns m s a t ↔ P a ∧ t = s) :
    Returns (m >>= k) s b u ↔ ∃ a, P a ∧ Returns (k a) s b u := by
  rw [returns_bind]
  constructor
  · intro h
    obtain ⟨a,t,ha,hk⟩ := h
    obtain ⟨hP,rfl⟩ := (h a t).mp ha
    exact ⟨a,hP,hk⟩
  · intro h
    obtain ⟨a,hP,hk⟩ := h
    exact ⟨a,s,(h a s).mpr ⟨hP,rfl⟩,hk⟩

@[simp high] theorem returns_observe_bind {f : σ → α} {k : α → Program σ ε β} {s t : σ} {b : β} :
    Returns (observe f >>= k) s b t ↔ Returns (k (f s)) s b t := Iff.rfl

@[simp high] theorem returns_update_bind {f : σ → σ} {k : Unit → Program σ ε β} {s t : σ} {b : β} :
    Returns (update f >>= k) s b t ↔ Returns (k ()) (f s) b t := Iff.rfl

@[simp high] theorem returns_pure_bind {a : α} {k : α → Program σ ε β} {s t : σ} {b : β} :
    Returns (pure a >>= k) s b t ↔ Returns (k a) s b t := Iff.rfl

@[simp high] theorem returns_throw_bind {err : ε} {k : α → Program σ ε β} {s t : σ} {b : β} :
    ¬ Returns ((throw err : Program σ ε α) >>= k) s b t := by
  intro h; cases h

@[simp high] theorem returns_ofOption_bind {err : ε} {o : Option α} {k : α → Program σ ε β}
    {s t : σ} {b : β} :
    Returns (ofOption err o >>= k) s b t ↔ ∃ a, o = some a ∧ Returns (k a) s b t :=
  returns_bind_of_read fun _ _ => returns_ofOption

@[simp high] theorem returns_require_bind {c : Prop} [Decidable c] {err : ε}
    {k : Unit → Program σ ε β} {s t : σ} {b : β} :
    Returns (require c err >>= k) s b t ↔ c ∧ Returns (k ()) s b t := by
  by_cases h : c
  · simp [require,h]
  · simp [require,h]

/-- After a program that is known to return, what is left to run is the rest. -/
theorem bind_of_returns {m : Program σ ε α} {k : α → Program σ ε β} {s t : σ} {a : α}
    (h : Returns m s a t) : (m >>= k) s = k a t := by
  change (m s >>= fun p => k p.1 p.2) = k a t
  rw [show m s = .ok (a,t) from h]
  rfl

/-- A program returns at most one value from a given state. -/
theorem Returns.unique {m : Program σ ε α} {s t u : σ} {a b : α}
    (h : Returns m s a t) (h' : Returns m s b u) : a = b ∧ t = u := by
  rw [Returns] at h h'
  rw [h] at h'
  cases h'
  exact ⟨rfl,rfl⟩

/-- The value a program returns, if it does. -/
def value (m : Program σ ε α) (s : σ) : Option α :=
  match m s with
  | .ok p => some p.1
  | .error _ => none

theorem value_eq_some {m : Program σ ε α} {s : σ} {a : α} :
    value m s = some a ↔ ∃ t, Returns m s a t := by
  unfold value Returns
  cases m s with
  | ok p => simp [Prod.ext_iff]
  | error err => simp

/-- Started in `s`, the program stops with the failure `err`. -/
def Fails (m : Program σ ε α) (s : σ) (err : ε) : Prop := m s = .error err

/-- The failure a program stops with, if it does. -/
def failure (m : Program σ ε α) (s : σ) : Option ε :=
  match m s with
  | .ok _ => none
  | .error err => some err

section Fails
variable {err err' : ε} {s t : σ} {b : β}

theorem failure_eq_some {m : Program σ ε α} : failure m s = some err ↔ Fails m s err := by
  unfold failure Fails
  cases m s with
  | ok p => simp
  | error e => simp

theorem Fails.unique {m : Program σ ε α} (h : Fails m s err) (h' : Fails m s err') :
    err = err' := by
  rw [Fails] at h h'
  rw [h] at h'
  exact Except.error.inj h'

/-- A program does not both fail and return. -/
theorem Fails.not_returns {m : Program σ ε α} {a : α} (h : Fails m s err) :
    ¬ Returns m s a t := by
  intro hr
  rw [Fails] at h
  rw [Returns,h] at hr
  cases hr

theorem fails_bind {m : Program σ ε α} {k : α → Program σ ε β} :
    Fails (m >>= k) s err ↔ Fails m s err ∨ ∃ a t, Returns m s a t ∧ Fails (k a) t err := by
  change (m s >>= fun p => k p.1 p.2) = .error err ↔ _
  cases hm : m s with
  | error e =>
    constructor
    · intro h
      cases h
      exact .inl hm
    · intro h
      obtain h | ⟨a,t,ha,_⟩ := h
      · rw [Fails,hm] at h
        cases h
        rfl
      · rw [Returns,hm] at ha
        cases ha
  | ok p =>
    constructor
    · intro h
      exact .inr ⟨p.1,p.2,hm,h⟩
    · intro h
      obtain h | ⟨a,t,ha,hk⟩ := h
      · rw [Fails,hm] at h
        cases h
      · rw [Returns,hm] at ha
        cases ha
        exact hk

/-- Continuing after a program that is known to return. -/
theorem fails_bind_of_returns {m : Program σ ε α} {k : α → Program σ ε β} {a : α}
    (h : Returns m s a t) : Fails (m >>= k) s err ↔ Fails (k a) t err := by
  rw [Fails,bind_of_returns h]
  rfl

@[simp] theorem fails_pure {a : α} : ¬ Fails (pure a : Program σ ε α) s err := by
  intro h; cases h

@[simp] theorem fails_throw : Fails (throw err : Program σ ε α) s err' ↔ err' = err := by
  constructor
  · intro h; cases h; rfl
  · intro h
    subst h
    rfl

@[simp] theorem fails_observe {f : σ → α} : ¬ Fails (observe f : Program σ ε α) s err := by
  intro h; cases h

@[simp] theorem fails_update {f : σ → σ} : ¬ Fails (update f : Program σ ε Unit) s err := by
  intro h; cases h

theorem fails_ofOption {o : Option α} :
    Fails (ofOption err o : Program σ ε α) s err' ↔ o = none ∧ err' = err := by
  cases o with
  | none => simp [ofOption]
  | some a => simp [ofOption]

theorem fails_require {c : Prop} [Decidable c] :
    Fails (require c err : Program σ ε Unit) s err' ↔ ¬ c ∧ err' = err := by
  by_cases h : c
  · simp [require,h]
  · simp [require,h]

/-- Failing at a missing value. -/
theorem Fails.ofOption_bind {o : Option α} {k : α → Program σ ε β} (h : o = none) :
    Fails (ofOption err o >>= k) s err := fails_bind.mpr (.inl (fails_ofOption.mpr ⟨h,rfl⟩))

/-- Failing at a condition that does not hold. -/
theorem Fails.require_bind {c : Prop} [Decidable c] {k : Unit → Program σ ε β} (h : ¬ c) :
    Fails (require c err >>= k) s err := fails_bind.mpr (.inl (fails_require.mpr ⟨h,rfl⟩))

@[simp] theorem fails_observe_bind {f : σ → α} {k : α → Program σ ε β} :
    Fails (observe f >>= k) s err ↔ Fails (k (f s)) s err := Iff.rfl

@[simp] theorem fails_pure_bind {a : α} {k : α → Program σ ε β} :
    Fails (pure a >>= k) s err ↔ Fails (k a) s err := Iff.rfl

@[simp] theorem fails_map {m : Program σ ε α} {h : α → β} :
    Fails (h <$> m) s err ↔ Fails m s err := by
  rw [← bind_pure_comp,fails_bind]
  simp

end Fails

/-- Wherever it starts, the program does not stop with `err` and leaves alone what `obs` sees of the
state. -/
structure Ignores (obs : σ → τ) (err : ε) (m : Program σ ε α) : Prop where
  avoids : ∀ {s}, ¬ Fails m s err
  keeps : ∀ {s a t}, Returns m s a t → obs t = obs s

namespace Ignores
variable {obs : σ → τ} {err err' : ε} {m : Program σ ε α}

/-- What two programs ignore, one followed by the other ignores. -/
theorem bind {k : α → Program σ ε β} (hm : Ignores obs err m) (hk : ∀ a, Ignores obs err (k a)) :
    Ignores obs err (m >>= k) where
  avoids h := by
    rcases fails_bind.mp h with h | ⟨a,t,-,h⟩
    · exact hm.avoids h
    · exact (hk a).avoids h
  keeps h := by
    obtain ⟨a,t,ha,hb⟩ := returns_bind.mp h
    exact ((hk a).keeps hb).trans (hm.keeps ha)

theorem map {h : α → β} (hm : Ignores obs err m) : Ignores obs err (h <$> m) where
  avoids hf := hm.avoids (fails_map.mp hf)
  keeps hr := by
    obtain ⟨a,ha,-⟩ := returns_map.mp hr
    exact hm.keeps ha

@[simp] theorem pure {a : α} : Ignores obs err (Pure.pure a : Program σ ε α) where
  avoids := fails_pure
  keeps h := congrArg obs (returns_pure.mp h).2

@[simp] theorem observe {f : σ → α} : Ignores obs err (FailStop.observe f : Program σ ε α) where
  avoids := fails_observe
  keeps h := congrArg obs (returns_observe.mp h).2

@[simp] theorem update {f : σ → σ} (h : ∀ s, obs (f s) = obs s) :
    Ignores obs err (FailStop.update f : Program σ ε Unit) where
  avoids := fails_update
  keeps {s a t} hr := by
    rw [returns_update.mp hr]
    exact h s

@[simp] theorem throw (h : err ≠ err') : Ignores obs err (MonadExcept.throw err' : Program σ ε α) where
  avoids hf := h (fails_throw.mp hf)
  keeps hr := absurd hr returns_throw

@[simp] theorem ofOption (h : err ≠ err') {o : Option α} :
    Ignores obs err (FailStop.ofOption err' o : Program σ ε α) where
  avoids hf := h (fails_ofOption.mp hf).2
  keeps hr := congrArg obs (returns_ofOption.mp hr).2

@[simp] theorem require (h : err ≠ err') {c : Prop} [Decidable c] :
    Ignores obs err (FailStop.require c err' : Program σ ε Unit) where
  avoids hf := h (fails_require.mp hf).2
  keeps hr := congrArg obs (returns_require.mp hr).2

theorem ite {c : Prop} [Decidable c] {n : Program σ ε α} (hm : Ignores obs err m)
    (hn : Ignores obs err n) : Ignores obs err (if c then m else n) := by
  by_cases h : c
  · rwa [if_pos h]
  · rwa [if_neg h]

end Ignores

end FailStop
