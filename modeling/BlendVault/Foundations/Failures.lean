import BlendVault.Foundations.FailStop

/-! The failures a program can stop with, as a list read off its parts. To rule a failure out a part
may rely on what the parts before it have read and checked. -/
namespace FailStop

variable {σ ε α β : Type} {m : Program σ ε α} {k : α → Program σ ε β} {E : List ε} {s : σ} {err : ε}

/-- Started in `s`, the program stops with none but the listed failures. -/
def FailsWithin (E : List ε) (m : Program σ ε α) (s : σ) : Prop := ∀ err, Fails m s err → err ∈ E

namespace FailsWithin

theorem mono {E' : List ε} (h : FailsWithin E m s) (hE : E ⊆ E') : FailsWithin E' m s :=
  fun err hf => hE (h err hf)

theorem pure {a : α} : FailsWithin E (Pure.pure a : Program σ ε α) s :=
  fun _ h => absurd h fails_pure

theorem observe {f : σ → α} : FailsWithin E (FailStop.observe f : Program σ ε α) s :=
  fun _ h => absurd h fails_observe

theorem update {f : σ → σ} : FailsWithin E (FailStop.update f : Program σ ε Unit) s :=
  fun _ h => absurd h fails_update

theorem throw (h : err ∈ E) : FailsWithin E (MonadExcept.throw err : Program σ ε α) s := by
  intro err' hf
  rw [fails_throw.mp hf]
  exact h

theorem ofOption {o : Option α} (h : o = none → err ∈ E) :
    FailsWithin E (FailStop.ofOption err o : Program σ ε α) s := by
  intro err' hf
  obtain ⟨hnone,rfl⟩ := fails_ofOption.mp hf
  exact h hnone

theorem require {c : Prop} [Decidable c] (h : ¬ c → err ∈ E) :
    FailsWithin E (FailStop.require c err : Program σ ε Unit) s := by
  intro err' hf
  obtain ⟨hc,rfl⟩ := fails_require.mp hf
  exact h hc

/-- What follows is only run on what the first program returns. -/
theorem bind (hm : FailsWithin E m s) (hk : ∀ a t, Returns m s a t → FailsWithin E (k a) t) :
    FailsWithin E (m >>= k) s := by
  intro err hf
  rcases fails_bind.mp hf with h | ⟨a,t,ha,h⟩
  · exact hm err h
  · exact hk a t ha err h

/-- After a program that leaves the state alone. -/
theorem bind_of_read {P : α → Prop} (hread : ∀ a t, Returns m s a t → P a ∧ t = s)
    (hm : FailsWithin E m s) (hk : ∀ a, P a → FailsWithin E (k a) s) :
    FailsWithin E (m >>= k) s := by
  apply hm.bind
  intro a t ha
  obtain ⟨hP,rfl⟩ := hread a t ha
  exact hk a hP

theorem map {g : α → β} (hm : FailsWithin E m s) : FailsWithin E (g <$> m) s :=
  fun err hf => hm err (fails_map.mp hf)

theorem ite {c : Prop} [Decidable c] {n : Program σ ε α} (hm : c → FailsWithin E m s)
    (hn : ¬ c → FailsWithin E n s) : FailsWithin E (if c then m else n) s := by
  by_cases h : c
  · rw [if_pos h]
    exact hm h
  · rw [if_neg h]
    exact hn h

end FailsWithin
end FailStop
