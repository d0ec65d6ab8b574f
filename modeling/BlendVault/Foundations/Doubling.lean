import BlendVault.Foundations.Run
import Mathlib.Algebra.Order.Ring.Int
import Mathlib.Tactic.Ring

/-! A quantity that can grow by as much as it is. Nothing keeps it from reaching any bound, and
since it can double each time, it does so in logarithmic time. -/

/-- `x` grows by some of itself, and stays within `T`. -/
structure Grows (T x k y : ℤ) : Prop where
  pos : 0 < k
  le : k ≤ x
  eq : y = x+k
  within : y ≤ T

namespace Grows

/-- In `n` times the quantity can get anywhere up to `2^n` times what it was. -/
theorem exists_run {x T : ℤ} {n : ℕ} (hx : 0 < x) (hle : x ≤ T) (hT : T ≤ 2^n*x) :
    ∃ ks, Run (Grows T) x ks T ∧ ks.length ≤ n := by
  induction n generalizing x with
  | zero =>
    have heq : x = T := by omega
    subst heq
    exact ⟨[],.nil,le_rfl⟩
  | succ n ih =>
    rcases hle.eq_or_lt with heq | hlt
    · subst heq
      exact ⟨[],.nil,by simp⟩
    · by_cases hnear : T ≤ x+x
      · -- the last time it need not double
        refine ⟨[T-x],Run.cons ⟨?_,?_,?_,?_⟩ .nil,by simp⟩ <;> omega
      · have hT' : T ≤ 2^n*(x+x) := by
          calc
            T ≤ 2^(n+1)*x := hT
            _ = 2^n*(x+x) := by ring
        obtain ⟨ks,hrun,hlength⟩ := ih (x := x+x) (by omega) (by omega) hT'
        exact ⟨x :: ks,Run.cons ⟨hx,le_rfl,rfl,by omega⟩ hrun,by simpa using hlength⟩

end Grows
