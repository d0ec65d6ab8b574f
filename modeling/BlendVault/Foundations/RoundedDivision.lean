import Mathlib.Algebra.Order.Ring.Int
import Mathlib.Tactic.Linarith
import Mathlib.Tactic.Ring
import Mathlib.Tactic.Positivity

/-! Floor and ceiling division of integers by a positive divisor. Floor division is
`Int`'s own `/`; the ceiling is its mirror image. Scaling up by `c/r` with the ceiling
and scaling down by `r/c` with the floor are adjoint, and everything else follows. -/
namespace RoundedDivision

/-- The least integer at least `n/d`, for a positive divisor. -/
def ceilDiv (n d : ℤ) : ℤ := -(-n/d)

theorem ceilDiv_le_iff {n d k : ℤ} (hd : 0 < d) : ceilDiv n d ≤ k ↔ n ≤ k*d := by
  unfold ceilDiv
  rw [neg_le, Int.le_ediv_iff_mul_le hd, neg_mul, neg_le_neg_iff]

theorem lt_ceilDiv_iff {n d k : ℤ} (hd : 0 < d) : k < ceilDiv n d ↔ k*d < n := by
  rw [← not_le, ceilDiv_le_iff hd, not_le]

theorem le_ceilDiv_mul (n : ℤ) {d : ℤ} (hd : 0 < d) : n ≤ ceilDiv n d*d :=
  (ceilDiv_le_iff hd).mp le_rfl

theorem ceilDiv_pos {n d : ℤ} (hd : 0 < d) (hn : 0 < n) : 0 < ceilDiv n d := by
  simpa [lt_ceilDiv_iff hd] using hn

theorem ceilDiv_nonneg {n d : ℤ} (hd : 0 < d) (hn : 0 ≤ n) : 0 ≤ ceilDiv n d := by
  have h := le_ceilDiv_mul n hd
  by_contra hc
  have hm := mul_neg_of_neg_of_pos (not_le.mp hc) hd
  linarith

theorem ceilDiv_mono {m n d : ℤ} (hd : 0 < d) (h : m ≤ n) : ceilDiv m d ≤ ceilDiv n d :=
  (ceilDiv_le_iff hd).mpr (h.trans (le_ceilDiv_mul n hd))

/-- More of a smaller divisor. -/
theorem ceilDiv_le_ceilDiv {m n d e : ℤ} (he : 0 < e) (hed : e ≤ d) (hn : 0 ≤ n) (h : m ≤ n) :
    ceilDiv m d ≤ ceilDiv n e := by
  have hq := ceilDiv_nonneg he hn
  apply (ceilDiv_le_iff (he.trans_le hed)).mpr
  calc
    m ≤ n := h
    _ ≤ ceilDiv n e*e := le_ceilDiv_mul n he
    _ ≤ ceilDiv n e*d := mul_le_mul_of_nonneg_left hed hq

theorem ediv_le_ceilDiv (n : ℤ) {d : ℤ} (hd : 0 < d) : n/d ≤ ceilDiv n d := by
  refine le_of_mul_le_mul_right ?_ hd
  exact (Int.ediv_mul_le n hd.ne').trans (le_ceilDiv_mul n hd)

/-- The two roundings are at most one apart. -/
theorem ceilDiv_le_ediv_add_one (n : ℤ) {d : ℤ} (hd : 0 < d) : ceilDiv n d ≤ n/d+1 :=
  (ceilDiv_le_iff hd).mpr (Int.lt_ediv_add_one_mul_self n hd).le

/-- Division that leaves no remainder is the same in both roundings. -/
@[simp] theorem ceilDiv_mul_cancel (n : ℤ) {d : ℤ} (hd : d ≠ 0) : ceilDiv (n*d) d = n := by
  rw [ceilDiv, ← neg_mul, Int.mul_ediv_cancel _ hd, neg_neg]

/-- The two roundings agree exactly on what the divisor divides. -/
theorem ceilDiv_eq_ediv_iff {n d : ℤ} (hd : 0 < d) : ceilDiv n d = n/d ↔ d ∣ n := by
  constructor
  · intro h
    have hle := le_ceilDiv_mul n hd
    have hge := Int.ediv_mul_le n hd.ne'
    rw [h] at hle
    exact Dvd.intro_left _ (le_antisymm hge hle)
  · intro h
    obtain ⟨k,rfl⟩ := h
    rw [mul_comm d k,ceilDiv_mul_cancel _ hd.ne',Int.mul_ediv_cancel _ hd.ne']

theorem ediv_mul_le (n : ℤ) {d : ℤ} (hd : 0 < d) : n/d*d ≤ n := Int.ediv_mul_le n hd.ne'

theorem ediv_nonneg_of_pos {n d : ℤ} (hd : 0 < d) (hn : 0 ≤ n) : 0 ≤ n/d :=
  Int.ediv_nonneg hn hd.le

section Scale
variable {r c : ℤ} (hr : 0 < r) (hc : 0 < c)
include hr hc

/-- Scaling up with the ceiling is left adjoint to scaling down with the floor. -/
theorem scale_le_iff {a b : ℤ} : ceilDiv (a*c) r ≤ b ↔ a ≤ b*r/c := by
  rw [ceilDiv_le_iff hr,Int.le_ediv_iff_mul_le hc]

/-- What is scaled down and up again never grows. -/
theorem ceil_floor_le (b : ℤ) : ceilDiv (b*r/c*c) r ≤ b := (scale_le_iff hr hc).mpr le_rfl

/-- At a scale of at least one the round trip loses nothing. -/
theorem ceil_floor_eq (hcr : c ≤ r) (b : ℤ) : ceilDiv (b*r/c*c) r = b := by
  apply le_antisymm (ceil_floor_le hr hc b)
  have hlt : (b-1)*r < b*r/c*c := by
    have h := Int.lt_ediv_add_one_mul_self (b*r) hc
    nlinarith
  have h := (lt_ceilDiv_iff hr).mpr hlt
  omega

end Scale

end RoundedDivision
