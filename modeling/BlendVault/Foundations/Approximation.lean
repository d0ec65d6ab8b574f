import Mathlib.Algebra.Order.Floor.Ring
import Mathlib.Data.Rat.Floor
import Mathlib.Tactic.Linarith
import Mathlib.Tactic.Ring
import Mathlib.Tactic.FieldSimp
import Mathlib.Tactic.Positivity
import BlendVault.Foundations.RoundedDivision

/-! Whole numbers that stand for exact figures. A figure that is rounded up each time it is scaled
never falls below the exact one, and what it is too large by follows from the scalings; a part of it
that is rounded down is out by one more. -/
namespace Approximation
open RoundedDivision

/-- `n` stands for `q`: it is not below it, and above it by less than `ε`. -/
structure Above (ε q : ℚ) (n : ℤ) : Prop where
  ge : q ≤ n
  lt : (n : ℚ) < q+ε

/-- Division rounded up is the ceiling of the exact quotient. -/
theorem ceilDiv_eq_ceil {n d : ℤ} (hd : 0 < d) : ceilDiv n d = ⌈(n : ℚ)/d⌉ := by
  have hd' : (0 : ℚ) < d := Int.cast_pos.mpr hd
  apply eq_of_forall_ge_iff
  intro k
  rw [ceilDiv_le_iff hd,Int.ceil_le,div_le_iff₀ hd']
  exact_mod_cast Iff.rfl

/-- Division rounded down is its floor. -/
theorem ediv_eq_floor {n d : ℤ} (hd : 0 < d) : n/d = ⌊(n : ℚ)/d⌋ := by
  have hd' : (0 : ℚ) < d := Int.cast_pos.mpr hd
  apply eq_of_forall_le_iff
  intro k
  rw [Int.le_ediv_iff_mul_le hd,Int.le_floor,le_div_iff₀ hd']
  exact_mod_cast Iff.rfl

/-- `n` stands for `q`: it is below it by less than `δ`, and above it by no more than `ε`. -/
structure Near (δ ε q : ℚ) (n : ℤ) : Prop where
  lt : q-δ < n
  le : (n : ℚ) ≤ q+ε

theorem above_ceil (q : ℚ) : Above 1 q ⌈q⌉ := ⟨Int.le_ceil q,Int.ceil_lt_add_one q⟩

namespace Above
variable {ε q : ℚ} {n : ℤ}

theorem pos (h : Above ε q n) : 0 < ε := by
  have hge := h.ge
  have hlt := h.lt
  linarith

theorem add (h : Above ε q n) (k : ℤ) : Above ε (q+k) (n+k) := by
  have hge := h.ge
  have hlt := h.lt
  constructor <;> push_cast <;> linarith

theorem sub (h : Above ε q n) (k : ℤ) : Above ε (q-k) (n-k) := by
  have hge := h.ge
  have hlt := h.lt
  constructor <;> push_cast <;> linarith

/-- Errors add up. -/
theorem add_above {ε' q' : ℚ} {n' : ℤ} (h : Above ε q n) (h' : Above ε' q' n') :
    Above (ε+ε') (q+q') (n+n') := by
  have hge := h.ge
  have hlt := h.lt
  have hge' := h'.ge
  have hlt' := h'.lt
  constructor <;> push_cast <;> linarith

/-- Scaling scales the error and rounds once more. -/
theorem scale {r d : ℤ} (h : Above ε q n) (hr : 0 ≤ r) (hd : 0 < d) :
    Above (ε*r/d+1) (q*r/d) (ceilDiv (n*r) d) := by
  have hr' : (0 : ℚ) ≤ r := Int.cast_nonneg hr
  have hd' : (0 : ℚ) < d := Int.cast_pos.mpr hd
  have hge : q*r/d ≤ (n*r : ℚ)/d :=
    div_le_div_of_nonneg_right (mul_le_mul_of_nonneg_right h.ge hr') hd'.le
  have hle : (n*r : ℚ)/d ≤ q*r/d+ε*r/d := by
    rw [← add_div,← add_mul]
    exact div_le_div_of_nonneg_right (mul_le_mul_of_nonneg_right h.lt.le hr') hd'.le
  obtain ⟨hceil,hceil'⟩ := above_ceil ((n*r : ℚ)/d)
  rw [ceilDiv_eq_ceil hd]
  push_cast
  constructor <;> linarith

/-- A part of a figure, where both the figure and the part were rounded up. -/
theorem part {δ p : ℚ} {m d : ℤ} (h : Above ε q n) (hm : Above δ p m) (hq : 0 ≤ q) (hp : 0 ≤ p)
    (hd : 0 < d) (hmd : m ≤ d) : Near 1 (ε+q*δ/d) (q*p/d) (n*m/d) := by
  have hd' : (0 : ℚ) < d := Int.cast_pos.mpr hd
  have hmd' : (m : ℚ) ≤ d := Int.cast_le.mpr hmd
  have hge : q*p/d ≤ (n*m : ℚ)/d :=
    div_le_div_of_nonneg_right (mul_le_mul h.ge hm.ge hp (hq.trans h.ge)) hd'.le
  have hle : (n*m : ℚ)/d ≤ q*p/d+(ε+q*δ/d) := by
    calc
      (n*m : ℚ)/d ≤ (q+ε)*m/d :=
        div_le_div_of_nonneg_right (mul_le_mul_of_nonneg_right h.lt.le (hp.trans hm.ge)) hd'.le
      _ = (q*m+ε*m)/d := by rw [add_mul]
      _ ≤ (q*(p+δ)+ε*d)/d := div_le_div_of_nonneg_right
        (add_le_add (mul_le_mul_of_nonneg_left hm.lt.le hq) (mul_le_mul_of_nonneg_left hmd' h.pos.le))
        hd'.le
      _ = q*p/d+(ε+q*δ/d) := by
        field_simp
        ring
  have hfloor := Int.floor_le ((n*m : ℚ)/d)
  have hfloor' := Int.lt_floor_add_one ((n*m : ℚ)/d)
  rw [ediv_eq_floor hd]
  push_cast
  constructor <;> linarith

end Above

/-- A known part of a figure. -/
theorem Near.part {δ ε q : ℚ} {n r d : ℤ} (h : Near δ ε q n) (hδ : 0 ≤ δ) (hε : 0 ≤ ε) (hr : 0 ≤ r)
    (hd : 0 < d) (hrd : r ≤ d) : Near (δ+1) ε (q*r/d) (n*r/d) := by
  have hd' : (0 : ℚ) < d := Int.cast_pos.mpr hd
  have hr' : (0 : ℚ) ≤ r := Int.cast_nonneg hr
  have hpart : (r : ℚ)/d ≤ 1 := (div_le_one hd').mpr (Int.cast_le.mpr hrd)
  have hpart' : 0 ≤ (r : ℚ)/d := div_nonneg hr' hd'.le
  have hge : q*r/d-δ ≤ (n*r : ℚ)/d := by
    have hscaled := mul_le_mul_of_nonneg_right h.lt.le hpart'
    have hδ' := mul_le_of_le_one_right hδ hpart
    rw [mul_div_assoc,mul_div_assoc]
    linarith [sub_mul q δ ((r : ℚ)/d)]
  have hle : (n*r : ℚ)/d ≤ q*r/d+ε := by
    have hscaled := mul_le_mul_of_nonneg_right h.le hpart'
    have hε' := mul_le_of_le_one_right hε hpart
    rw [mul_div_assoc,mul_div_assoc]
    linarith [add_mul q ε ((r : ℚ)/d)]
  have hfloor := Int.floor_le ((n*r : ℚ)/d)
  have hfloor' := Int.lt_floor_add_one ((n*r : ℚ)/d)
  rw [ediv_eq_floor hd]
  push_cast
  constructor <;> linarith

end Approximation
