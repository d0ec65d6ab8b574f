import Mathlib.Algebra.Order.Ring.Defs
import Mathlib.Tactic.Linarith
import Mathlib.Tactic.Ring

/-! A pro-rata fund: units issued against a common stock of assets. Its price, assets per
unit, is compared by cross multiplication, so that an empty fund needs no special case. -/
namespace ProRata

/-- The units issued and the assets behind them. -/
@[ext] structure Fund (R : Type*) where
  units : R
  assets : R

namespace Fund
variable {R : Type*} [CommRing R] [LinearOrder R] [IsStrictOrderedRing R]

/-- Assets per unit in `g` are no fewer than in `f`. -/
def PriceLe (f g : Fund R) : Prop := f.assets*g.units ≤ g.assets*f.units

/-- Issue units against new assets. -/
def issue (f : Fund R) (units assets : R) : Fund R := ⟨f.units+units,f.assets+assets⟩

/-- Cancel units and release assets. -/
def cancel (f : Fund R) (units assets : R) : Fund R := ⟨f.units-units,f.assets-assets⟩

omit [IsStrictOrderedRing R] in
@[simp] theorem PriceLe.refl (f : Fund R) : f.PriceLe f := le_refl (f.assets*f.units)

theorem PriceLe.trans {f g h : Fund R} (hf : 0 ≤ f.units) (hg : 0 < g.units) (hh : 0 ≤ h.units)
    (hfg : f.PriceLe g) (hgh : g.PriceLe h) : f.PriceLe h := by
  unfold PriceLe at *
  refine le_of_mul_le_mul_right ?_ hg
  calc
    f.assets*h.units*g.units = f.assets*g.units*h.units := by ring
    _ ≤ g.assets*f.units*h.units := mul_le_mul_of_nonneg_right hfg hh
    _ = g.assets*h.units*f.units := by ring
    _ ≤ h.assets*g.units*f.units := mul_le_mul_of_nonneg_right hgh hf
    _ = h.assets*f.units*g.units := by ring

/-- Issuing keeps the price exactly when the units are at most their share of the assets. -/
theorem priceLe_issue_iff (f : Fund R) {u a : R} :
    f.PriceLe (f.issue u a) ↔ u*f.assets ≤ a*f.units := by
  simp only [PriceLe,issue]
  constructor
  · intro h
    linarith [mul_comm f.assets u]
  · intro h
    linarith [mul_comm f.assets u]

/-- Cancelling keeps the price exactly when the assets are at most the share of the units. -/
theorem priceLe_cancel_iff (f : Fund R) {u a : R} :
    f.PriceLe (f.cancel u a) ↔ a*f.units ≤ u*f.assets := by
  simp only [PriceLe,cancel]
  constructor
  · intro h
    linarith [mul_comm f.assets u]
  · intro h
    linarith [mul_comm f.assets u]

/-- Units issued for at most their share of the assets keep the price. -/
theorem priceLe_issue (f : Fund R) {u a : R} (h : u*f.assets ≤ a*f.units) :
    f.PriceLe (f.issue u a) := f.priceLe_issue_iff.mpr h

/-- Units cancelled for at most their share of the assets keep the price. -/
theorem priceLe_cancel (f : Fund R) {u a : R} (h : a*f.units ≤ u*f.assets) :
    f.PriceLe (f.cancel u a) := f.priceLe_cancel_iff.mpr h

/-- More assets behind the same units. -/
theorem priceLe_gain {f : Fund R} (hf : 0 ≤ f.units) {a : R} (h : f.assets ≤ a) :
    f.PriceLe ⟨f.units,a⟩ := mul_le_mul_of_nonneg_right h hf

/-- Units that are still there at a price that has not fallen are covered by what is left. -/
theorem PriceLe.covers {f g : Fund R} (h : f.PriceLe g) (hf : 0 ≤ f.assets) {u : R}
    (hu : u ≤ g.units) : u*f.assets ≤ g.assets*f.units := by
  calc
    u*f.assets ≤ g.units*f.assets := mul_le_mul_of_nonneg_right hu hf
    _ = f.assets*g.units := mul_comm _ _
    _ ≤ g.assets*f.units := h

/-- Every unit has at least one asset behind it. -/
def Backed (f : Fund R) : Prop := 0 ≤ f.units ∧ f.units ≤ f.assets

theorem Backed.issue {f : Fund R} (hf : f.Backed) {u a : R} (hu : 0 ≤ u) (h : u ≤ a) :
    (f.issue u a).Backed := ⟨add_nonneg hf.1 hu,add_le_add hf.2 h⟩

/-- Cancelling at no more than the price leaves every remaining unit backed. -/
theorem Backed.cancel {f : Fund R} (hf : f.Backed) {u a : R} (hu₀ : 0 ≤ u) (hu : u ≤ f.units)
    (ha : a ≤ f.assets) (h : a*f.units ≤ u*f.assets) : (f.cancel u a).Backed := by
  refine ⟨sub_nonneg.mpr hu,?_⟩
  change f.units-u ≤ f.assets-a
  rcases eq_or_lt_of_le (hf.1.trans hf.2) with h0 | h0
  · linarith [hf.2,hf.1]
  · have hgap : 0 ≤ f.assets-f.units := sub_nonneg.mpr hf.2
    have hm : (a-u)*f.assets ≤ (f.assets-f.units)*f.assets := by
      calc
        (a-u)*f.assets ≤ a*(f.assets-f.units) := by
          linarith [mul_sub a f.assets f.units,sub_mul a u f.assets]
        _ ≤ f.assets*(f.assets-f.units) := mul_le_mul_of_nonneg_right ha hgap
        _ = (f.assets-f.units)*f.assets := mul_comm _ _
    linarith [le_of_mul_le_mul_right hm h0]

end Fund

/-- The whole assets a holding of `u` units is quoted at. -/
def quote (f : Fund ℤ) (u : ℤ) : ℤ := u*f.assets/f.units

theorem quote_nonneg {f : Fund ℤ} (hf : 0 ≤ f.units) (ha : 0 ≤ f.assets) {u : ℤ} (hu : 0 ≤ u) :
    0 ≤ quote f u := Int.ediv_nonneg (mul_nonneg hu ha) hf

/-- No holding is quoted at more than all the assets. -/
theorem quote_le_assets {f : Fund ℤ} (hf : 0 < f.units) (ha : 0 ≤ f.assets) {u : ℤ}
    (hu : u ≤ f.units) : quote f u ≤ f.assets := by
  apply Int.ediv_le_of_le_mul hf
  rw [mul_comm f.assets]
  exact mul_le_mul_of_nonneg_right hu ha

theorem quote_mono {f g : Fund ℤ} (hf : 0 < f.units) (hg : 0 < g.units) (h : f.PriceLe g)
    {u : ℤ} (hu : 0 ≤ u) : quote f u ≤ quote g u := by
  apply Int.le_ediv_of_mul_le hg
  have hq := Int.ediv_mul_le (u*f.assets) hf.ne'
  refine le_of_mul_le_mul_right ?_ hf
  calc
    quote f u*g.units*f.units = quote f u*f.units*g.units := by ring
    _ ≤ u*f.assets*g.units := mul_le_mul_of_nonneg_right hq hg.le
    _ = u*(f.assets*g.units) := by ring
    _ ≤ u*(g.assets*f.units) := mul_le_mul_of_nonneg_left h hu
    _ = u*g.assets*f.units := by ring

/-- Units issued for at most their share of the assets are quoted at no more than they cost. -/
theorem quote_issue_le {f : Fund ℤ} {u a : ℤ} (hpos : 0 < f.units+u)
    (h : u*f.assets ≤ a*f.units) : quote (f.issue u a) u ≤ a := by
  apply Int.ediv_le_of_le_mul hpos
  calc
    u*(f.assets+a) = u*f.assets+a*u := by ring
    _ ≤ a*f.units+a*u := by linarith
    _ = a*(f.units+u) := by ring

/-- Issued at no less than their share rounded down, they are quoted at less than an asset and a
unit's old price below their cost. -/
theorem issue_loss_lt {f : Fund ℤ} {u a : ℤ} (hU : 0 < f.units) (hA : 0 < f.assets) (hu : 0 ≤ u)
    (h : a*f.units < (u+1)*f.assets) :
    f.units*(a-quote (f.issue u a) u-1) < f.assets := by
  set q := quote (f.issue u a) u with hq
  have hquote : u*(f.assets+a) < (q+1)*(f.units+u) :=
    Int.lt_ediv_add_one_mul_self (u*(f.assets+a)) (add_pos_of_pos_of_nonneg hU hu)
  have hloss : (a-q-1)*(f.units+u) < f.assets := by
    calc
      (a-q-1)*(f.units+u) = a*f.units+a*u-(q+1)*(f.units+u) := by ring
      _ < a*f.units+a*u-u*(f.assets+a) := by linarith
      _ = a*f.units-u*f.assets := by ring
      _ < f.assets := by linarith
  rcases le_total (a-q-1) 0 with hneg | hpos
  · exact (mul_nonpos_of_nonneg_of_nonpos hU.le hneg).trans_lt hA
  · calc
      f.units*(a-q-1) ≤ (a-q-1)*(f.units+u) := by
        rw [mul_comm,mul_add]
        exact le_add_of_nonneg_right (mul_nonneg hpos hu)
      _ < f.assets := hloss

/-- Issued at no less than their share rounded down, they are quoted at half of their cost at least. -/
theorem half_le_quote_issue {f : Fund ℤ} {u a : ℤ} (hU : 0 ≤ f.units) (hA : 0 ≤ f.assets)
    (hu : 0 < u) (ha : 0 ≤ a) (h : a*f.units ≤ (u+1)*f.assets) : a/2 ≤ quote (f.issue u a) u := by
  have hpos : 0 < f.units+u := add_pos_of_nonneg_of_pos hU hu
  have hhalf : 2*(a/2) ≤ a := by omega
  have hone : (u+1)*f.assets ≤ 2*u*f.assets := by
    apply mul_le_mul_of_nonneg_right ?_ hA
    omega
  have hau : 0 ≤ a*u := mul_nonneg ha hu.le
  have hbound : 2*(a/2*(f.units+u)) ≤ 2*(u*(f.assets+a)) := by
    calc
      2*(a/2*(f.units+u)) = 2*(a/2)*(f.units+u) := by ring
      _ ≤ a*(f.units+u) := mul_le_mul_of_nonneg_right hhalf hpos.le
      _ = a*f.units+a*u := mul_add _ _ _
      _ ≤ 2*u*f.assets+2*(a*u) := by linarith
      _ = 2*(u*(f.assets+a)) := by ring
  apply Int.le_ediv_of_mul_le hpos
  change a/2*(f.units+u) ≤ u*(f.assets+a)
  omega

/-- Two holdings are quoted at no more than both as one. -/
theorem quote_add_le {f : Fund ℤ} (hf : 0 < f.units) (u w : ℤ) :
    quote f u+quote f w ≤ quote f (u+w) := by
  apply Int.le_ediv_of_mul_le hf
  have hu := Int.ediv_mul_le (u*f.assets) hf.ne'
  have hw := Int.ediv_mul_le (w*f.assets) hf.ne'
  rw [add_mul,add_mul]
  exact add_le_add hu hw

end ProRata
