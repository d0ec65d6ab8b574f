import Mathlib.Data.Rat.Floor
import Mathlib.Tactic.FieldSimp
import BlendVault.Foundations.ProRata

/-! The price of a unit as a rational number. Gains raise it by their part for each unit; a dealing
that rounds at the expense of whoever deals raises any other holding by no more than the price of one
unit, and costs the dealer no more than that. -/
namespace ProRata
namespace Fund
variable {f g : Fund ℤ} {u a : ℤ}

/-- Assets per unit. -/
def price (f : Fund ℤ) : ℚ := f.assets/f.units

/-- A holding at the price of the day. -/
def valueOf (f : Fund ℤ) (u : ℤ) : ℚ := u*f.price

theorem price_le_iff (hf : 0 < f.units) (hg : 0 < g.units) : f.price ≤ g.price ↔ f.PriceLe g := by
  have hf' : (0 : ℚ) < f.units := Int.cast_pos.mpr hf
  have hg' : (0 : ℚ) < g.units := Int.cast_pos.mpr hg
  rw [price,price,div_le_div_iff₀ hf' hg']
  exact_mod_cast Iff.rfl

theorem valueOf_add (f : Fund ℤ) (u w : ℤ) : f.valueOf (u+w) = f.valueOf u+f.valueOf w := by
  rw [valueOf,valueOf,valueOf,Int.cast_add,add_mul]

@[simp] theorem valueOf_zero (f : Fund ℤ) : f.valueOf 0 = 0 := by simp [valueOf]

theorem price_nonneg (hf : 0 ≤ f.units) (ha : 0 ≤ f.assets) : 0 ≤ f.price :=
  div_nonneg (Int.cast_nonneg ha) (Int.cast_nonneg hf)

/-- What comes in without units being issued is spread over those there are. -/
theorem price_gain (f : Fund ℤ) (a : ℤ) :
    Fund.price ⟨f.units,a⟩ = f.price+((a-f.assets : ℤ) : ℚ)/f.units := by
  rw [price,price,← add_div]
  push_cast
  ring_nf

/-- The quote is the value in whole assets. -/
theorem floor_valueOf (hf : 0 < f.units) (u : ℤ) : ⌊f.valueOf u⌋ = quote f u := by
  obtain ⟨n,hn⟩ := Int.eq_ofNat_of_zero_le hf.le
  have h := Rat.floor_intCast_div_natCast (u*f.assets) n
  rw [valueOf,price,quote,hn,mul_div_assoc']
  exact_mod_cast h

/-- The assets of `g` exceed those its units have at the price of `f` by one more unit's at most. -/
def PriceWithin (f g : Fund ℤ) : Prop := g.assets*f.units ≤ f.assets*(g.units+1)

/-- Units issued at their share rounded down. -/
theorem priceWithin_issue (h : a*f.units ≤ (u+1)*f.assets) : f.PriceWithin (f.issue u a) := by
  simp only [PriceWithin,issue]
  linarith [mul_comm f.assets (u+1)]

/-- Units cancelled at their share rounded up. -/
theorem priceWithin_cancel (h : (u-1)*f.assets ≤ a*f.units) : f.PriceWithin (f.cancel u a) := by
  simp only [PriceWithin,cancel]
  linarith [mul_comm f.assets (u-1)]

theorem PriceWithin.valueOf_le (h : f.PriceWithin g) (hf : 0 < f.units) (ha : 0 ≤ f.assets)
    (hg : 0 < g.units) (hu : 0 ≤ u) (hle : u ≤ g.units) : g.valueOf u ≤ f.valueOf u+f.price := by
  have hf' : (0 : ℚ) < f.units := Int.cast_pos.mpr hf
  have hg' : (0 : ℚ) < g.units := Int.cast_pos.mpr hg
  have hle' : (u : ℚ) ≤ g.units := Int.cast_le.mpr hle
  have hprice : g.price ≤ f.price*((g.units+1)/g.units) := by
    rw [price,price,div_mul_div_comm,div_le_div_iff₀ hg' (mul_pos hf' hg')]
    have hcast : (g.assets : ℚ)*f.units ≤ f.assets*(g.units+1) := by exact_mod_cast h
    calc
      (g.assets : ℚ)*(f.units*g.units) = g.assets*f.units*g.units := by ring
      _ ≤ f.assets*(g.units+1)*g.units := mul_le_mul_of_nonneg_right hcast hg'.le
  calc
    g.valueOf u ≤ u*(f.price*((g.units+1)/g.units)) :=
      mul_le_mul_of_nonneg_left hprice (Int.cast_nonneg hu)
    _ = u*f.price+f.price*(u/g.units) := by field_simp
    _ ≤ u*f.price+f.price*1 := by
      have hpart : (u : ℚ)/g.units ≤ 1 := (div_le_one hg').mpr hle'
      gcongr
      exact price_nonneg hf.le ha
    _ = f.valueOf u+f.price := by rw [mul_one]; rfl

/-- A dealing is worth to those it is not for between nothing and the price of a unit. -/
theorem valueOf_others (ha : 0 ≤ f.assets) (hu : 0 ≤ u) (hf : u ≤ f.units) (hg : u ≤ g.units)
    (hprice : 0 < f.units → f.PriceLe g) (hwithin : 0 < f.units → f.PriceWithin g) :
    f.valueOf u ≤ g.valueOf u ∧ g.valueOf u ≤ f.valueOf u+f.price := by
  rcases hu.eq_or_lt with h0 | hpos
  · have hnonneg := price_nonneg (hu.trans hf) ha
    simp [← h0,hnonneg]
  · have hf' := hpos.trans_le hf
    have hg' := hpos.trans_le hg
    refine ⟨?_,(hwithin hf').valueOf_le hf' ha hg' hu hg⟩
    exact mul_le_mul_of_nonneg_left ((price_le_iff hf' hg').mpr (hprice hf')) (Int.cast_nonneg hu)

/-- The assets that belong to somebody. -/
def owned (f : Fund ℤ) : ℤ := if f.units = 0 then 0 else f.assets

/-- All the units are worth what is owned. -/
theorem valueOf_units (f : Fund ℤ) : f.valueOf f.units = f.owned := by
  by_cases h0 : f.units = 0
  · simp [owned,h0]
  · have hcast : (f.units : ℚ) ≠ 0 := Int.cast_ne_zero.mpr h0
    rw [valueOf,price,mul_div_cancel₀ _ hcast,owned,if_neg h0]

/-- What the others gain by a dealing is at the dealer's expense: its holding gains the assets that
come in, or loses those that go out, less the price of a unit at most. -/
theorem valueOf_dealer {x y : ℤ} (ha : 0 ≤ f.assets) (hga : 0 ≤ g.assets)
    (hx : x ≤ f.units) (hx₀ : 0 ≤ x) (hy : 0 ≤ y) (hothers : f.units-x = g.units-y)
    (hsome : 0 < f.units ∨ 0 < g.units) (hprice : 0 < f.units → f.PriceLe g)
    (hwithin : 0 < f.units → f.PriceWithin g) :
    f.valueOf x+((g.assets-f.owned : ℤ) : ℚ)-f.price ≤ g.valueOf y ∧
      g.valueOf y ≤ f.valueOf x+((g.assets-f.owned : ℤ) : ℚ) := by
  obtain ⟨hge,hle⟩ := valueOf_others (u := f.units-x) ha (by omega) (by omega) (by omega) hprice
    hwithin
  have hf : f.valueOf (f.units-x)+f.valueOf x = f.owned := by
    rw [← valueOf_add,sub_add_cancel,valueOf_units]
  have hg : g.valueOf (f.units-x)+g.valueOf y = g.owned := by
    rw [hothers,← valueOf_add,sub_add_cancel,valueOf_units]
  push_cast
  by_cases h0 : g.units = 0
  · -- the dealer takes the last units out, and leaves nobody what the rounding keeps back
    have hall : x = f.units := by omega
    have hnone : y = 0 := by omega
    have hunits : 0 < f.units := by omega
    have hpos : (0 : ℚ) < f.units := Int.cast_pos.mpr hunits
    have hrest : (g.assets : ℚ) ≤ f.price := by
      have hcast : g.assets*f.units ≤ f.assets*(g.units+1) := hwithin hunits
      rw [h0,zero_add,mul_one] at hcast
      rw [price,le_div_iff₀ hpos]
      exact_mod_cast hcast
    have hga' : (0 : ℚ) ≤ g.assets := Int.cast_nonneg hga
    rw [hall,valueOf_units,hnone,valueOf_zero]
    constructor <;> linarith
  · have howned : g.owned = g.assets := if_neg h0
    rw [howned] at hg
    constructor <;> linarith

/-- From `f` to `g`, in `n` dealings of others, a holding of `u` units has taken its part of a `gain`
for each unit, and beyond it no more than the price of a unit for each of the dealings. -/
structure Appreciates (u : ℤ) (f g : Fund ℤ) (gain : ℚ) (n : ℕ) : Prop where
  gain_nonneg : 0 ≤ gain
  raised : f.price+gain ≤ g.price
  within : g.valueOf u ≤ f.valueOf u+u*gain+n*g.price

namespace Appreciates
variable {k : Fund ℤ} {x y : ℚ} {m n : ℕ}

theorem refl (u : ℤ) (f : Fund ℤ) : Appreciates u f f 0 0 := by
  refine ⟨le_rfl,(add_zero _).le,?_⟩
  simp

theorem trans (hfg : Appreciates u f g x m) (hgh : Appreciates u g k y n) :
    Appreciates u f k (x+y) (m+n) := by
  refine ⟨add_nonneg hfg.gain_nonneg hgh.gain_nonneg,?_,?_⟩
  · linarith [hfg.raised,hgh.raised]
  · have hprice : g.price ≤ k.price := by linarith [hgh.raised,hgh.gain_nonneg]
    have hm : (m : ℚ)*g.price ≤ m*k.price := mul_le_mul_of_nonneg_left hprice m.cast_nonneg
    push_cast
    linarith [hfg.within,hgh.within,mul_add (u : ℚ) x y,add_mul (m : ℚ) n k.price]

/-- A dealing at a price that does not fall, and by no more than one rounding off it. -/
theorem of_dealing (hf : 0 < f.units) (ha : 0 ≤ f.assets) (hu : 0 < u) (hle : u ≤ g.units)
    (hprice : f.PriceLe g) (hwithin : f.PriceWithin g) : Appreciates u f g 0 1 := by
  have hraised : f.price ≤ g.price := (price_le_iff hf (hu.trans_le hle)).mpr hprice
  refine ⟨le_rfl,by rwa [add_zero],?_⟩
  have hvalue := hwithin.valueOf_le hf ha (hu.trans_le hle) hu.le hle
  push_cast
  linarith

/-- A gain is all the price takes from it. -/
theorem of_gain (hf : 0 ≤ f.units) (h : f.assets ≤ a) :
    Appreciates u f ⟨f.units,a⟩ (((a-f.assets : ℤ) : ℚ)/f.units) 0 := by
  have hgain := price_gain f a
  refine ⟨?_,hgain.ge,?_⟩
  · exact div_nonneg (Int.cast_nonneg (sub_nonneg.mpr h)) (Int.cast_nonneg hf)
  · rw [valueOf,valueOf,hgain]
    simp [mul_add]

theorem value_le (h : Appreciates u f g x n) (hu : 0 ≤ u) : f.valueOf u+u*x ≤ g.valueOf u := by
  have hcast : (0 : ℚ) ≤ u := Int.cast_nonneg hu
  calc
    f.valueOf u+u*x = u*(f.price+x) := (mul_add _ _ _).symm
    _ ≤ g.valueOf u := mul_le_mul_of_nonneg_left h.raised hcast

end Appreciates
end Fund
end ProRata
