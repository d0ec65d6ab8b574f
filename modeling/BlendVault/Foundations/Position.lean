import Mathlib.Algebra.BigOperators.Group.List.Basic
import BlendVault.Foundations.ProRata
import BlendVault.Foundations.Run

/-! One holder of a pro-rata fund who trades with it while nobody else does. A lot is bought for
at least, and sold for at most, its share of the assets, so that the price never falls: what the
others own stays theirs, and many small lots are no better than a large one. -/
namespace ProRata

/-- Units that change hands, and the assets that do. -/
structure Lot (R : Type*) where
  units : R
  assets : R

/-- A fund, and how many of its units the holder has. -/
@[ext] structure Position (R : Type*) where
  fund : Fund R
  held : R

/-- All the units of some lots. -/
def totalUnits {R : Type*} [Zero R] [Add R] (ls : List (Lot R)) : R := (ls.map Lot.units).sum

/-- All the assets of some lots. -/
def totalAssets {R : Type*} [Zero R] [Add R] (ls : List (Lot R)) : R := (ls.map Lot.assets).sum

section Sums
variable {R : Type*} [AddMonoid R] (ls : List (Lot R)) (l : Lot R)

@[simp] theorem totalUnits_nil : totalUnits ([] : List (Lot R)) = 0 := rfl
@[simp] theorem totalAssets_nil : totalAssets ([] : List (Lot R)) = 0 := rfl
@[simp] theorem totalUnits_concat : totalUnits (ls ++ [l]) = totalUnits ls+l.units := by simp [totalUnits]
@[simp] theorem totalAssets_concat : totalAssets (ls ++ [l]) = totalAssets ls+l.assets := by simp [totalAssets]

end Sums

namespace Position
variable {R : Type*} [CommRing R] [LinearOrder R] [IsStrictOrderedRing R] {p q : Position R}
  {l : Lot R} {ls : List (Lot R)}

/-- The lot is issued to the holder; the first one, into an empty fund, at any price. -/
structure Buys (p : Position R) (l : Lot R) (q : Position R) : Prop where
  units_pos : 0 < l.units
  assets_nonneg : 0 ≤ l.assets
  price : 0 < p.fund.units → l.units*p.fund.assets ≤ l.assets*p.fund.units
  result : q = ⟨p.fund.issue l.units l.assets,p.held+l.units⟩

/-- The holder's lot is cancelled. -/
structure Sells (p : Position R) (l : Lot R) (q : Position R) : Prop where
  units_pos : 0 < l.units
  held : l.units ≤ p.held
  units_le : l.units ≤ p.fund.units
  assets_le : l.assets ≤ p.fund.assets
  price : l.assets*p.fund.units ≤ l.units*p.fund.assets
  result : q = ⟨p.fund.cancel l.units l.assets,p.held-l.units⟩

/-- A lot changes hands, one way or the other. -/
def Trades (p : Position R) (l : Lot R) (q : Position R) : Prop := Buys p l q ∨ Sells p l q

theorem Buys.priceLe (h : Buys p l q) (hp : 0 < p.fund.units) : p.fund.PriceLe q.fund := by
  rw [h.result]
  exact p.fund.priceLe_issue (h.price hp)

theorem Sells.priceLe (h : Sells p l q) : p.fund.PriceLe q.fund := by
  rw [h.result]
  exact p.fund.priceLe_cancel h.price

theorem Trades.priceLe (h : Trades p l q) (hp : 0 < p.fund.units) : p.fund.PriceLe q.fund :=
  h.elim (fun hb => hb.priceLe hp) fun hs => hs.priceLe

omit [IsStrictOrderedRing R] in
/-- The units that others hold stay as many as they were. -/
theorem Trades.others (h : Trades p l q) : q.fund.units-q.held = p.fund.units-p.held := by
  rcases h with h | h
  · rw [h.result]
    exact add_sub_add_right_eq_sub _ _ _
  · rw [h.result]
    exact sub_sub_sub_cancel_right _ _ _

theorem Trades.nonneg (h : Trades p l q) (hheld : 0 ≤ p.held) (hassets : 0 ≤ p.fund.assets) :
    0 ≤ q.held ∧ 0 ≤ q.fund.assets := by
  rcases h with h | h
  · rw [h.result]
    exact ⟨add_nonneg hheld h.units_pos.le,add_nonneg hassets h.assets_nonneg⟩
  · rw [h.result]
    exact ⟨sub_nonneg.mpr h.held,sub_nonneg.mpr h.assets_le⟩

/-- However the holder trades, the assets never come to less than the others' part of them. -/
theorem others_keep (hheld : 0 ≤ p.held) (hle : p.held ≤ p.fund.units) (hassets : 0 ≤ p.fund.assets)
    (h : Run Trades p ls q) : 0 ≤ q.fund.assets ∧
      (p.fund.units-p.held)*p.fund.assets ≤ q.fund.assets*p.fund.units := by
  have hkept : q.fund.units-q.held = p.fund.units-p.held ∧ 0 ≤ q.held ∧ 0 ≤ q.fund.assets ∧
      (p.held < p.fund.units → p.fund.PriceLe q.fund) := by
    refine h.invariant (fun q => q.fund.units-q.held = p.fund.units-p.held ∧ 0 ≤ q.held ∧
      0 ≤ q.fund.assets ∧ (p.held < p.fund.units → p.fund.PriceLe q.fund))
      ⟨rfl,hheld,hassets,fun _ => .refl _⟩ ?_
    rintro t l u last ⟨hothers,hheld',hassets',hprice⟩
    obtain ⟨hheld₁,hassets₁⟩ := last.nonneg hheld' hassets'
    have hothers₁ := last.others
    refine ⟨hothers₁.trans hothers,hheld₁,hassets₁,fun hlt => ?_⟩
    -- somebody else has units, so the fund is not empty before the step
    have ht : 0 < t.fund.units := by linarith
    have hu : 0 ≤ u.fund.units := by linarith
    exact (hprice hlt).trans (hheld.trans hle) ht hu (last.priceLe ht)
  obtain ⟨hothers,hheld',hassets',hprice⟩ := hkept
  refine ⟨hassets',?_⟩
  rcases hle.eq_or_lt with heq | hlt
  · rw [heq,sub_self,zero_mul]
    exact mul_nonneg hassets' (hheld.trans hle)
  · have hgap : p.fund.units-p.held ≤ q.fund.units := by linarith
    calc
      (p.fund.units-p.held)*p.fund.assets ≤ q.fund.units*p.fund.assets :=
        mul_le_mul_of_nonneg_right hgap hassets
      _ = p.fund.assets*q.fund.units := mul_comm _ _
      _ ≤ q.fund.assets*p.fund.units := hprice hlt

/-- Lots bought one after another come to no more than their share of what they cost. -/
theorem buys_price (hp : 0 < p.fund.units) (h : Run Buys p ls q) :
    q = ⟨p.fund.issue (totalUnits ls) (totalAssets ls),p.held+totalUnits ls⟩ ∧
      totalUnits ls*p.fund.assets ≤ totalAssets ls*p.fund.units := by
  have hkept : q = ⟨p.fund.issue (totalUnits ls) (totalAssets ls),p.held+totalUnits ls⟩ ∧ 0 < q.fund.units ∧
      p.fund.PriceLe q.fund := by
    refine h.history (fun ls q => q = ⟨p.fund.issue (totalUnits ls) (totalAssets ls),p.held+totalUnits ls⟩ ∧
      0 < q.fund.units ∧ p.fund.PriceLe q.fund) ⟨?_,hp,.refl _⟩ ?_
    · simp [Fund.issue]
    · rintro ls t l u last ⟨hsum,ht,hprice⟩
      have hu : 0 < u.fund.units := by
        rw [last.result]
        exact add_pos ht last.units_pos
      refine ⟨?_,hu,hprice.trans hp.le ht hu.le (last.priceLe ht)⟩
      rw [last.result,hsum,totalUnits_concat,totalAssets_concat]
      simp [Fund.issue,add_assoc]
  obtain ⟨hsum,-,hprice⟩ := hkept
  refine ⟨hsum,?_⟩
  rw [hsum] at hprice
  exact p.fund.priceLe_issue_iff.mp hprice

/-- Lots sold one after another bring no more than their share, and were there to be sold. -/
theorem sells_price (hp : 0 ≤ p.fund.units) (hassets : 0 ≤ p.fund.assets) (h : Run Sells p ls q) :
    totalAssets ls*p.fund.units ≤ totalUnits ls*p.fund.assets ∧ totalUnits ls ≤ p.fund.units ∧
      totalAssets ls ≤ p.fund.assets ∧ (ls ≠ [] → totalUnits ls ≤ p.held) := by
  have hkept : q = ⟨p.fund.cancel (totalUnits ls) (totalAssets ls),p.held-totalUnits ls⟩ ∧ 0 ≤ q.fund.units ∧
      0 ≤ q.fund.assets ∧ (ls ≠ [] → 0 ≤ q.held) ∧ p.fund.PriceLe q.fund := by
    refine h.history (fun ls q => q = ⟨p.fund.cancel (totalUnits ls) (totalAssets ls),p.held-totalUnits ls⟩ ∧
      0 ≤ q.fund.units ∧ 0 ≤ q.fund.assets ∧ (ls ≠ [] → 0 ≤ q.held) ∧ p.fund.PriceLe q.fund)
      ⟨?_,hp,hassets,fun hne => absurd rfl hne,.refl _⟩ ?_
    · simp [Fund.cancel]
    · rintro ls t l u last ⟨hsum,-,-,-,hprice⟩
      have ht : 0 < t.fund.units := last.units_pos.trans_le last.units_le
      have hu : 0 ≤ u.fund.units ∧ 0 ≤ u.fund.assets ∧ 0 ≤ u.held := by
        rw [last.result]
        exact ⟨sub_nonneg.mpr last.units_le,sub_nonneg.mpr last.assets_le,sub_nonneg.mpr last.held⟩
      refine ⟨?_,hu.1,hu.2.1,fun _ => hu.2.2,hprice.trans hp ht hu.1 last.priceLe⟩
      rw [last.result,hsum,totalUnits_concat,totalAssets_concat]
      simp [Fund.cancel,sub_sub]
  obtain ⟨hsum,hunits,hassets',hheld,hprice⟩ := hkept
  rw [hsum] at hunits hassets' hheld hprice
  exact ⟨p.fund.priceLe_cancel_iff.mp hprice,sub_nonneg.mp hunits,sub_nonneg.mp hassets',
    fun hne => sub_nonneg.mp (hheld hne)⟩

end Position
end ProRata
