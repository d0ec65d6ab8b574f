import BlendVault.Contract.VaultData

/-! The laws of the six conversions. Each way up is left adjoint to the way down it is paired
with, whether the vault is empty or not, and lies above its own rounding down by one at most. -/
namespace BlendVault
open RoundedDivision ProRata

namespace VaultData

/-- The totals that are converted with: no shares yet, or shares with bTokens behind them. -/
def Convertible (v : VaultData) : Prop :=
  v.totalShares = 0 ∨ 0 < v.totalShares ∧ 0 < v.totalBTokens

variable [FixedPoint] {v : VaultData} {a b k s x y : ℤ}

section Shares
variable (h : v.Convertible)
include h

/-- bTokens cost at most `k` shares exactly when `k` shares are quoted at no fewer. -/
theorem Convertible.sharesUp_le_iff (hb : InI128 (b*v.totalShares))
    (hk : v.totalShares ≠ 0 → InI128 (k*v.totalBTokens)) :
    ∃ x y, v.bTokensToSharesUp b = some x ∧ v.sharesToBTokensDown k = some y ∧
      (x ≤ k ↔ b ≤ y) := by
  rcases h with h0 | ⟨hS,hB⟩
  · exact ⟨b,k,if_pos (.inl h0),if_pos h0,Iff.rfl⟩
  · refine ⟨_,_,(bTokensToSharesUp_eq_some hS hB).mpr ⟨hb,rfl⟩,
      (sharesToBTokensDown_eq_some hS).mpr ⟨hk hS.ne',rfl⟩,?_⟩
    exact scale_le_iff hB hS

/-- Shares minted for bTokens are quoted at no more bTokens than they were minted for. -/
theorem Convertible.sharesDown_roundTrip (hb₀ : 0 ≤ b) (hb : InI128 (b*v.totalShares)) :
    ∃ s b', v.bTokensToSharesDown b = some s ∧ v.sharesToBTokensDown s = some b' ∧ b' ≤ b := by
  rcases h with h0 | ⟨hS,hB⟩
  · exact ⟨b,b,if_pos (.inl h0),if_pos h0,le_rfl⟩
  · have hs := ediv_nonneg_of_pos hB (mul_nonneg hb₀ hS.le)
    have hdown := ediv_mul_le (b*v.totalShares) hB
    refine ⟨_,_,(bTokensToSharesDown_eq_some hS hB).mpr ⟨hb,rfl⟩,
      (sharesToBTokensDown_eq_some hS).mpr ⟨?_,rfl⟩,?_⟩
    · exact inI128_of_nonneg (mul_nonneg hs hB.le) (hdown.trans hb.2)
    · exact Int.ediv_le_of_le_mul hS hdown

/-- The two roundings to shares are the same when nothing is left over, and one apart if not. -/
theorem Convertible.sharesUp_sub_down (hb : InI128 (b*v.totalShares)) :
    ∃ x y, v.bTokensToSharesUp b = some x ∧ v.bTokensToSharesDown b = some y ∧ y ≤ x ∧
      x ≤ y+1 ∧ (x = y ↔ v.totalBTokens ∣ b*v.totalShares) := by
  rcases h with h0 | ⟨hS,hB⟩
  · refine ⟨b,b,if_pos (.inl h0),if_pos (.inl h0),le_rfl,by omega,iff_of_true rfl ?_⟩
    rw [h0,mul_zero]
    exact dvd_zero _
  · exact ⟨_,_,(bTokensToSharesUp_eq_some hS hB).mpr ⟨hb,rfl⟩,
      (bTokensToSharesDown_eq_some hS hB).mpr ⟨hb,rfl⟩,ediv_le_ceilDiv _ hB,
      ceilDiv_le_ediv_add_one _ hB,ceilDiv_eq_ediv_iff hB⟩

end Shares

section Underlying
variable (hr : 0 < v.bRate)
include hr

/-- Underlying costs at most `b` bTokens exactly when `b` bTokens are worth no less. -/
theorem bTokensUp_le_iff (ha : InI128 (a*scalar12)) (hb : InI128 (b*v.bRate)) :
    ∃ x y, v.underlyingToBTokensUp a = some x ∧ v.bTokensToUnderlyingDown b = some y ∧
      (x ≤ b ↔ a ≤ y) :=
  ⟨_,_,(underlyingToBTokensUp_eq_some hr).mpr ⟨ha,rfl⟩,
    bTokensToUnderlyingDown_eq_some.mpr ⟨hb,rfl⟩,scale_le_iff hr scalar12_pos⟩

/-- bTokens minted for underlying are worth no more than they were minted for. -/
theorem bTokensDown_roundTrip (ha₀ : 0 ≤ a) (ha : InI128 (a*scalar12)) :
    ∃ b a', v.underlyingToBTokensDown a = some b ∧ v.bTokensToUnderlyingDown b = some a' ∧
      a' ≤ a := by
  have hb := ediv_nonneg_of_pos hr (mul_nonneg ha₀ scalar12_pos.le)
  have hdown := ediv_mul_le (a*scalar12) hr
  refine ⟨_,_,(underlyingToBTokensDown_eq_some hr).mpr ⟨ha,rfl⟩,
    bTokensToUnderlyingDown_eq_some.mpr ⟨?_,rfl⟩,?_⟩
  · exact inI128_of_nonneg (mul_nonneg hb hr.le) (hdown.trans ha.2)
  · exact Int.ediv_le_of_le_mul scalar12_pos hdown

theorem bTokensUp_sub_down (ha : InI128 (a*scalar12)) :
    ∃ x y, v.underlyingToBTokensUp a = some x ∧ v.underlyingToBTokensDown a = some y ∧ y ≤ x ∧
      x ≤ y+1 ∧ (x = y ↔ v.bRate ∣ a*scalar12) :=
  ⟨_,_,(underlyingToBTokensUp_eq_some hr).mpr ⟨ha,rfl⟩,
    (underlyingToBTokensDown_eq_some hr).mpr ⟨ha,rfl⟩,ediv_le_ceilDiv _ hr,
    ceilDiv_le_ediv_add_one _ hr,ceilDiv_eq_ediv_iff hr⟩

end Underlying

/-- Up and down are adjoint in both pairs of conversions, no round trip through the roundings
down gains anything, and up and down differ by one at most, by nothing on exact divisions. -/
theorem conversions_adjoint (h : v.Convertible) (hr : 0 < v.bRate) :
    (∀ b k, InI128 (b*v.totalShares) → (v.totalShares ≠ 0 → InI128 (k*v.totalBTokens)) →
      ∃ x y, v.bTokensToSharesUp b = some x ∧ v.sharesToBTokensDown k = some y ∧
        (x ≤ k ↔ b ≤ y)) ∧
    (∀ a b, InI128 (a*scalar12) → InI128 (b*v.bRate) →
      ∃ x y, v.underlyingToBTokensUp a = some x ∧ v.bTokensToUnderlyingDown b = some y ∧
        (x ≤ b ↔ a ≤ y)) ∧
    (∀ b, 0 ≤ b → InI128 (b*v.totalShares) →
      ∃ s b', v.bTokensToSharesDown b = some s ∧ v.sharesToBTokensDown s = some b' ∧ b' ≤ b) ∧
    (∀ a, 0 ≤ a → InI128 (a*scalar12) →
      ∃ b a', v.underlyingToBTokensDown a = some b ∧ v.bTokensToUnderlyingDown b = some a' ∧
        a' ≤ a) ∧
    (∀ b, InI128 (b*v.totalShares) →
      ∃ x y, v.bTokensToSharesUp b = some x ∧ v.bTokensToSharesDown b = some y ∧ y ≤ x ∧
        x ≤ y+1 ∧ (x = y ↔ v.totalBTokens ∣ b*v.totalShares)) ∧
    (∀ a, InI128 (a*scalar12) →
      ∃ x y, v.underlyingToBTokensUp a = some x ∧ v.underlyingToBTokensDown a = some y ∧ y ≤ x ∧
        x ≤ y+1 ∧ (x = y ↔ v.bRate ∣ a*scalar12)) :=
  ⟨fun _ _ => h.sharesUp_le_iff,fun _ _ => bTokensUp_le_iff hr,fun _ => h.sharesDown_roundTrip,
    fun _ => bTokensDown_roundTrip hr,fun _ => h.sharesUp_sub_down,
    fun _ => bTokensUp_sub_down hr⟩

end VaultData

section Sample
attribute [local instance] FixedPoint.documented

/-- Thirty shares over forty bTokens at a rate of 1.1: seven bTokens cost more than five shares, which
are quoted at fewer than seven, and nothing converted down and back comes to more. -/
theorem conversions_adjoint_sample : ∃ v : VaultData, v.totalShares = 30 ∧ v.totalBTokens = 40 ∧
    (∃ x y, v.bTokensToSharesUp 7 = some x ∧ v.sharesToBTokensDown 5 = some y ∧ (x ≤ 5 ↔ 7 ≤ y)) ∧
    (∃ x y, v.underlyingToBTokensUp 9 = some x ∧ v.bTokensToUnderlyingDown 8 = some y ∧
      (x ≤ 8 ↔ 9 ≤ y)) ∧
    (∃ s b, v.bTokensToSharesDown 7 = some s ∧ v.sharesToBTokensDown s = some b ∧ b ≤ 7) ∧
    (∃ b a, v.underlyingToBTokensDown 9 = some b ∧ v.bTokensToUnderlyingDown b = some a ∧ a ≤ 9) ∧
    (∃ x y, v.bTokensToSharesUp 8 = some x ∧ v.bTokensToSharesDown 8 = some y ∧ x = y) ∧
    ∃ x y, v.underlyingToBTokensUp 9 = some x ∧ v.underlyingToBTokensDown 9 = some y ∧ x ≤ y+1 := by
  obtain ⟨hshares,hunderlying,hback,hback',hgap,hgap'⟩ := VaultData.conversions_adjoint
    (v := ⟨0,1100000000000,30,40⟩) (.inr (by decide)) (by decide)
  refine ⟨_,rfl,rfl,hshares 7 5 (by decide) fun _ => by decide,hunderlying 9 8 (by decide) (by decide),
    hback 7 (by decide) (by decide),hback' 9 (by decide) (by decide),?_,?_⟩
  · obtain ⟨x,y,hx,hy,-,-,hexact⟩ := hgap 8 (by decide)
    exact ⟨x,y,hx,hy,hexact.mpr (by decide)⟩
  · obtain ⟨x,y,hx,hy,-,hle,-⟩ := hgap' 9 (by decide)
    exact ⟨x,y,hx,hy,hle⟩

end Sample
end BlendVault
