import BlendVault.System.Dust
import BlendVault.System.Overflow

/-! What a single request for underlying costs. Rounding up twice on the way to shares is adjoint
to rounding down twice on the way back, so a withdrawal burns the least holding whose quote
covers it, and falls back on the whole holding exactly when even its quote does not. -/
namespace BlendVault
open FailStop RoundedDivision ProRata

namespace VaultData
variable {v : VaultData} {amount held k : ℤ}

section Adjoint
variable (hr : 0 < v.bRate) (hS : 0 < v.totalShares) (hB : 0 < v.totalBTokens)
include hr hS hB

theorem sharesFor_pos (ha : 0 < amount) : 0 < v.sharesFor (burnFor amount v.bRate) := by
  have hb : 0 < burnFor amount v.bRate := ceilDiv_pos hr (mul_pos ha scalar12_pos)
  exact ceilDiv_pos hB (mul_pos hb hS)

/-- The shares a request costs are within `k` exactly when `k` shares are quoted at no less. -/
theorem sharesFor_le_iff (ha : 0 < amount) :
    v.sharesFor (burnFor amount v.bRate) ≤ k ↔ amount ≤ v.exactUnderlying v.bRate k := by
  by_cases hk : 0 < k
  · rw [exactUnderlying,exactBTokens_eq_quote hk hS,sharesFor,scale_le_iff hB hS,burnFor,
      scale_le_iff hr scalar12_pos]
    exact Iff.rfl
  · have hpos := sharesFor_pos hr hS hB ha
    rw [exactUnderlying,exactBTokens_of_nonpos (not_lt.mp hk)]
    refine iff_of_false (by omega) ?_
    simpa using ha

/-- Among all holdings quoted at `amount` or more, the shares it costs are the least. -/
theorem sharesFor_isLeast (ha : 0 < amount) :
    IsLeast {k | amount ≤ v.exactUnderlying v.bRate k} (v.sharesFor (burnFor amount v.bRate)) :=
  ⟨(sharesFor_le_iff hr hS hB ha).mp le_rfl,fun _ hk => (sharesFor_le_iff hr hS hB ha).mpr hk⟩

end Adjoint

/-- The products a request for `amount` takes fit: two for its cost, and two more for the value
of the holding when that is what is paid. -/
structure Computes (v : VaultData) (held amount : ℤ) : Prop where
  bTokens : amount*scalar12 ≤ i128Max
  shares : burnFor amount v.bRate*v.totalShares ≤ i128Max
  value : v.exactUnderlying v.bRate held < amount → v.Valuable v.bRate held

/-- A request whose two products fit costs what it should. -/
theorem costs_of_fits [FixedPoint] (hr : 0 < v.bRate) (hS : 0 < v.totalShares)
    (hB : 0 < v.totalBTokens) (ha : 0 < amount) (hscaled : amount*scalar12 ≤ i128Max)
    (hproduct : burnFor amount v.bRate*v.totalShares ≤ i128Max) :
    v.Costs amount (burnFor amount v.bRate) (v.sharesFor (burnFor amount v.bRate)) := by
  have hpos := mul_pos ha scalar12_pos
  have hb : 0 < burnFor amount v.bRate := ceilDiv_pos hr hpos
  refine ⟨?_,hb,?_,sharesFor_pos hr hS hB ha⟩
  · exact (underlyingToBTokensUp_eq_some hr).mpr ⟨inI128_of_nonneg hpos.le hscaled,rfl⟩
  · exact (bTokensToSharesUp_eq_some hS hB).mpr
      ⟨inI128_of_nonneg (mul_pos hb hS).le hproduct,rfl⟩

section Computed
variable [FixedPoint] {u b s : ℤ}

/-- The holding covers what a request costs. -/
def Affords (v : VaultData) (held amount : ℤ) : Prop := ∀ b s, v.Costs amount b s → s ≤ held

/-- A request that has been priced fits, and costs what it should. -/
theorem Costs.fits (h : v.Costs amount b s) (hr : 0 < v.bRate) (hS : 0 < v.totalShares)
    (hB : 0 < v.totalBTokens) : amount*scalar12 ≤ i128Max ∧
      burnFor amount v.bRate*v.totalShares ≤ i128Max ∧ s = v.sharesFor (burnFor amount v.bRate) := by
  have hb : b = burnFor amount v.bRate := h.bTokens_eq hr
  obtain ⟨hfit,-⟩ := (underlyingToBTokensUp_eq_some hr).mp h.bTokens
  obtain ⟨hfit',hs⟩ := (bTokensToSharesUp_eq_some hS hB).mp h.shares
  rw [hb] at hfit' hs
  exact ⟨hfit.2,hfit'.2,hs⟩

theorem Costs.amount_pos (h : v.Costs amount b s) (hr : 0 < v.bRate) : 0 < amount := by
  have hpos := h.bTokens_pos
  rw [h.bTokens_eq hr,lt_ceilDiv_iff hr,zero_mul] at hpos
  exact pos_of_mul_pos_left hpos scalar12_pos.le

/-- What is cut down to the holding is paid less than was asked for. -/
theorem Values.lt_of_short {b₀ s₀ : ℤ} (h : v.Values held u b)
    (hcost : v.Costs amount b₀ s₀) (hshort : held < s₀) (hheld : 0 < held) (hr : 0 < v.bRate)
    (hS : 0 < v.totalShares) : u < amount := by
  have ha := hcost.amount_pos hr
  have hu : u = v.exactUnderlying v.bRate held := by
    rw [h.underlying_eq hS,exactUnderlying,exactBTokens_eq_quote hheld hS]
  by_cases hB : 0 < v.totalBTokens
  · obtain ⟨-,-,hs₀⟩ := hcost.fits hr hS hB
    rw [hs₀,← not_le,sharesFor_le_iff hr hS hB ha] at hshort
    rw [hu]
    exact not_le.mp hshort
  · have hq : quote v.fund held ≤ 0 := by
      apply Int.ediv_le_of_le_mul hS
      rw [zero_mul]
      exact mul_nonpos_of_nonneg_of_nonpos hheld.le (not_lt.mp hB)
    have hu₀ : quote v.fund held*v.bRate/scalar12 ≤ 0 := by
      apply Int.ediv_le_of_le_mul scalar12_pos
      rw [zero_mul]
      exact mul_nonpos_of_nonpos_of_nonneg hq hr.le
    rw [h.underlying_eq hS]
    exact hu₀.trans_lt ha

theorem Values.valuable {n : ℤ} (h : v.Values n u b) (hS : 0 < v.totalShares) (hn : 0 < n) :
    v.Valuable v.bRate n := by
  obtain ⟨d,hd,hu⟩ := h.underlying
  obtain ⟨hfit,hdq⟩ := (sharesToBTokensDown_eq_some hS).mp hd
  obtain ⟨hfit',-⟩ := bTokensToUnderlyingDown_eq_some.mp hu
  rw [Valuable,exactBTokens_eq_quote hn hS,← hdq]
  exact ⟨hfit.2,hfit'.2⟩

/-- What the holding covers is paid as asked for. -/
theorem Withdraws.paid_of_affords (h : v.Withdraws held amount u b s) (ha : v.Affords held amount) :
    u = amount := by
  cases h with
  | plain _ _ => rfl
  | clamped cost short _ _ => exact absurd (ha _ _ cost) (not_le.mpr short)

/-- And nothing else is. -/
theorem Withdraws.affords_of_paid (h : v.Withdraws held amount u b s) (hr : 0 < v.bRate)
    (hS : 0 < v.totalShares) (hpaid : u = amount) : v.Affords held amount := by
  intro b' s' hcost
  cases h with
  | plain cost enough =>
    cases hcost.bTokens.symm.trans cost.bTokens
    cases hcost.shares.symm.trans cost.shares
    exact enough
  | clamped cost short held_pos value =>
    exact absurd hpaid (value.lt_of_short cost short held_pos hr hS).ne

theorem Withdraws.amount_pos (h : v.Withdraws held amount u b s) (hr : 0 < v.bRate) :
    0 < amount := by
  cases h with
  | plain cost _ => exact cost.amount_pos hr
  | clamped cost _ _ _ => exact cost.amount_pos hr

/-- A withdrawal that returns has computed everything it needed. -/
theorem Withdraws.computes (h : v.Withdraws held amount u b s) (hr : 0 < v.bRate)
    (hS : 0 < v.totalShares) (hB : 0 < v.totalBTokens) : v.Computes held amount := by
  cases h with
  | plain cost enough =>
    obtain ⟨hb,hs,hcost⟩ := cost.fits hr hS hB
    rw [hcost,sharesFor_le_iff hr hS hB (cost.amount_pos hr)] at enough
    exact ⟨hb,hs,fun hlt => absurd enough (not_le.mpr hlt)⟩
  | clamped cost short held_pos value =>
    obtain ⟨hb,hs,-⟩ := cost.fits hr hS hB
    exact ⟨hb,hs,fun _ => value.valuable hS held_pos⟩

end Computed

end VaultData

section Holder
variable {Address W : Type} [DecidableEq Address]

/-- A vault with shares, bTokens and a positive rate; `v` are the totals as an operation in `f`
reads them, and they and the user's balance are `i128`s. -/
structure Ready (e : Env Address W) (pool asset user : Address) (f : Frame Address W)
    (v : VaultData) : Prop where
  refreshed : e.refreshed pool asset f.ext f.storage = some v
  rate_pos : 0 < v.bRate
  shares_pos : 0 < v.totalShares
  bTokens_pos : 0 < v.totalBTokens
  shares_fit : v.totalShares ≤ i128Max
  bTokens_fit : v.totalBTokens ≤ i128Max
  held_fit : InI128 (f.storage.sharesOf user)

namespace Ready
variable {e : Env Address W} {pool asset user : Address} {f : Frame Address W} {v : VaultData}
  {amount b n : ℤ} (h : Ready e pool asset user f v)
include h

/-- What the totals and the balance cover can be released. -/
theorem releases (hn : 0 ≤ n) (hnS : n ≤ v.totalShares) (hle : n ≤ f.storage.sharesOf user)
    (hb : 0 ≤ b) (hbB : b ≤ v.totalBTokens) :
    v.Releases b n ∧ InI128 (f.storage.sharesOf user-n) := by
  have hfit := h.held_fit.2
  exact ⟨VaultData.releases_of_le hn hnS hb hbB h.shares_fit h.bTokens_fit,
    inI128_of_nonneg (by omega) (by omega)⟩

variable [FixedPoint]

/-- A request whose cost fits and is covered is paid exactly. -/
theorem returns_withdraw (ha : 0 < amount) (hscaled : amount*scalar12 ≤ i128Max)
    (hproduct : burnFor amount v.bRate*v.totalShares ≤ i128Max)
    (hle : v.sharesFor (burnFor amount v.bRate) ≤ f.storage.sharesOf user)
    (hleS : v.sharesFor (burnFor amount v.bRate) ≤ v.totalShares)
    (hleB : burnFor amount v.bRate ≤ v.totalBTokens) :
    Returns (Vault.withdraw e pool asset user amount) f
      (amount,burnFor amount v.bRate,v.sharesFor (burnFor amount v.bRate))
      (f.settled (v.burnt (burnFor amount v.bRate) (v.sharesFor (burnFor amount v.bRate))) user
        (f.storage.sharesOf user-v.sharesFor (burnFor amount v.bRate))) := by
  have hcost := VaultData.costs_of_fits h.rate_pos h.shares_pos h.bTokens_pos ha hscaled hproduct
  obtain ⟨hrel,hfit⟩ := h.releases hcost.shares_pos.le hleS hle hcost.bTokens_pos.le hleB
  exact Vault.returns_withdraw.mpr ⟨v,_,_,_,rfl,h.refreshed,.plain hcost hle,hrel,hfit,rfl⟩

/-- Redeeming `n` shares pays their quote, if that is anything. -/
theorem returns_redeem (hn : 0 < n) (hle : n ≤ f.storage.sharesOf user) (hnS : n ≤ v.totalShares)
    (hfits : v.Valuable v.bRate n) (hworth : 0 < v.exactUnderlying v.bRate n) :
    Returns (Vault.redeem e pool asset user n) f
      (v.exactUnderlying v.bRate n,burnFor (v.exactUnderlying v.bRate n) v.bRate)
      (f.settled (v.burnt (burnFor (v.exactUnderlying v.bRate n) v.bRate) n) user
        (f.storage.sharesOf user-n)) := by
  have hvalue := hfits.values h.rate_pos h.shares_pos h.bTokens_pos.le hn
  have hleB := (hvalue.bTokens_le h.rate_pos h.shares_pos).trans
    (quote_le_assets h.shares_pos h.bTokens_pos.le hnS)
  obtain ⟨hrel,hfit⟩ := h.releases hn.le hnS hle
    (ceilDiv_nonneg h.rate_pos (mul_nonneg hworth.le scalar12_pos.le)) hleB
  exact Vault.returns_redeem.mpr ⟨v,_,_,rfl,h.refreshed,hn,hle,hvalue,hworth,hrel,hfit,rfl⟩

end Ready

/-- `user` holds some of the shares of a vault that has bTokens and a positive rate; `v` are the
totals as a call on `f` reads them, both of them an `i128`. -/
structure Holder (e : Env Address W) (pool asset user : Address) (f : Frame Address W)
    (v : VaultData) : Prop where
  refreshed : e.refreshed pool asset f.ext f.storage = some v
  rate_pos : 0 < v.bRate
  bTokens_pos : 0 < v.totalBTokens
  held_pos : 0 < f.storage.sharesOf user
  held_le : f.storage.sharesOf user ≤ v.totalShares
  shares_fit : v.totalShares ≤ i128Max
  bTokens_fit : v.totalBTokens ≤ i128Max

namespace Holder
variable {e : Env Address W} {pool asset user : Address} {f : Frame Address W} {v : VaultData}
  {amount k : ℤ} (h : Holder e pool asset user f v)
include h

theorem shares_pos : 0 < v.totalShares := h.held_pos.trans_le h.held_le

theorem ready : Ready e pool asset user f v := by
  have hfit := h.held_le.trans h.shares_fit
  exact ⟨h.refreshed,h.rate_pos,h.shares_pos,h.bTokens_pos,h.shares_fit,h.bTokens_fit,
    inI128_of_nonneg h.held_pos.le hfit⟩

/-- With a rate of at least one and no more shares than bTokens, nothing is lost on the way
from shares to underlying and back. -/
theorem burnFor_exactUnderlying (hr : scalar12 ≤ v.bRate) (hk : 0 < k) :
    burnFor (v.exactUnderlying v.bRate k) v.bRate = quote v.fund k := by
  rw [VaultData.exactUnderlying,VaultData.exactBTokens_eq_quote hk h.shares_pos]
  exact ceil_floor_eq h.rate_pos scalar12_pos hr _

theorem sharesFor_quote (hSB : v.totalShares ≤ v.totalBTokens) :
    v.sharesFor (quote v.fund k) = k := ceil_floor_eq h.bTokens_pos h.shares_pos hSB k

/-- Under the same conditions every share is quoted at something. -/
theorem exactUnderlying_pos (hr : scalar12 ≤ v.bRate) (hSB : v.totalShares ≤ v.totalBTokens)
    (hk : 0 < k) : 0 < v.exactUnderlying v.bRate k := by
  have hq : k ≤ quote v.fund k :=
    (Int.le_ediv_iff_mul_le h.shares_pos).mpr (mul_le_mul_of_nonneg_left hSB hk.le)
  rw [VaultData.exactUnderlying,VaultData.exactBTokens_eq_quote hk h.shares_pos]
  refine (Int.le_ediv_iff_mul_le scalar12_pos).mpr ?_
  exact mul_le_mul (hk.trans_le hq) hr scalar12_pos.le (hk.le.trans hq)

/-- The products of withdrawing the quote of `k` shares fit as soon as the quote's own do. -/
theorem computes_exactUnderlying (hr : scalar12 ≤ v.bRate) (hSB : v.totalShares ≤ v.totalBTokens)
    (hk : 0 < k) (hle : k ≤ f.storage.sharesOf user) (hfits : v.Valuable v.bRate k) :
    v.Computes (f.storage.sharesOf user) (v.exactUnderlying v.bRate k) ∧
      v.exactUnderlying v.bRate k ≤ v.exactUnderlying v.bRate (f.storage.sharesOf user) := by
  have hburn := h.burnFor_exactUnderlying hr hk
  have hmono : v.exactUnderlying v.bRate k ≤
      v.exactUnderlying v.bRate (f.storage.sharesOf user) := by
    refine (VaultData.sharesFor_le_iff h.rate_pos h.shares_pos h.bTokens_pos
      (h.exactUnderlying_pos hr hSB hk)).mp ?_
    rwa [hburn,h.sharesFor_quote hSB]
  refine ⟨⟨?_,?_,fun hlt => absurd hmono (not_le.mpr hlt)⟩,hmono⟩
  · exact (ediv_mul_le _ scalar12_pos).trans hfits.2
  · rw [hburn]
    exact (ediv_mul_le _ h.shares_pos).trans hfits.1

variable [FixedPoint]

/-- A request that the quote of the whole holding covers is paid exactly. -/
theorem returns_withdraw_of_le (ha : 0 < amount)
    (hfits : v.Computes (f.storage.sharesOf user) amount)
    (hle : amount ≤ v.exactUnderlying v.bRate (f.storage.sharesOf user)) :
    Returns (Vault.withdraw e pool asset user amount) f
      (amount,burnFor amount v.bRate,v.sharesFor (burnFor amount v.bRate))
      (f.settled (v.burnt (burnFor amount v.bRate) (v.sharesFor (burnFor amount v.bRate))) user
        (f.storage.sharesOf user-v.sharesFor (burnFor amount v.bRate))) := by
  have hheld := (VaultData.sharesFor_le_iff h.rate_pos h.shares_pos h.bTokens_pos ha).mpr hle
  have hq : burnFor amount v.bRate ≤ quote v.fund (v.sharesFor (burnFor amount v.bRate)) :=
    (scale_le_iff h.bTokens_pos h.shares_pos).mp le_rfl
  have hheldS := hheld.trans h.held_le
  exact h.ready.returns_withdraw ha hfits.bTokens hfits.shares hheld hheldS
    (hq.trans (quote_le_assets h.shares_pos h.bTokens_pos.le hheldS))

/-- A request beyond the quote of the whole holding is paid that quote. -/
theorem returns_withdraw_of_lt (hfits : v.Computes (f.storage.sharesOf user) amount)
    (hlt : v.exactUnderlying v.bRate (f.storage.sharesOf user) < amount) :
    Returns (Vault.withdraw e pool asset user amount) f
      (v.exactUnderlying v.bRate (f.storage.sharesOf user),
        burnFor (v.exactUnderlying v.bRate (f.storage.sharesOf user)) v.bRate,
        f.storage.sharesOf user)
      (f.settled (v.burnt (burnFor (v.exactUnderlying v.bRate (f.storage.sharesOf user)) v.bRate)
        (f.storage.sharesOf user)) user (f.storage.sharesOf user-f.storage.sharesOf user)) := by
  have hworth := VaultData.exactUnderlying_nonneg h.shares_pos.le h.bTokens_pos.le h.rate_pos.le
    (f.storage.sharesOf user)
  have ha : 0 < amount := hworth.trans_lt hlt
  have hcost := VaultData.costs_of_fits h.rate_pos h.shares_pos h.bTokens_pos ha hfits.bTokens
    hfits.shares
  have hshort : f.storage.sharesOf user < v.sharesFor (burnFor amount v.bRate) := by
    rw [← not_le,VaultData.sharesFor_le_iff h.rate_pos h.shares_pos h.bTokens_pos ha]
    exact not_le.mpr hlt
  have hvalue := (hfits.value hlt).values h.rate_pos h.shares_pos h.bTokens_pos.le h.held_pos
  have hleB := (hvalue.bTokens_le h.rate_pos h.shares_pos).trans
    (quote_le_assets h.shares_pos h.bTokens_pos.le h.held_le)
  obtain ⟨hrel,hfit⟩ := h.ready.releases h.held_pos.le h.held_le le_rfl
    (ceilDiv_nonneg h.rate_pos (mul_nonneg hworth scalar12_pos.le)) hleB
  exact Vault.returns_withdraw.mpr
    ⟨v,_,_,_,rfl,h.refreshed,.clamped hcost hshort h.held_pos hvalue,hrel,hfit,rfl⟩

/-- A withdrawal burns the least number of shares whose quote covers the request; it falls back
on the whole holding exactly when the request is beyond its quote. -/
theorem withdraw_burns_least (ha : 0 < amount)
    (hfits : v.Computes (f.storage.sharesOf user) amount) :
    ∃ paid burnt s g, Returns (Vault.withdraw e pool asset user amount) f (paid,burnt,s) g ∧
      g = f.settled (v.burnt burnt s) user (f.storage.sharesOf user-s) ∧
      (amount ≤ v.exactUnderlying v.bRate (f.storage.sharesOf user) →
        paid = amount ∧ IsLeast {k | amount ≤ v.exactUnderlying v.bRate k} s ∧
          s ≤ f.storage.sharesOf user) ∧
      (v.exactUnderlying v.bRate (f.storage.sharesOf user) < amount →
        paid = v.exactUnderlying v.bRate (f.storage.sharesOf user) ∧ s = f.storage.sharesOf user) ∧
      (f.storage.sharesOf user < v.sharesFor (burnFor amount v.bRate) ↔
        v.exactUnderlying v.bRate (f.storage.sharesOf user) < amount) ∧
      ∀ err, ¬ Fails (Vault.withdraw e pool asset user amount) f err := by
  have hiff : v.sharesFor (burnFor amount v.bRate) ≤ f.storage.sharesOf user ↔
      amount ≤ v.exactUnderlying v.bRate (f.storage.sharesOf user) :=
    VaultData.sharesFor_le_iff h.rate_pos h.shares_pos h.bTokens_pos ha
  have hclamp := not_congr hiff
  rw [not_le,not_le] at hclamp
  by_cases hle : amount ≤ v.exactUnderlying v.bRate (f.storage.sharesOf user)
  · have hret := h.returns_withdraw_of_le ha hfits hle
    refine ⟨_,_,_,_,hret,rfl,fun _ => ⟨rfl,?_,hiff.mpr hle⟩,fun hlt => absurd hle (not_le.mpr hlt),hclamp,
      fun _ hf => hf.not_returns hret⟩
    exact VaultData.sharesFor_isLeast h.rate_pos h.shares_pos h.bTokens_pos ha
  · have hret := h.returns_withdraw_of_lt hfits (not_le.mp hle)
    exact ⟨_,_,_,_,hret,rfl,fun h' => absurd h' hle,fun _ => ⟨rfl,rfl⟩,hclamp,
      fun _ hf => hf.not_returns hret⟩

/-- The two ways out agree: withdrawing the quote of `k` shares is redeeming `k` shares, and
withdrawing more than the holding is quoted at is redeeming the holding. -/
theorem exits_agree (hserves : f.storage.Serves pool asset) :
    (v.totalShares ≤ v.totalBTokens → ∀ k, scalar12 ≤ v.bRate → 0 < k →
      k ≤ f.storage.sharesOf user → v.Valuable v.bRate k →
      ∃ assets burnt g, Returns (EntryPoints.convertToAssets e k) f assets f ∧
        Returns (Vault.withdraw e pool asset user assets) f (assets,burnt,k) g ∧
        Returns (Vault.redeem e pool asset user k) f (assets,burnt) g) ∧
    (0 < v.exactUnderlying v.bRate (f.storage.sharesOf user) → ∀ amount,
      v.exactUnderlying v.bRate (f.storage.sharesOf user) < amount →
      v.Computes (f.storage.sharesOf user) amount →
      ∃ assets burnt g, Returns (Vault.withdraw e pool asset user amount) f
          (assets,burnt,f.storage.sharesOf user) g ∧
        Returns (Vault.redeem e pool asset user (f.storage.sharesOf user)) f (assets,burnt) g) := by
  constructor
  · intro hSB k hr hk hle hfits
    have hworth := h.exactUnderlying_pos hr hSB hk
    obtain ⟨hcomputes,hmono⟩ := h.computes_exactUnderlying hr hSB hk hle hfits
    have hwithdraw := h.returns_withdraw_of_le hworth hcomputes hmono
    have hburn := h.burnFor_exactUnderlying hr hk
    have hredeem := h.ready.returns_redeem hk hle (hle.trans h.held_le) hfits hworth
    have hvalue := hfits.values h.rate_pos h.shares_pos h.bTokens_pos.le hk
    obtain ⟨d,hd,hu⟩ := hvalue.underlying
    rw [hburn,h.sharesFor_quote hSB] at hwithdraw
    rw [hburn] at hredeem
    refine ⟨_,_,_,?_,hwithdraw,hredeem⟩
    exact EntryPoints.returns_convertToAssets.mpr ⟨rfl,.inr
      ⟨hk,pool,asset,v,d,hserves.pool_eq,hserves.asset_eq,h.refreshed,hd,hu⟩⟩
  · intro hworth amount hlt hcomputes
    exact ⟨_,_,_,h.returns_withdraw_of_lt hcomputes hlt,
      h.ready.returns_redeem h.held_pos le_rfl h.held_le (hcomputes.value hlt) hworth⟩

end Holder
end Holder

section Sample
attribute [local instance] FixedPoint.documented

/-- Account 7 holds twenty of thirty shares in forty bTokens, at a rate of 1.1. -/
theorem referenceHolder : Holder (referenceEnv 1100000000000 0 1) 2 3 7
    (.fresh (referenceWorld ⟨0,scalar12,30,40⟩ [(7,20),(8,10)] 40).storage 40)
    ⟨0,1100000000000,30,40⟩ :=
  ⟨rfl,by decide,by decide,by decide,by decide,by decide,by decide⟩

/-- Five underlying cost the least holding that is quoted at five; a thousand are beyond the quote, and
the whole holding goes for the twenty-eight it is worth. -/
theorem withdraw_burns_least_sample : ∃ (f : Frame ℕ ℤ) (burnt s burnt' : ℤ) (g g' : Frame ℕ ℤ),
    Returns (Vault.withdraw (referenceEnv 1100000000000 0 1) 2 3 7 5) f (5,burnt,s) g ∧
      IsLeast {k | 5 ≤ VaultData.exactUnderlying ⟨0,1100000000000,30,40⟩ 1100000000000 k} s ∧
      s ≤ 20 ∧ g.storage.sharesOf 7 = 20-s ∧
      (∀ err, ¬ Fails (Vault.withdraw (referenceEnv 1100000000000 0 1) 2 3 7 5) f err) ∧
      Returns (Vault.withdraw (referenceEnv 1100000000000 0 1) 2 3 7 1000) f (28,burnt',20) g' ∧
      20 < VaultData.sharesFor ⟨0,1100000000000,30,40⟩ (burnFor 1000 1100000000000) := by
  obtain ⟨paid,burnt,s,g,hret,hg,hexact,-,-,hfails⟩ := referenceHolder.withdraw_burns_least
    (show (0 : ℤ) < 5 by decide) ⟨by decide,by decide,by decide⟩
  obtain ⟨rfl,hleast,hle⟩ := hexact (by decide)
  obtain ⟨paid',burnt',s',g',hret',-,-,hclamped,hiff,-⟩ := referenceHolder.withdraw_burns_least
    (show (0 : ℤ) < 1000 by decide) ⟨by decide,by decide,by decide⟩
  obtain ⟨rfl,rfl⟩ := hclamped (by decide)
  refine ⟨_,burnt,s,burnt',g,g',hret,hleast,hle,?_,hfails,hret',hiff.mpr (by decide)⟩
  rw [hg]
  exact (Storage.sharesOf_settled _ _ _ _ _).trans (if_pos rfl)

/-- Four shares go out the same either way, and so do all twenty. -/
theorem exits_agree_sample : ∃ (f : Frame ℕ ℤ) (a b a' b' : ℤ) (g g' : Frame ℕ ℤ),
    Returns (EntryPoints.convertToAssets (referenceEnv 1100000000000 0 1) 4) f a f ∧
      Returns (Vault.withdraw (referenceEnv 1100000000000 0 1) 2 3 7 a) f (a,b,4) g ∧
      Returns (Vault.redeem (referenceEnv 1100000000000 0 1) 2 3 7 4) f (a,b) g ∧
      Returns (Vault.withdraw (referenceEnv 1100000000000 0 1) 2 3 7 1000) f (a',b',20) g' ∧
      Returns (Vault.redeem (referenceEnv 1100000000000 0 1) 2 3 7 20) f (a',b') g' := by
  obtain ⟨hpart,hall⟩ := referenceHolder.exits_agree ⟨rfl,rfl⟩
  obtain ⟨a,b,g,hquote,hwithdraw,hredeem⟩ :=
    hpart (by decide) 4 (by decide) (by decide) (by decide) (by decide)
  obtain ⟨a',b',g',hwithdraw',hredeem'⟩ :=
    hall (by decide) 1000 (by decide) ⟨by decide,by decide,by decide⟩
  exact ⟨_,a,b,a',b',g,g',hquote,hwithdraw,hredeem,hwithdraw',hredeem'⟩

end Sample
end BlendVault
