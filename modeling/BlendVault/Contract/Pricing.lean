import BlendVault.Contract.Vault

/-! The roundings of the three bookkeeping operations. Minting issues at most its share of the
bTokens; both ways of burning release at most theirs, and always what the pool will burn. -/
namespace BlendVault
open RoundedDivision ProRata

/-- `k` bTokens come back whole from the underlying they are worth at a bRate of `r`. -/
def RoundTrips (r k : ℤ) : Prop := ceilDiv (k*r/scalar12*scalar12) r = k

theorem roundTrips_of_scalar12_le {r : ℤ} (hr : scalar12 ≤ r) (k : ℤ) : RoundTrips r k :=
  ceil_floor_eq (scalar12_pos.trans_le hr) scalar12_pos hr k

namespace VaultData
variable [FixedPoint] {v : VaultData} {amount held u b s : ℤ}

section Mint

theorem Mints.bTokens_eq (h : v.Mints amount b s) (hr : 0 < v.bRate) :
    b = amount*scalar12/v.bRate := ((underlyingToBTokensDown_eq_some hr).mp h.bTokens).2

theorem Mints.shares_eq_of_empty (h : v.Mints amount b s)
    (h0 : v.totalShares = 0 ∨ v.totalBTokens = 0) : s = b :=
  (Option.some.inj ((bTokensToSharesDown_of_empty h0).symm.trans h.shares)).symm

theorem Mints.shares_eq (h : v.Mints amount b s) (hS : 0 < v.totalShares)
    (hB : 0 < v.totalBTokens) : s = b*v.totalShares/v.totalBTokens :=
  ((bTokensToSharesDown_eq_some hS hB).mp h.shares).2

theorem Mints.price (h : v.Mints amount b s) (hS : 0 < v.totalShares)
    (hB : 0 ≤ v.totalBTokens) : s*v.totalBTokens ≤ b*v.totalShares := by
  rcases hB.eq_or_lt with h0 | hB
  · have hb := mul_pos h.bTokens_pos hS
    rw [← h0,mul_zero]
    exact hb.le
  · rw [h.shares_eq hS hB]
    exact ediv_mul_le _ hB

theorem Mints.shares_le (h : v.Mints amount b s) (hv : v.fund.Backed) : s ≤ b := by
  have hb := h.bTokens_pos
  by_cases h0 : v.totalShares = 0 ∨ v.totalBTokens = 0
  · exact (h.shares_eq_of_empty h0).le
  · have hS : 0 < v.totalShares := lt_of_le_of_ne hv.1 fun h' => h0 (.inl h'.symm)
    have hB : 0 < v.totalBTokens := hS.trans_le hv.2
    rw [h.shares_eq hS hB]
    exact Int.ediv_le_of_le_mul hB (mul_le_mul_of_nonneg_left hv.2 hb.le)

end Mint

section Burn

theorem Costs.bTokens_eq (h : v.Costs amount b s) (hr : 0 < v.bRate) :
    b = ceilDiv (amount*scalar12) v.bRate := ((underlyingToBTokensUp_eq_some hr).mp h.bTokens).2

theorem Costs.shares_eq (h : v.Costs amount b s) (hS : 0 < v.totalShares)
    (hB : 0 < v.totalBTokens) : s = ceilDiv (b*v.totalShares) v.totalBTokens :=
  ((bTokensToSharesUp_eq_some hS hB).mp h.shares).2

theorem Costs.price (h : v.Costs amount b s) (hS : 0 < v.totalShares)
    (hB : 0 < v.totalBTokens) : b*v.totalShares ≤ s*v.totalBTokens := by
  rw [h.shares_eq hS hB]
  exact le_ceilDiv_mul _ hB

theorem Values.bTokens_eq (h : v.Values s u b) (hr : 0 < v.bRate) :
    b = ceilDiv (u*scalar12) v.bRate := ((underlyingToBTokensUp_eq_some hr).mp h.bTokens).2

theorem Values.underlying_eq (h : v.Values s u b) (hS : 0 < v.totalShares) :
    u = quote v.fund s*v.bRate/scalar12 := by
  obtain ⟨d,hd,hu⟩ := h.underlying
  rw [(bTokensToUnderlyingDown_eq_some.mp hu).2,((sharesToBTokensDown_eq_some hS).mp hd).2]

/-- Going down to underlying and up again, the burn is at most the bTokens quoted. -/
theorem Values.bTokens_le (h : v.Values s u b) (hr : 0 < v.bRate) (hS : 0 < v.totalShares) :
    b ≤ quote v.fund s := by
  rw [h.bTokens_eq hr,h.underlying_eq hS]
  exact ceil_floor_le hr scalar12_pos _

theorem Values.price (h : v.Values s u b) (hr : 0 < v.bRate) (hS : 0 < v.totalShares) :
    b*v.totalShares ≤ s*v.totalBTokens := by
  calc
    b*v.totalShares ≤ quote v.fund s*v.totalShares :=
      mul_le_mul_of_nonneg_right (h.bTokens_le hr hS) hS.le
    _ ≤ s*v.totalBTokens := ediv_mul_le _ hS

/-- The value of `n` shares can be computed when the two products it takes fit. -/
theorem values_of_fits {n : ℤ} (hr : 0 < v.bRate) (hS : 0 < v.totalShares)
    (hB : 0 ≤ v.totalBTokens) (hn : 0 ≤ n) (hshares : InI128 (n*v.totalBTokens))
    (hbTokens : InI128 (quote v.fund n*v.bRate)) :
    v.Values n (quote v.fund n*v.bRate/scalar12)
      (ceilDiv (quote v.fund n*v.bRate/scalar12*scalar12) v.bRate) := by
  have hd : 0 ≤ quote v.fund n := quote_nonneg hS.le hB hn
  have hu := ediv_nonneg_of_pos scalar12_pos (mul_nonneg hd hr.le)
  have hdown := ediv_mul_le (quote v.fund n*v.bRate) scalar12_pos
  refine ⟨⟨_,(sharesToBTokensDown_eq_some hS).mpr ⟨hshares,rfl⟩,
    bTokensToUnderlyingDown_eq_some.mpr ⟨hbTokens,rfl⟩⟩,?_⟩
  refine (underlyingToBTokensUp_eq_some hr).mpr ⟨?_,rfl⟩
  exact inI128_of_nonneg (mul_nonneg hu scalar12_pos.le) (hdown.trans hbTokens.2)

theorem Withdraws.bTokens_eq (h : v.Withdraws held amount u b s) (hr : 0 < v.bRate) :
    b = ceilDiv (u*scalar12) v.bRate := by
  cases h with
  | plain cost _ => exact cost.bTokens_eq hr
  | clamped _ _ _ value => exact value.bTokens_eq hr

theorem Withdraws.price (h : v.Withdraws held amount u b s) (hr : 0 < v.bRate)
    (hS : 0 < v.totalShares) (hb : b ≤ v.totalBTokens) :
    b*v.totalShares ≤ s*v.totalBTokens := by
  cases h with
  | plain cost _ => exact cost.price hS (cost.bTokens_pos.trans_le hb)
  | clamped _ _ _ value => exact value.price hr hS

end Burn

section Par
variable (hpar : v.totalShares = v.totalBTokens)
include hpar

theorem Mints.shares_eq_bTokens (h : v.Mints amount b s) (hS : 0 ≤ v.totalShares) : s = b := by
  rcases hS.eq_or_lt with h0 | hS
  · exact h.shares_eq_of_empty (.inl h0.symm)
  · rw [h.shares_eq hS (hpar ▸ hS),← hpar,Int.mul_ediv_cancel _ hS.ne']

theorem Costs.shares_eq_bTokens (h : v.Costs amount b s) (hS : 0 < v.totalShares) : s = b := by
  rw [h.shares_eq hS (hpar ▸ hS),← hpar,ceilDiv_mul_cancel _ hS.ne']

theorem Values.underlying_eq_of_par (h : v.Values s u b) (hS : 0 < v.totalShares) :
    u = s*v.bRate/scalar12 := by
  rw [h.underlying_eq hS,quote,v.fund_units,v.fund_assets,← hpar,Int.mul_ediv_cancel _ hS.ne']

theorem Values.bTokens_eq_shares (h : v.Values s u b) (hr : 0 < v.bRate)
    (hS : 0 < v.totalShares) (hs : RoundTrips v.bRate s) : b = s := by
  rw [h.bTokens_eq hr,h.underlying_eq_of_par hpar hS]
  exact hs

end Par

omit [FixedPoint] in
/-- Totals that fit cover what is at most theirs. -/
theorem releases_of_le (hs : 0 ≤ s) (hsS : s ≤ v.totalShares) (hb : 0 ≤ b)
    (hbB : b ≤ v.totalBTokens) (hS : v.totalShares ≤ i128Max) (hB : v.totalBTokens ≤ i128Max) :
    v.Releases b s :=
  ⟨hsS,hbB,inI128_of_nonneg (by omega) (by omega),inI128_of_nonneg (by omega) (by omega)⟩

section Quote
omit [FixedPoint]

/-- The bTokens `shares` are quoted at, computed without overflow. -/
def exactBTokens (v : VaultData) (shares : ℤ) : ℤ :=
  if shares > 0 then if v.totalShares = 0 then shares else shares*v.totalBTokens/v.totalShares
  else 0

/-- The underlying `shares` are quoted at for a bRate of `r`, computed without overflow. -/
def exactUnderlying (v : VaultData) (r shares : ℤ) : ℤ := v.exactBTokens shares*r/scalar12

theorem exactBTokens_eq_quote {shares : ℤ} (h0 : 0 < shares) (hS : 0 < v.totalShares) :
    v.exactBTokens shares = quote v.fund shares := by
  rw [exactBTokens,if_pos h0,if_neg hS.ne']
  rfl

/-- All the shares are quoted at all the bTokens. -/
theorem exactBTokens_totalShares (hS : 0 < v.totalShares) :
    v.exactBTokens v.totalShares = v.totalBTokens := by
  rw [exactBTokens_eq_quote hS hS]
  exact Int.mul_ediv_cancel_left _ hS.ne'

theorem exactBTokens_of_nonpos {shares : ℤ} (h0 : shares ≤ 0) : v.exactBTokens shares = 0 :=
  if_neg (not_lt.mpr h0)

theorem exactBTokens_nonneg {v : VaultData} (hS : 0 ≤ v.totalShares) (hB : 0 ≤ v.totalBTokens)
    (shares : ℤ) : 0 ≤ v.exactBTokens shares := by
  unfold exactBTokens
  split
  · rename_i h0
    split
    · exact h0.le
    · exact Int.ediv_nonneg (mul_nonneg h0.le hB) hS
  · exact le_rfl

theorem exactUnderlying_nonneg {v : VaultData} {r : ℤ} (hS : 0 ≤ v.totalShares)
    (hB : 0 ≤ v.totalBTokens) (hr : 0 ≤ r) (shares : ℤ) : 0 ≤ v.exactUnderlying r shares :=
  ediv_nonneg_of_pos scalar12_pos (mul_nonneg (exactBTokens_nonneg hS hB shares) hr)

/-- A holding that does not shrink is quoted no lower once the price has not fallen. -/
theorem exactBTokens_mono {v v' : VaultData} {x y : ℤ} (hS : 0 < v.totalShares)
    (hS' : 0 < v'.totalShares) (hB' : 0 ≤ v'.totalBTokens)
    (hprice : v.fund.PriceLe v'.fund) (hxy : x ≤ y) : v.exactBTokens x ≤ v'.exactBTokens y := by
  by_cases hx : 0 < x
  · have hy : 0 < y := hx.trans_le hxy
    rw [exactBTokens_eq_quote hx hS,exactBTokens_eq_quote hy hS']
    apply (quote_mono hS hS' hprice hx.le).trans
    exact Int.ediv_le_ediv hS' (mul_le_mul_of_nonneg_right hxy hB')
  · rw [exactBTokens_of_nonpos (not_lt.mp hx)]
    exact exactBTokens_nonneg hS'.le hB' y

theorem exactUnderlying_mono {v v' : VaultData} {r x y : ℤ} (hr : 0 < r)
    (h : v.exactBTokens x ≤ v'.exactBTokens y) : v.exactUnderlying r x ≤ v'.exactUnderlying r y :=
  Int.ediv_le_ediv scalar12_pos (mul_le_mul_of_nonneg_right h hr.le)

end Quote

end VaultData
end BlendVault
