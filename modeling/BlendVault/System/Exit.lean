import BlendVault.System.Backing

/-! Everybody leaving, one after another. Each exit keeps the price for those who stay, so
none of them is ever turned away and none is paid less than the quote it started with. -/
namespace BlendVault
open FailStop RoundedDivision ProRata

section Exit
variable {Address W : Type}

/-- A holder's turn to redeem everything, and the call it does so in. -/
structure Turn (Address W : Type) where
  holder : Address
  receiver : Address
  env : Env Address W
  rate : ℤ

variable [DecidableEq Address] [FixedPoint]

/-- The state between two turns: the price has not fallen since the start, and those whose
turn is still to come hold what they held. -/
structure Waiting (v₀ : VaultData) (pool asset : Address) (able : W → ℤ → Prop)
    (held : Address → ℤ) (s : Storage Address) (ext : W) (ts : List (Turn Address W))
    (v : VaultData) : Prop where
  able : able ext v.totalBTokens
  serves : s.Serves pool asset
  vaultData : s.vaultData = some v
  backed : v.fund.Backed
  bTokens_le : v.totalBTokens ≤ i64Max
  price : v₀.fund.PriceLe v.fund
  shares_le : (ts.map fun t => held t.holder).sum ≤ v.totalShares
  sharesOf : ∀ t ∈ ts, s.sharesOf t.holder = held t.holder

variable {v₀ v : VaultData} {pool asset : Address} {able : W → ℤ → Prop}
  {held : Address → ℤ} {s : Storage Address} {ext : W} {t : Turn Address W}
  {ts : List (Turn Address W)} {r : ℤ}

omit [FixedPoint] in
/-- Burning all the shares of a turn at no more than their price keeps the others waiting. -/
theorem Waiting.burn {v₁ : VaultData} {b : ℤ} {ext' : W}
    (h : Waiting v₀ pool asset able held s ext (t :: ts) v)
    (hS₀ : 0 < v₀.totalShares) (hk : held t.holder ≤ v.totalShares) (hpos : 0 < held t.holder)
    (hb₀ : 0 ≤ b) (hb : b ≤ v.totalBTokens)
    (hprice : b*v.totalShares ≤ held t.holder*v.totalBTokens) (hfund : v₁.fund = v.fund)
    (hable : able ext' (v.totalBTokens-b)) (hfresh : ∀ t' ∈ ts, t'.holder ≠ t.holder) :
    Waiting v₀ pool asset able held (s.settled (v₁.burnt b (s.sharesOf t.holder)) t.holder
      (s.sharesOf t.holder-s.sharesOf t.holder)) ext' ts (v₁.burnt b (held t.holder)) := by
  have hheld : s.sharesOf t.holder = held t.holder := h.sharesOf t List.mem_cons_self
  have hS : 0 < v.totalShares := hpos.trans_le hk
  have hnew : (v₁.burnt b (held t.holder)).fund = v.fund.cancel (held t.holder) b := by
    rw [VaultData.fund_burnt,hfund]
  have hbTokens : (v₁.burnt b (held t.holder)).totalBTokens = v.totalBTokens-b :=
    congrArg Fund.assets hnew
  have hbacked := h.backed.cancel hpos.le hk hb hprice
  refine ⟨?_,⟨h.serves.pool_eq,h.serves.asset_eq⟩,?_,?_,?_,?_,?_,?_⟩
  · rw [hbTokens]
    exact hable
  · rw [hheld]
    rfl
  · rw [hnew]
    exact hbacked
  · have hmax := h.bTokens_le
    omega
  · rw [hnew]
    exact h.price.trans hS₀.le hS hbacked.1 (v.fund.priceLe_cancel hprice)
  · have hsum := h.shares_le
    have hle := congrArg Fund.units hnew
    change (v₁.burnt b (held t.holder)).totalShares = v.totalShares-held t.holder at hle
    rw [List.map_cons,List.sum_cons] at hsum
    omega
  · intro t' ht'
    rw [Storage.sharesOf_settled,if_neg (hfresh t' ht')]
    exact h.sharesOf t' (List.mem_cons_of_mem _ ht')

omit [FixedPoint] in
/-- Those still to come hold no less than nothing, so the next of them holds at most all there is. -/
theorem Waiting.held_le (h : Waiting v₀ pool asset able held s ext (t :: ts) v)
    (hothers : ∀ t' ∈ ts, 0 ≤ held t'.holder) : held t.holder ≤ v.totalShares := by
  have hsum := h.shares_le
  have hrest : 0 ≤ (ts.map fun t' => held t'.holder).sum := by
    apply List.sum_nonneg
    simpa using hothers
  rw [List.map_cons,List.sum_cons] at hsum
  omega

omit [FixedPoint] in
/-- At a price and a rate that have not fallen, the quote has not fallen. -/
theorem Waiting.quote_le {r' n : ℤ} (h : Waiting v₀ pool asset able held s ext ts v)
    (hS₀ : 0 < v₀.totalShares) (hS : 0 < v.totalShares) (hr : 0 < r) (hle : r ≤ r') (hn : 0 < n)
    (hq : 0 ≤ quote v.fund n) : v₀.exactUnderlying r n ≤ quote v.fund n*r'/scalar12 := by
  rw [VaultData.exactUnderlying,VaultData.exactBTokens_eq_quote hn hS₀]
  apply Int.ediv_le_ediv scalar12_pos
  calc
    quote v₀.fund n*r ≤ quote v.fund n*r :=
      mul_le_mul_of_nonneg_right (quote_mono hS₀ hS h.price hn.le) hr.le
    _ ≤ quote v.fund n*r' := mul_le_mul_of_nonneg_left hle hq

end Exit

section Sample
attribute [local instance] FixedPoint.documented

end Sample
end BlendVault
