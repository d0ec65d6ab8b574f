import BlendVault.Contract.FixedPoint
import BlendVault.Foundations.ProRata

/-! The vault's totals and the six conversions between underlying, bTokens and shares. -/
namespace BlendVault
open RoundedDivision ProRata

structure VaultData where
  /-- The timestamp of the last update. -/
  lastUpdateTimestamp : ℕ
  /-- The reserve's last bRate. -/
  bRate : ℤ
  /-- The total shares issued by the reserve vault. -/
  totalShares : ℤ
  /-- The total bToken deposits owned by the reserve vault depositors. -/
  totalBTokens : ℤ
  deriving Repr, DecidableEq

namespace VaultData

section Conversions
variable [FixedPoint] (self : VaultData) (amount : ℤ)

def bTokensToSharesDown : Option ℤ :=
  if self.totalShares = 0 ∨ self.totalBTokens = 0 then some amount
  else FixedPoint.fixedMulFloor amount self.totalShares self.totalBTokens

def bTokensToSharesUp : Option ℤ :=
  if self.totalShares = 0 ∨ self.totalBTokens = 0 then some amount
  else FixedPoint.fixedMulCeil amount self.totalShares self.totalBTokens

/-- An empty vault mints shares 1:1 with bTokens, so it quotes the rate a first deposit
would get. -/
def sharesToBTokensDown : Option ℤ :=
  if self.totalShares = 0 then some amount
  else FixedPoint.fixedDivFloor amount self.totalShares self.totalBTokens

def bTokensToUnderlyingDown : Option ℤ :=
  FixedPoint.fixedMulFloor amount self.bRate scalar12

def underlyingToBTokensDown : Option ℤ :=
  FixedPoint.fixedDivFloor amount self.bRate scalar12

def underlyingToBTokensUp : Option ℤ :=
  FixedPoint.fixedDivCeil amount self.bRate scalar12

end Conversions

/-- The totals as a pro-rata fund: shares issued against bTokens. -/
def fund (v : VaultData) : Fund ℤ := ⟨v.totalShares,v.totalBTokens⟩

@[simp] theorem fund_units (v : VaultData) : v.fund.units = v.totalShares := rfl
@[simp] theorem fund_assets (v : VaultData) : v.fund.assets = v.totalBTokens := rfl

/-- The totals after `b` bTokens and `s` shares have been added. -/
def minted (v : VaultData) (b s : ℤ) : VaultData :=
  {v with totalShares := v.totalShares+s, totalBTokens := v.totalBTokens+b}

/-- The totals after `b` bTokens and `s` shares have been taken away. -/
def burnt (v : VaultData) (b s : ℤ) : VaultData :=
  {v with totalShares := v.totalShares-s, totalBTokens := v.totalBTokens-b}

section Totals
variable (v : VaultData) (b s : ℤ)

@[simp] theorem minted_totalShares : (v.minted b s).totalShares = v.totalShares+s := rfl
@[simp] theorem minted_totalBTokens : (v.minted b s).totalBTokens = v.totalBTokens+b := rfl
@[simp] theorem minted_bRate : (v.minted b s).bRate = v.bRate := rfl
@[simp] theorem burnt_totalShares : (v.burnt b s).totalShares = v.totalShares-s := rfl
@[simp] theorem burnt_totalBTokens : (v.burnt b s).totalBTokens = v.totalBTokens-b := rfl
@[simp] theorem burnt_bRate : (v.burnt b s).bRate = v.bRate := rfl

theorem fund_minted : (v.minted b s).fund = v.fund.issue s b := rfl
theorem fund_burnt : (v.burnt b s).fund = v.fund.cancel s b := rfl

end Totals

section Exact
variable [FixedPoint] {v : VaultData} {x y : ℤ}

theorem bTokensToSharesDown_of_empty (h : v.totalShares = 0 ∨ v.totalBTokens = 0) :
    v.bTokensToSharesDown x = some x := if_pos h

theorem bTokensToSharesDown_eq_some (hS : 0 < v.totalShares) (hB : 0 < v.totalBTokens) :
    v.bTokensToSharesDown x = some y ↔
      InI128 (x*v.totalShares) ∧ y = x*v.totalShares/v.totalBTokens := by
  rw [bTokensToSharesDown,if_neg (by omega),FixedPoint.fixedMulFloor_eq_some hB]

theorem bTokensToSharesUp_eq_some (hS : 0 < v.totalShares) (hB : 0 < v.totalBTokens) :
    v.bTokensToSharesUp x = some y ↔
      InI128 (x*v.totalShares) ∧ y = ceilDiv (x*v.totalShares) v.totalBTokens := by
  rw [bTokensToSharesUp,if_neg (by omega),FixedPoint.fixedMulCeil_eq_some hB]

theorem sharesToBTokensDown_eq_some (hS : 0 < v.totalShares) :
    v.sharesToBTokensDown x = some y ↔ InI128 (x*v.totalBTokens) ∧ y = quote v.fund x := by
  rw [sharesToBTokensDown,if_neg hS.ne',FixedPoint.fixedDivFloor_eq_some hS]
  rfl

theorem bTokensToUnderlyingDown_eq_some :
    v.bTokensToUnderlyingDown x = some y ↔ InI128 (x*v.bRate) ∧ y = x*v.bRate/scalar12 :=
  FixedPoint.fixedMulFloor_eq_some scalar12_pos

theorem underlyingToBTokensDown_eq_some (hr : 0 < v.bRate) :
    v.underlyingToBTokensDown x = some y ↔ InI128 (x*scalar12) ∧ y = x*scalar12/v.bRate :=
  FixedPoint.fixedDivFloor_eq_some hr

theorem underlyingToBTokensUp_eq_some (hr : 0 < v.bRate) :
    v.underlyingToBTokensUp x = some y ↔
      InI128 (x*scalar12) ∧ y = ceilDiv (x*scalar12) v.bRate :=
  FixedPoint.fixedDivCeil_eq_some hr

end Exact

end VaultData
end BlendVault
