import BlendVault.Contract.Pool

/-! The vault's bookkeeping. None of it performs the call to the pool that moves the tokens. -/
namespace BlendVault
open FailStop Storage

namespace Vault
variable {Address W : Type} [FixedPoint]

/-- Updates the reserve's bRate. -/
def updateRate (e : Env Address W) (pool asset : Address) (self : VaultData) :
    Contract Address W VaultData := do
  let bRate ← Pool.reserveBRate e pool asset
  return {self with lastUpdateTimestamp := e.timestamp, bRate}

/-- Get the reserve vault from storage and update the bRate. -/
def getVaultUpdated (e : Env Address W) (pool asset : Address) :
    Contract Address W VaultData := do
  let vault ← getVaultData
  updateRate e pool asset vault

variable [DecidableEq Address]

/-- Deposit into the vault: the bTokens minted to the vault and the shares minted to `user`. -/
def deposit (e : Env Address W) (pool asset user : Address) (amount : ℤ) :
    Contract Address W (ℤ × ℤ) := do
  let vault ← getVaultUpdated e pool asset
  let userShares ← getVaultShares user
  let bTokensAmount ← unwrap (vault.underlyingToBTokensDown amount)
  requirePositive bTokensAmount .invalidBTokensMinted
  let shareAmount ← unwrap (vault.bTokensToSharesDown bTokensAmount)
  requirePositive shareAmount .invalidSharesMinted
  let totalShares ← unwrap (checked (vault.totalShares+shareAmount))
  let totalBTokens ← unwrap (checked (vault.totalBTokens+bTokensAmount))
  let userShares ← unwrap (checked (userShares+shareAmount))
  setVaultData {vault with totalShares, totalBTokens}
  setVaultShares user userShares
  return (bTokensAmount,shareAmount)

/-- The input amount is too high: burn all shares if the user has shares to burn. bTokens and
underlying are rounded down to prevent excess withdrawal amounts; the pool will round up the
bTokens burnt based on the underlying amount withdrawn. -/
def clampToBalance (vault : VaultData) (userShares : ℤ) : Contract Address W (ℤ × ℤ × ℤ) := do
  requirePositive userShares .balanceError
  let shareAmount := userShares
  let bTokensDown ← unwrap (vault.sharesToBTokensDown shareAmount)
  let underlyingAmount ← unwrap (vault.bTokensToUnderlyingDown bTokensDown)
  let bTokensAmount ← unwrap (vault.underlyingToBTokensUp underlyingAmount)
  return (underlyingAmount,bTokensAmount,shareAmount)

/-- Withdraw from the vault: the underlying to withdraw from the pool, the bTokens burned
from the vault, and the shares burned from the user. -/
def withdraw (e : Env Address W) (pool asset user : Address) (amount : ℤ) :
    Contract Address W (ℤ × ℤ × ℤ) := do
  let vault ← getVaultUpdated e pool asset
  let userShares ← getVaultShares user
  let bTokensAmount ← unwrap (vault.underlyingToBTokensUp amount)
  requirePositive bTokensAmount .invalidBTokensBurnt
  let shareAmount ← unwrap (vault.bTokensToSharesUp bTokensAmount)
  requirePositive shareAmount .invalidSharesBurnt
  let (underlyingAmount,bTokensAmount,shareAmount) ←
    if shareAmount > userShares then clampToBalance vault userShares
    else pure (amount,bTokensAmount,shareAmount)
  if vault.totalShares < shareAmount ∨ vault.totalBTokens < bTokensAmount then
    panicWithError .insufficientReserves
  let totalShares ← unwrap (checked (vault.totalShares-shareAmount))
  let totalBTokens ← unwrap (checked (vault.totalBTokens-bTokensAmount))
  let userShares ← unwrap (checked (userShares-shareAmount))
  setVaultData {vault with totalShares, totalBTokens}
  setVaultShares user userShares
  return (underlyingAmount,bTokensAmount,shareAmount)

/-- Redeem an exact share amount from the vault: the underlying to withdraw from the pool and
the bTokens burned from the vault. Unlike `withdraw`, an over-large request is an error. -/
def redeem (e : Env Address W) (pool asset user : Address) (shares : ℤ) :
    Contract Address W (ℤ × ℤ) := do
  let vault ← getVaultUpdated e pool asset
  let userShares ← getVaultShares user
  requirePositive shares .invalidSharesBurnt
  if shares > userShares then
    panicWithError .balanceError
  let bTokensDown ← unwrap (vault.sharesToBTokensDown shares)
  let underlyingAmount ← unwrap (vault.bTokensToUnderlyingDown bTokensDown)
  requirePositive underlyingAmount .invalidBTokensBurnt
  -- the pool rounds the bTokens it burns up from the underlying requested, so the vault's own
  -- accounting has to use the same figure
  let bTokensAmount ← unwrap (vault.underlyingToBTokensUp underlyingAmount)
  if vault.totalShares < shares ∨ vault.totalBTokens < bTokensAmount then
    panicWithError .insufficientReserves
  let totalShares ← unwrap (checked (vault.totalShares-shares))
  let totalBTokens ← unwrap (checked (vault.totalBTokens-bTokensAmount))
  let remaining ← unwrap (checked (userShares-shares))
  setVaultShares user remaining
  setVaultData {vault with totalShares, totalBTokens}
  return (underlyingAmount,bTokensAmount)

end Vault

/-- The stored totals with the bRate the reserve reports at `ext`. -/
def Env.refreshed {Address W : Type} (e : Env Address W) (pool asset : Address) (ext : W)
    (s : Storage Address) : Option VaultData := do
  let vault ← s.vaultData
  let bRate ← e.bRate pool asset ext
  return {vault with lastUpdateTimestamp := e.timestamp, bRate}

/-- The storage once new totals and one user's new balance have been written. -/
def Storage.settled {Address : Type} [DecidableEq Address] (s : Storage Address)
    (vault : VaultData) (user : Address) (shares : ℤ) : Storage Address :=
  (s.withVaultData vault).withShares user shares

def Frame.settled {Address W : Type} [DecidableEq Address] (f : Frame Address W)
    (vault : VaultData) (user : Address) (shares : ℤ) : Frame Address W :=
  {f with storage := f.storage.settled vault user shares}

theorem Env.refreshed_eq_some {Address W : Type} {e : Env Address W} {pool asset : Address}
    {ext : W} {s : Storage Address} {v : VaultData} :
    e.refreshed pool asset ext s = some v ↔
      ∃ w, s.vaultData = some w ∧ e.bRate pool asset ext = some v.bRate ∧
        v = {w with lastUpdateTimestamp := e.timestamp, bRate := v.bRate} := by
  simp only [refreshed,Option.bind_eq_bind,Option.bind_eq_some_iff,Option.pure_def,
    Option.some.injEq]
  constructor
  · rintro ⟨w,hw,r,hr,hv⟩
    subst hv
    exact ⟨w,hw,hr,rfl⟩
  · rintro ⟨w,hw,hr,hv⟩
    exact ⟨w,hw,v.bRate,hr,hv.symm⟩

theorem Env.refreshed_of_rate {Address W : Type} {e : Env Address W} {pool asset : Address}
    {ext : W} {s : Storage Address} {v : VaultData} {r : ℤ} (hv : s.vaultData = some v)
    (hr : e.bRate pool asset ext = some r) :
    e.refreshed pool asset ext s = some {v with lastUpdateTimestamp := e.timestamp, bRate := r} :=
  Env.refreshed_eq_some.mpr ⟨v,hv,hr,rfl⟩

namespace VaultData
variable [FixedPoint]

/-- A deposit of `amount` mints `b` bTokens and `s` shares. -/
structure Mints (v : VaultData) (amount b s : ℤ) : Prop where
  bTokens : v.underlyingToBTokensDown amount = some b
  bTokens_pos : 0 < b
  shares : v.bTokensToSharesDown b = some s
  shares_pos : 0 < s

/-- A request for `amount` costs `b` bTokens and `s` shares. -/
structure Costs (v : VaultData) (amount b s : ℤ) : Prop where
  bTokens : v.underlyingToBTokensUp amount = some b
  bTokens_pos : 0 < b
  shares : v.bTokensToSharesUp b = some s
  shares_pos : 0 < s

/-- `s` shares are worth `u` underlying, for which the pool burns `b` bTokens. -/
structure Values (v : VaultData) (s u b : ℤ) : Prop where
  underlying : ∃ d, v.sharesToBTokensDown s = some d ∧ v.bTokensToUnderlyingDown d = some u
  bTokens : v.underlyingToBTokensUp u = some b

/-- Out of `held` shares, a request for `amount` pays `u` and burns `b` bTokens and `s` shares. -/
inductive Withdraws (v : VaultData) (held amount : ℤ) : ℤ → ℤ → ℤ → Prop
  | plain {b s : ℤ} (cost : v.Costs amount b s) (enough : s ≤ held) :
      Withdraws v held amount amount b s
  | clamped {b₀ s₀ u b : ℤ} (cost : v.Costs amount b₀ s₀) (short : held < s₀)
      (held_pos : 0 < held) (value : v.Values held u b) : Withdraws v held amount u b held

/-- The totals can give up `b` bTokens and `s` shares, and `i128` holds what is left. -/
structure Releases (v : VaultData) (b s : ℤ) : Prop where
  shares_le : s ≤ v.totalShares
  bTokens_le : b ≤ v.totalBTokens
  shares_fit : InI128 (v.totalShares-s)
  bTokens_fit : InI128 (v.totalBTokens-b)

end VaultData

namespace Vault
variable {Address W : Type} {e : Env Address W} {pool asset user : Address}
  {f g : Frame Address W}

theorem returns_getVaultUpdated {v : VaultData} :
    Returns (getVaultUpdated e pool asset) f v g ↔
      e.refreshed pool asset f.ext f.storage = some v ∧ g = f := by
  simp only [getVaultUpdated,updateRate,Env.refreshed,returns_bind,returns_getVaultData,
    Pool.returns_reserveBRate,returns_pure,Option.bind_eq_bind,Option.bind_eq_some_iff,
    Option.pure_def,Option.some.injEq]
  constructor
  · rintro ⟨w,_,⟨hw,rfl⟩,r,_,⟨hr,rfl⟩,rfl,rfl⟩
    exact ⟨⟨w,hw,r,hr,rfl⟩,rfl⟩
  · rintro ⟨⟨w,hw,r,hr,rfl⟩,rfl⟩
    exact ⟨w,_,⟨hw,rfl⟩,r,_,⟨hr,rfl⟩,rfl,rfl⟩

@[simp high] theorem returns_getVaultUpdated_bind {α : Type} {k : VaultData → Contract Address W α}
    {a : α} :
    Returns (getVaultUpdated e pool asset >>= k) f a g ↔
      ∃ v, e.refreshed pool asset f.ext f.storage = some v ∧ Returns (k v) f a g :=
  returns_bind_of_read fun _ _ => returns_getVaultUpdated

variable [FixedPoint]

theorem returns_clampToBalance {vault : VaultData} {held : ℤ} {p : ℤ × ℤ × ℤ} :
    Returns (clampToBalance vault held) f p g ↔
      ∃ u b, p = (u,b,held) ∧ 0 < held ∧ vault.Values held u b ∧ g = f := by
  simp only [clampToBalance,returns_requirePositive_bind,returns_unwrap_bind,returns_pure]
  constructor
  · rintro ⟨h0,d,hd,u,hu,b,hb,hp,hg⟩
    exact ⟨u,b,hp,h0,⟨⟨d,hd,hu⟩,hb⟩,hg⟩
  · rintro ⟨u,b,hp,h0,⟨⟨d,hd,hu⟩,hb⟩,hg⟩
    exact ⟨h0,d,hd,u,hu,b,hb,hp,hg⟩

theorem returns_clampToBalance_bind {α : Type} {vault : VaultData} {held : ℤ}
    {k : ℤ × ℤ × ℤ → Contract Address W α} {a : α} :
    Returns (clampToBalance vault held >>= k) f a g ↔
      ∃ u b, 0 < held ∧ vault.Values held u b ∧ Returns (k (u,b,held)) f a g := by
  simp only [returns_bind,returns_clampToBalance]
  constructor
  · rintro ⟨_,_,⟨u,b,rfl,h0,hval,rfl⟩,hk⟩
    exact ⟨u,b,h0,hval,hk⟩
  · rintro ⟨u,b,h0,hval,hk⟩
    exact ⟨_,f,⟨u,b,rfl,h0,hval,rfl⟩,hk⟩

variable [DecidableEq Address]

theorem returns_deposit {amount : ℤ} {p : ℤ × ℤ} :
    Returns (deposit e pool asset user amount) f p g ↔
      ∃ v b s, p = (b,s) ∧ e.refreshed pool asset f.ext f.storage = some v ∧
        v.Mints amount b s ∧ InI128 (v.totalShares+s) ∧ InI128 (v.totalBTokens+b) ∧
        InI128 (f.storage.sharesOf user+s) ∧
        g = f.settled (v.minted b s) user (f.storage.sharesOf user+s) := by
  simp only [deposit,returns_getVaultUpdated_bind,getVaultShares,returns_observe_bind,
    returns_unwrap_bind,returns_requirePositive_bind,checked_eq_some,setVaultData,setVaultShares,
    returns_modify_bind,returns_pure]
  constructor
  · rintro ⟨v,hv,b,hb,hb0,s,hs,hs0,_,⟨hS,rfl⟩,_,⟨hB,rfl⟩,_,⟨hU,rfl⟩,hp,hg⟩
    exact ⟨v,b,s,hp,hv,⟨hb,hb0,hs,hs0⟩,hS,hB,hU,hg⟩
  · rintro ⟨v,b,s,hp,hv,⟨hb,hb0,hs,hs0⟩,hS,hB,hU,hg⟩
    exact ⟨v,hv,b,hb,hb0,s,hs,hs0,_,⟨hS,rfl⟩,_,⟨hB,rfl⟩,_,⟨hU,rfl⟩,hp,hg⟩

theorem returns_withdraw {amount : ℤ} {p : ℤ × ℤ × ℤ} :
    Returns (withdraw e pool asset user amount) f p g ↔
      ∃ v u b s, p = (u,b,s) ∧ e.refreshed pool asset f.ext f.storage = some v ∧
        v.Withdraws (f.storage.sharesOf user) amount u b s ∧ v.Releases b s ∧
        InI128 (f.storage.sharesOf user-s) ∧
        g = f.settled (v.burnt b s) user (f.storage.sharesOf user-s) := by
  simp only [withdraw,returns_getVaultUpdated_bind,getVaultShares,returns_observe_bind,
    returns_unwrap_bind,returns_requirePositive_bind,setVaultData,setVaultShares,returns_ite,
    returns_clampToBalance_bind,returns_pure_bind,returns_pure,returns_panicWithError_bind,
    checked_eq_some,returns_modify_bind,and_false,false_or,not_or,not_lt]
  constructor
  · rintro ⟨v,hv,b₀,hb,hb0,s₀,hs,hs0,
      ⟨hshort,u,b,hheld,hval,⟨hS,hB⟩,_,⟨hS',rfl⟩,_,⟨hB',rfl⟩,_,⟨hU,rfl⟩,hp,hg⟩ |
      ⟨henough,⟨hS,hB⟩,_,⟨hS',rfl⟩,_,⟨hB',rfl⟩,_,⟨hU,rfl⟩,hp,hg⟩⟩
    · exact ⟨v,u,b,_,hp,hv,.clamped ⟨hb,hb0,hs,hs0⟩ hshort hheld hval,⟨hS,hB,hS',hB'⟩,hU,hg⟩
    · exact ⟨v,amount,b₀,s₀,hp,hv,.plain ⟨hb,hb0,hs,hs0⟩ henough,⟨hS,hB,hS',hB'⟩,hU,hg⟩
  · rintro ⟨v,u,b,s,hp,hv,⟨⟨hb,hb0,hs,hs0⟩,henough⟩ | ⟨⟨hb,hb0,hs,hs0⟩,hshort,hheld,hval⟩,
      ⟨hS,hB,hS',hB'⟩,hU,hg⟩
    · exact ⟨v,hv,b,hb,hb0,s,hs,hs0,.inr ⟨henough,⟨hS,hB⟩,_,⟨hS',rfl⟩,_,⟨hB',rfl⟩,_,⟨hU,rfl⟩,hp,hg⟩⟩
    · exact ⟨v,hv,_,hb,hb0,_,hs,hs0,
        .inl ⟨hshort,u,b,hheld,hval,⟨hS,hB⟩,_,⟨hS',rfl⟩,_,⟨hB',rfl⟩,_,⟨hU,rfl⟩,hp,hg⟩⟩

theorem returns_redeem {shares : ℤ} {p : ℤ × ℤ} :
    Returns (redeem e pool asset user shares) f p g ↔
      ∃ v u b, p = (u,b) ∧ e.refreshed pool asset f.ext f.storage = some v ∧ 0 < shares ∧
        shares ≤ f.storage.sharesOf user ∧ v.Values shares u b ∧ 0 < u ∧ v.Releases b shares ∧
        InI128 (f.storage.sharesOf user-shares) ∧
        g = f.settled (v.burnt b shares) user (f.storage.sharesOf user-shares) := by
  simp only [redeem,returns_getVaultUpdated_bind,getVaultShares,returns_observe_bind,
    returns_unwrap_bind,returns_requirePositive_bind,setVaultData,setVaultShares,returns_ite,
    returns_pure,returns_panicWithError_bind,checked_eq_some,returns_modify_bind,and_false,
    false_or,not_or,not_lt]
  constructor
  · rintro ⟨v,hv,h0,hheld,d,hd,u,hu,hu0,b,hb,⟨hS,hB⟩,_,⟨hS',rfl⟩,_,⟨hB',rfl⟩,_,⟨hU,rfl⟩,hp,hg⟩
    exact ⟨v,u,b,hp,hv,h0,hheld,⟨⟨d,hd,hu⟩,hb⟩,hu0,⟨hS,hB,hS',hB'⟩,hU,hg⟩
  · rintro ⟨v,u,b,hp,hv,h0,hheld,⟨⟨d,hd,hu⟩,hb⟩,hu0,⟨hS,hB,hS',hB'⟩,hU,hg⟩
    exact ⟨v,hv,h0,hheld,d,hd,u,hu,hu0,b,hb,⟨hS,hB⟩,_,⟨hS',rfl⟩,_,⟨hB',rfl⟩,_,⟨hU,rfl⟩,hp,hg⟩

section Fails
variable {v : VaultData} {shares d u : ℤ} (hv : e.refreshed pool asset f.ext f.storage = some v)
  (h0 : 0 < shares) (hle : shares ≤ f.storage.sharesOf user)
include hv h0 hle

/-- Redeeming shares that are worth nothing is an error. -/
theorem redeem_fails_of_worthless (hd : v.sharesToBTokensDown shares = some d)
    (hu : v.bTokensToUnderlyingDown d = some u) (hu0 : ¬ 0 < u) :
    Fails (redeem e pool asset user shares) f (.contract .invalidBTokensBurnt) := by
  unfold redeem
  rw [fails_bind_of_returns (returns_getVaultUpdated.mpr ⟨hv,rfl⟩),
    fails_bind_of_returns (returns_getVaultShares.mpr ⟨rfl,rfl⟩),
    fails_bind_of_returns (returns_requirePositive (u := ()) |>.mpr ⟨h0,rfl⟩),if_neg (not_lt.mpr hle),
    fails_bind_of_returns (returns_unwrap.mpr ⟨hd,rfl⟩),
    fails_bind_of_returns (returns_unwrap.mpr ⟨hu,rfl⟩)]
  exact Fails.require_bind hu0

/-- Valuing the shares traps when one of the two products does not fit. -/
theorem redeem_fails_of_overflow
    (hnone : v.sharesToBTokensDown shares = none ∨
      ∃ d, v.sharesToBTokensDown shares = some d ∧ v.bTokensToUnderlyingDown d = none) :
    Fails (redeem e pool asset user shares) f .trap := by
  unfold redeem
  rw [fails_bind_of_returns (returns_getVaultUpdated.mpr ⟨hv,rfl⟩),
    fails_bind_of_returns (returns_getVaultShares.mpr ⟨rfl,rfl⟩),
    fails_bind_of_returns (returns_requirePositive (u := ()) |>.mpr ⟨h0,rfl⟩),if_neg (not_lt.mpr hle)]
  rcases hnone with hd | ⟨d,hd,hu⟩
  · exact Fails.ofOption_bind hd
  · rw [fails_bind_of_returns (returns_unwrap.mpr ⟨hd,rfl⟩)]
    exact Fails.ofOption_bind hu

end Fails

section Bind
variable {α : Type} {a : α} {amount : ℤ}

theorem returns_deposit_bind {k : ℤ × ℤ → Contract Address W α} :
    Returns (deposit e pool asset user amount >>= k) f a g ↔
      ∃ v b s, e.refreshed pool asset f.ext f.storage = some v ∧ v.Mints amount b s ∧
        InI128 (v.totalShares+s) ∧ InI128 (v.totalBTokens+b) ∧
        InI128 (f.storage.sharesOf user+s) ∧
        Returns (k (b,s)) (f.settled (v.minted b s) user (f.storage.sharesOf user+s)) a g := by
  simp only [returns_bind,returns_deposit]
  constructor
  · rintro ⟨_,_,⟨v,b,s,rfl,hv,hm,hS,hB,hU,rfl⟩,hk⟩
    exact ⟨v,b,s,hv,hm,hS,hB,hU,hk⟩
  · rintro ⟨v,b,s,hv,hm,hS,hB,hU,hk⟩
    exact ⟨_,_,⟨v,b,s,rfl,hv,hm,hS,hB,hU,rfl⟩,hk⟩

theorem returns_withdraw_bind {k : ℤ × ℤ × ℤ → Contract Address W α} :
    Returns (withdraw e pool asset user amount >>= k) f a g ↔
      ∃ v u b s, e.refreshed pool asset f.ext f.storage = some v ∧
        v.Withdraws (f.storage.sharesOf user) amount u b s ∧ v.Releases b s ∧
        InI128 (f.storage.sharesOf user-s) ∧
        Returns (k (u,b,s)) (f.settled (v.burnt b s) user (f.storage.sharesOf user-s)) a g := by
  simp only [returns_bind,returns_withdraw]
  constructor
  · rintro ⟨_,_,⟨v,u,b,s,rfl,hv,hw,hR,hU,rfl⟩,hk⟩
    exact ⟨v,u,b,s,hv,hw,hR,hU,hk⟩
  · rintro ⟨v,u,b,s,hv,hw,hR,hU,hk⟩
    exact ⟨_,_,⟨v,u,b,s,rfl,hv,hw,hR,hU,rfl⟩,hk⟩

theorem returns_redeem_bind {k : ℤ × ℤ → Contract Address W α} :
    Returns (redeem e pool asset user amount >>= k) f a g ↔
      ∃ v u b, e.refreshed pool asset f.ext f.storage = some v ∧ 0 < amount ∧
        amount ≤ f.storage.sharesOf user ∧ v.Values amount u b ∧ 0 < u ∧ v.Releases b amount ∧
        InI128 (f.storage.sharesOf user-amount) ∧
        Returns (k (u,b)) (f.settled (v.burnt b amount) user (f.storage.sharesOf user-amount)) a
          g := by
  simp only [returns_bind,returns_redeem]
  constructor
  · rintro ⟨_,_,⟨v,u,b,rfl,hv,h0,hle,hval,hu,hR,hU,rfl⟩,hk⟩
    exact ⟨v,u,b,hv,h0,hle,hval,hu,hR,hU,hk⟩
  · rintro ⟨v,u,b,hv,h0,hle,hval,hu,hR,hU,hk⟩
    exact ⟨_,_,⟨v,u,b,rfl,hv,h0,hle,hval,hu,hR,hU,rfl⟩,hk⟩

end Bind
end Vault
end BlendVault
