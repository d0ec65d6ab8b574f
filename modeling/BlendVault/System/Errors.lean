import BlendVault.Foundations.Failures
import BlendVault.System.Mirror
import BlendVault.System.Permission
import BlendVault.System.Staying

/-! The errors a call can end in. Whatever has happened since the constructor, each entry point
fails in none but the ways listed for it: the reserves never fall short, the reserve is never
missing, and a withdrawal that would burn nothing is refused for its amount or its balance. -/
namespace BlendVault
open FailStop ProRata RoundedDivision

/-- The ways a call can fail. -/
def Call.failures {Address : Type} [DecidableEq Address] : Call Address → List Failure
  | .deposit _ _ _ _ => [.auth,.contract .invalidAmount,.callee,.trap,
      .contract .invalidBTokensMinted,.contract .invalidSharesMinted]
  | .withdraw _ _ _ _ => [.auth,.contract .invalidAmount,.callee,.trap,.contract .balanceError,
      .storage]
  | .redeem _ _ _ _ => [.auth,.contract .invalidSharesBurnt,.contract .balanceError,.storage,
      .callee,.trap,.contract .invalidBTokensBurnt]
  | .transfer from_ to_ _ => [.auth,.contract .invalidAmount,.contract .balanceError] ++
      if from_ = to_ then [.trap] else []
  | .transferFrom _ _ _ _ => [.auth,.contract .invalidAmount,.contract .balanceError,.trap,.storage]
  | .approve _ _ _ _ => [.auth,.storage]
  | .claimEmissions _ => [.contract .swapNotConfigured,.callee,.trap]
  | .setAdmin _ => [.auth]
  | .setSigner _ => [.auth]
  | .setRouter _ => [.auth]

namespace FailsWithin
variable {Address W α : Type} {E : List Failure} {f : Frame Address W}

/-- What a value is unwrapped from may be missing. -/
theorem unwrap_bind {β : Type} {o : Option α} {k : α → Contract Address W β}
    (hE : o = none → .trap ∈ E) (hk : ∀ a, o = some a → FailsWithin E (k a) f) :
    FailsWithin E (unwrap o >>= k) f :=
  .bind_of_read (fun _ _ => returns_unwrap.mp) (.ofOption hE) hk

/-- A figure that fits. -/
theorem checked_bind {x : ℤ} {k : ℤ → Contract Address W α} (hx : InI128 x)
    (hk : FailsWithin E (k x) f) : FailsWithin E (unwrap (checked x) >>= k) f := by
  have hsome : checked x = some x := checked_eq_some.mpr ⟨hx,rfl⟩
  rw [hsome]
  refine unwrap_bind (fun h => nomatch h) fun y hy => ?_
  rwa [← Option.some.inj hy]

theorem requirePositive_bind {amount : ℤ} {err : BlendVaultError}
    {k : Unit → Contract Address W α} (hE : ¬ 0 < amount → .contract err ∈ E)
    (hk : 0 < amount → FailsWithin E (k ()) f) :
    FailsWithin E (requirePositive amount err >>= k) f :=
  .bind_of_read (fun _ _ => returns_requirePositive.mp) (.require hE) fun _ => hk

/-- A check that stops with a contract error. -/
theorem guarded {c : Prop} [Decidable c] {err : BlendVaultError}
    {k : Contract Address W α} (hE : c → .contract err ∈ E) (hk : ¬ c → FailsWithin E k f) :
    FailsWithin E (if c then panicWithError err >>= fun _ : PUnit => k else k) f :=
  .ite (fun hc => .bind (.throw (hE hc)) fun _ _ hr => absurd hr returns_panicWithError) hk

theorem modify {g : Storage Address → Storage Address} :
    FailsWithin E (Storage.modify g) f := .update

section Settings
variable {a : Address} {k : Address → Contract Address W α}

/-- A setting that may be missing, -/
theorem setting_bind {g : Storage Address → Option Address}
    (hE : g f.storage = none → .trap ∈ E) (hk : ∀ a, g f.storage = some a → FailsWithin E (k a) f) :
    FailsWithin E ((observe (fun f => g f.storage) >>= unwrap) >>= k) f := by
  refine .bind_of_read (fun _ _ => returns_unwrap.mp) ?_ hk
  refine .bind .observe fun o t ho => .ofOption fun hnone => ?_
  rw [(returns_observe.mp ho).1] at hnone
  exact hE hnone

/-- and one that is not. -/
theorem setting_bind_of_some {g : Storage Address → Option Address} (h : g f.storage = some a)
    (hk : FailsWithin E (k a) f) :
    FailsWithin E ((observe (fun f => g f.storage) >>= unwrap) >>= k) f := by
  refine setting_bind (fun hnone => ?_) fun b hb => ?_
  · cases h.symm.trans hnone
  · cases h.symm.trans hb
    exact hk

theorem getPool_bind (h : f.storage.pool = some a) (hk : FailsWithin E (k a) f) :
    FailsWithin E (Storage.getPool >>= k) f := setting_bind_of_some h hk

theorem getAsset_bind (h : f.storage.asset = some a) (hk : FailsWithin E (k a) f) :
    FailsWithin E (Storage.getAsset >>= k) f := setting_bind_of_some h hk

theorem getAdmin_bind (h : f.storage.admin = some a) (hk : FailsWithin E (k a) f) :
    FailsWithin E (Storage.getAdmin >>= k) f := setting_bind_of_some h hk

theorem getBlndToken_bind (hE : .trap ∈ E) (hk : ∀ a, FailsWithin E (k a) f) :
    FailsWithin E (Storage.getBlndToken >>= k) f := setting_bind (fun _ => hE) fun a _ => hk a

end Settings

section Callees
variable {e : Env Address W} {pool asset : Address}

/-- A program that may change anything but the storage. -/
theorem bind_of_storage {β : Type} {m : Contract Address W β} {k : β → Contract Address W α}
    (hm : FailsWithin E m f) (hstorage : ∀ b g, Returns m f b g → g.storage = f.storage)
    (hk : ∀ b g, g.storage = f.storage → FailsWithin E (k b) g) : FailsWithin E (m >>= k) f :=
  .bind hm fun b g hr => hk b g (hstorage b g hr)

theorem submit {from_ spender to_ : Address} {request : Request Address} (hE : .callee ∈ E) :
    FailsWithin E (Pool.submit e pool from_ spender to_ request) f :=
  .bind .observe fun _ _ _ => .bind (.ofOption fun _ => hE) fun _ _ _ => .bind .update fun _ _ _ =>
    .pure

theorem supply_bind {from_ : Address} {amount : ℤ} {k : Unit → Contract Address W α}
    (hE : .callee ∈ E) (hk : ∀ g, g.storage = f.storage → FailsWithin E (k ()) g) :
    FailsWithin E (Pool.supply e pool asset from_ amount >>= k) f := by
  refine bind_of_storage (.bind (submit hE) fun _ _ _ => .update) ?_ fun _ => hk
  intro _ g hr
  simp only [Pool.supply,Pool.submit,Pool.record,bind_assoc,returns_observe_bind,
    returns_ofOption_bind,returns_update_bind,returns_pure_bind,returns_update] at hr
  obtain ⟨_,-,rfl⟩ := hr
  rfl

theorem poolWithdraw {to_ : Address} {amount : ℤ} (hE : .callee ∈ E) :
    FailsWithin E (Pool.withdraw e pool asset to_ amount) f :=
  .bind (submit hE) fun _ _ _ => .update

theorem claim_bind {ids : List ℕ} {to_ : Address} {k : ℤ → Contract Address W α}
    (hE : .callee ∈ E) (hk : ∀ n g, g.storage = f.storage → FailsWithin E (k n) g) :
    FailsWithin E (Pool.claim e pool ids to_ >>= k) f := by
  refine bind_of_storage (.bind .observe fun _ _ _ => .bind (.ofOption fun _ => hE) fun _ _ _ =>
    .bind .update fun _ _ _ => .pure) ?_ hk
  intro n g hr
  simp only [Pool.claim,returns_observe_bind,returns_ofOption_bind,returns_update_bind,
    returns_pure] at hr
  obtain ⟨_,-,-,rfl⟩ := hr
  rfl

theorem swap_bind {router blnd : Address} {amountIn amountOutMin : ℤ}
    {k : ℤ → Contract Address W α} (hE : .callee ∈ E) (htrap : .trap ∈ E)
    (hk : ∀ n g, g.storage = f.storage → FailsWithin E (k n) g) :
    FailsWithin E (Swap.swapBlndForAsset e router blnd asset amountIn amountOutMin >>= k) f := by
  refine bind_of_storage ?_ ?_ hk
  · exact unwrap_bind (fun _ => htrap) fun _ _ => .bind .observe fun _ _ _ =>
      .bind (.ofOption fun _ => hE) fun _ _ _ => unwrap_bind (fun _ => htrap) fun _ _ =>
      .bind (.ofOption fun _ => hE) fun _ _ _ => .bind .update fun _ _ _ => .ofOption fun _ => htrap
  · intro n g hr
    simp only [Swap.swapBlndForAsset,returns_unwrap_bind,returns_observe_bind,
      returns_ofOption_bind,returns_update_bind,returns_unwrap] at hr
    obtain ⟨_,_,_,_,_,_,_,_,_,rfl⟩ := hr
    rfl

theorem getReserve (hE : .callee ∈ E) : FailsWithin E (Pool.getReserve e pool asset) f :=
  .bind .observe fun _ _ _ => .ofOption fun _ => hE

theorem reserveSupplyTokenId_bind {k : ℕ → Contract Address W α} (hE : .callee ∈ E)
    (htrap : .trap ∈ E) (hk : ∀ n g, g.storage = f.storage → FailsWithin E (k n) g) :
    FailsWithin E (Pool.reserveSupplyTokenId e pool asset >>= k) f := by
  refine bind_of_storage (.bind (getReserve hE) fun _ _ _ => .ofOption fun _ => htrap) ?_ hk
  intro n g hr
  simp only [Pool.reserveSupplyTokenId,Pool.getReserve,bind_assoc,returns_observe_bind,
    returns_ofOption_bind,returns_unwrap] at hr
  obtain ⟨_,-,-,rfl⟩ := hr
  rfl

theorem vaultBTokenBalance {vault : Address} (hE : .callee ∈ E) :
    FailsWithin E (Pool.vaultBTokenBalance e pool asset vault) f :=
  .bind (getReserve hE) fun _ _ _ => .bind .observe fun _ _ _ => .bind (.ofOption fun _ => hE)
    fun _ _ _ => .pure

/-- The totals are there once the constructor has written them. -/
theorem getVaultUpdated_bind {v₀ : VaultData} {k : VaultData → Contract Address W α}
    (hv : f.storage.vaultData = some v₀) (hE : .callee ∈ E)
    (hk : ∀ v, e.refreshed pool asset f.ext f.storage = some v → FailsWithin E (k v) f) :
    FailsWithin E (Vault.getVaultUpdated e pool asset >>= k) f := by
  refine .bind_of_read (fun _ _ => Vault.returns_getVaultUpdated.mp) ?_ hk
  refine .bind ?_ fun _ _ _ => .bind (.bind (getReserve hE) fun _ _ _ => .pure) fun _ _ _ => .pure
  refine .bind .observe fun o t ho => .ofOption fun hnone => ?_
  rw [(returns_observe.mp ho).1,hv] at hnone
  cases hnone

end Callees

section Signed
variable [DecidableEq Address] {e : Env Address W}

theorem requireAuth_bind {a : Address} {k : Unit → Contract Address W α}
    (hauth : .auth ∈ E) (hk : FailsWithin E (k ()) {f with auths := f.auths ++ [a]}) :
    FailsWithin E (requireAuth e a >>= k) f := by
  refine .bind ?_ ?_
  · exact .bind .observe fun _ _ _ => .bind (.require fun _ => hauth) fun _ _ _ => .update
  · intro _ t ht
    obtain ⟨-,-,rfl⟩ := returns_requireAuth.mp ht
    exact hk

theorem setAllowance {from_ spender : Address} {amount : ℤ} {expirationLedger : ℕ}
    (hE : .storage ∈ E) :
    FailsWithin E (Storage.setAllowance e from_ spender amount expirationLedger) f := by
  intro err hf
  by_cases hk : e.KeepsTo expirationLedger
  · exact absurd (Storage.returns_setAllowance (u := ()) |>.mpr ⟨hk,rfl⟩) hf.not_returns
  · rw [hf.unique (Storage.setAllowance_fails hk)]
    exact hE

/-- Drawing on an allowance. -/
theorem spendOperatorAllowance {owner operator : Address} {n : ℤ}
    (hbalance : .contract .balanceError ∈ E) (htrap : .trap ∈ E) (hstorage : .storage ∈ E) :
    FailsWithin E (EntryPoints.spendOperatorAllowance e owner operator n) f :=
  .ite (fun _ => .pure) fun _ => .bind .observe fun _ _ _ => guarded (fun _ => hbalance) fun _ =>
    unwrap_bind (fun _ => htrap) fun _ _ => setAllowance hstorage

end Signed
end FailsWithin

/-- Totals as an exit finds them on orderly books, with what the owner holds of them. -/
structure VaultData.Intact (v : VaultData) (held : ℤ) : Prop where
  rate_pos : 0 < v.bRate
  backed : v.fund.Backed
  held_le : held ≤ v.totalShares

namespace VaultData.Intact
variable [FixedPoint] {v : VaultData} {held amount u b s : ℤ} (h : v.Intact held)
include h

/-- A request for something costs something in bTokens, -/
theorem bTokens_pos (ha : 0 < amount) (hb : v.underlyingToBTokensUp amount = some b) : 0 < b := by
  rw [((underlyingToBTokensUp_eq_some h.rate_pos).mp hb).2]
  exact ceilDiv_pos h.rate_pos (mul_pos ha scalar12_pos)

/-- and then in shares. -/
theorem shares_pos (hb : 0 < b) (hs : v.bTokensToSharesUp b = some s) : 0 < s := by
  by_cases h0 : v.totalShares = 0
  · rw [bTokensToSharesUp,if_pos (.inl h0)] at hs
    rwa [← Option.some.inj hs]
  · have hS : 0 < v.totalShares := lt_of_le_of_ne h.backed.1 (Ne.symm h0)
    have hB : 0 < v.totalBTokens := hS.trans_le h.backed.2
    rw [((bTokensToSharesUp_eq_some hS hB).mp hs).2]
    exact ceilDiv_pos hB (mul_pos hb hS)

/-- What the holding affords, the reserves cover. -/
theorem covers_cost (hs0 : 0 < s) (hs : v.bTokensToSharesUp b = some s) (hle : s ≤ held) :
    ¬ (v.totalShares < s ∨ v.totalBTokens < b) := by
  have hsS := hle.trans h.held_le
  have hS : 0 < v.totalShares := hs0.trans_le hsS
  have hB : 0 < v.totalBTokens := hS.trans_le h.backed.2
  have hprice : b*v.totalShares ≤ v.totalBTokens*v.totalShares := by
    calc
      b*v.totalShares ≤ s*v.totalBTokens := by
        rw [((bTokensToSharesUp_eq_some hS hB).mp hs).2]
        exact le_ceilDiv_mul _ hB
      _ ≤ v.totalShares*v.totalBTokens := mul_le_mul_of_nonneg_right hsS hB.le
      _ = v.totalBTokens*v.totalShares := mul_comm _ _
  have hb := le_of_mul_le_mul_right hprice hS
  omega

/-- What part of the holding is worth, they cover too. -/
theorem covers_value (hs0 : 0 < s) (hle : s ≤ held) (hvalue : v.Values s u b) :
    ¬ (v.totalShares < s ∨ v.totalBTokens < b) := by
  have hsS := hle.trans h.held_le
  have hS : 0 < v.totalShares := hs0.trans_le hsS
  have hb := (hvalue.bTokens_le h.rate_pos hS).trans
    (quote_le_assets hS (hS.le.trans h.backed.2) hsS)
  rw [fund_assets] at hb
  omega

end VaultData.Intact

namespace FailsWithin
variable {Address W : Type} [DecidableEq Address] [FixedPoint] {e : Env Address W}
  {pool asset user : Address} {f : Frame Address W} {amount shares : ℤ} {v₀ : VaultData}

omit [DecidableEq Address] in
theorem clampToBalance_bind {α : Type} {E : List Failure} {v : VaultData} {held : ℤ}
    {k : ℤ × ℤ × ℤ → Contract Address W α} (hE : .contract .balanceError ∈ E) (htrap : .trap ∈ E)
    (hk : ∀ u b, 0 < held → v.Values held u b → FailsWithin E (k (u,b,held)) f) :
    FailsWithin E (Vault.clampToBalance v held >>= k) f := by
  refine .bind ?_ fun p t hp => ?_
  · exact requirePositive_bind (fun _ => hE) fun _ => unwrap_bind (fun _ => htrap) fun _ _ =>
      unwrap_bind (fun _ => htrap) fun _ _ => unwrap_bind (fun _ => htrap) fun _ _ => .pure
  · obtain ⟨u,b,rfl,hpos,hvalue,rfl⟩ := Vault.returns_clampToBalance.mp hp
    exact hk u b hpos hvalue

section Bookkeeping
variable (hv₀ : f.storage.vaultData = some v₀)
include hv₀

omit hv₀ [FixedPoint] in
/-- Writing the figures of a withdrawal down. -/
theorem settle {α : Type} {E : List Failure} {S B held : ℤ} {v : ℤ → ℤ → VaultData} {a : α}
    (htrap : .trap ∈ E) : FailsWithin E (do
      let totalShares ← unwrap (checked S)
      let totalBTokens ← unwrap (checked B)
      let userShares ← unwrap (checked held)
      Storage.setVaultData (v totalShares totalBTokens)
      Storage.setVaultShares user userShares
      return a) f :=
  unwrap_bind (fun _ => htrap) fun _ _ => unwrap_bind (fun _ => htrap) fun _ _ =>
    unwrap_bind (fun _ => htrap) fun _ _ => .bind modify fun _ _ _ => .bind modify fun _ _ _ => .pure

theorem vaultDeposit : FailsWithin [.callee,.trap,.contract .invalidBTokensMinted,
    .contract .invalidSharesMinted] (Vault.deposit e pool asset user amount) f := by
  refine getVaultUpdated_bind hv₀ (by simp) fun v hv => .bind .observe fun userShares t ht => ?_
  refine unwrap_bind (by simp) fun b hb => requirePositive_bind (by simp) fun hb0 => ?_
  refine unwrap_bind (by simp) fun s hs => requirePositive_bind (by simp) fun hs0 => ?_
  refine unwrap_bind (by simp) fun totalShares _ => unwrap_bind (by simp) fun totalBTokens _ => ?_
  refine unwrap_bind (by simp) fun userShares _ => .bind modify fun _ _ _ => ?_
  exact .bind modify fun _ _ _ => .pure

variable (hbooks : ∀ v, e.refreshed pool asset f.ext f.storage = some v →
  v.Intact (f.storage.sharesOf user))
include hbooks

/-- A withdrawal fails for want of a balance alone. -/
theorem vaultWithdraw (ha : 0 < amount) : FailsWithin [.callee,.trap,.contract .balanceError]
    (Vault.withdraw e pool asset user amount) f := by
  refine getVaultUpdated_bind hv₀ (by simp) fun v hv => ?_
  have hintact := hbooks v hv
  refine .bind_of_read (fun _ _ => Storage.returns_getVaultShares.mp) .observe fun held hheld => ?_
  subst hheld
  refine unwrap_bind (by simp) fun b hb => ?_
  have hb0 := hintact.bTokens_pos ha hb
  refine requirePositive_bind (absurd hb0) fun _ => unwrap_bind (by simp) fun s hs => ?_
  have hs0 := hintact.shares_pos hb0 hs
  refine requirePositive_bind (absurd hs0) fun _ => .ite (fun hshort => ?_) fun henough => ?_
  · refine clampToBalance_bind (by simp) (by simp) fun u b hpos hvalue => ?_
    have hcovered := hintact.covers_value hpos le_rfl hvalue
    exact guarded (absurd · hcovered) fun _ => settle (by simp)
  · have hcovered := hintact.covers_cost hs0 hs (not_lt.mp henough)
    exact .bind .pure fun p t hp => by
      obtain ⟨rfl,rfl⟩ := returns_pure.mp hp
      exact guarded (absurd · hcovered) fun _ => settle (by simp)

/-- So does a redemption, or because the shares are worth nothing. -/
theorem vaultRedeem (h0 : 0 < shares) : FailsWithin [.callee,.trap,.contract .balanceError,
    .contract .invalidBTokensBurnt] (Vault.redeem e pool asset user shares) f := by
  refine getVaultUpdated_bind hv₀ (by simp) fun v hv => ?_
  have hintact := hbooks v hv
  refine .bind_of_read (fun _ _ => Storage.returns_getVaultShares.mp) .observe fun held hheld => ?_
  subst hheld
  refine requirePositive_bind (absurd h0) fun _ => guarded (by simp) fun henough => ?_
  refine unwrap_bind (by simp) fun d hd => unwrap_bind (by simp) fun u hu => ?_
  refine requirePositive_bind (by simp) fun _ => unwrap_bind (by simp) fun b hb => ?_
  have hcovered := hintact.covers_value h0 (not_lt.mp henough) ⟨⟨d,hd,hu⟩,hb⟩
  refine guarded (absurd · hcovered) fun _ => ?_
  refine unwrap_bind (by simp) fun totalShares _ => unwrap_bind (by simp) fun totalBTokens _ => ?_
  refine unwrap_bind (by simp) fun remaining _ => .bind modify fun _ _ _ => ?_
  exact .bind modify fun _ _ _ => .pure

end Bookkeeping
end FailsWithin

section Calls
variable {Address W : Type} [DecidableEq Address]

/-- What every call finds on a vault that has been deployed. -/
structure Standing (w : World Address W) : Prop where
  orderly : Orderly w
  shares_fit : ∀ v, w.storage.vaultData = some v → v.totalShares ≤ i128Max
  served : ∃ pool asset, w.storage.Serves pool asset
  administered : ∃ admin, w.storage.admin = some admin

/-- Between two accounts `i128` holds both balances after a transfer. -/
theorem Standing.transfer_fits {w : World Address W} {from_ to_ : Address} {amount : ℤ}
    (h : Standing w) (hne : from_ ≠ to_) (hnonneg : 0 ≤ amount)
    (henough : amount ≤ w.storage.sharesOf from_) :
    InI128 (w.storage.sharesOf from_-amount) ∧ InI128 (w.storage.sharesOf to_+amount) := by
  obtain ⟨v,hv,-⟩ := h.orderly.backed
  have hsum := h.orderly.sum_sharesOf_le hv {from_,to_}
  rw [Finset.sum_pair hne] at hsum
  have hfit := h.shares_fit v hv
  have hfrom := h.orderly.balanced.nonneg from_
  have hto := h.orderly.balanced.nonneg to_
  exact ⟨inI128_of_nonneg (by omega) (by omega),inI128_of_nonneg (by omega) (by omega)⟩

namespace FailsWithin
variable {e : Env Address W} {ext : W} {w : World Address W}

theorem transferFrom {spender from_ to_ : Address} {amount : ℤ} :
    FailsWithin (Call.transferFrom spender from_ to_ amount).failures
      (EntryPoints.transferFrom e spender from_ to_ amount) (.fresh w.storage ext) := by
  refine requireAuth_bind (by simp [Call.failures]) ?_
  refine requirePositive_bind (by simp [Call.failures]) fun hpos => .bind .observe fun p _ _ => ?_
  refine guarded (by simp [Call.failures]) fun _ => .bind .observe fun fromShares _ _ => ?_
  refine guarded (by simp [Call.failures]) fun _ => .bind .observe fun toShares _ _ => ?_
  refine unwrap_bind (by simp [Call.failures]) fun remaining _ => ?_
  refine .bind (setAllowance (by simp [Call.failures])) fun _ _ _ => ?_
  refine unwrap_bind (by simp [Call.failures]) fun _ _ => .bind modify fun _ _ _ => ?_
  exact unwrap_bind (by simp [Call.failures]) fun _ _ => .bind modify fun _ _ _ => .update

theorem approve {from_ spender : Address} {amount : ℤ} {expirationLedger : ℕ} :
    FailsWithin (Call.approve from_ spender amount expirationLedger).failures
      (EntryPoints.approve e from_ spender amount expirationLedger) (.fresh w.storage ext) := by
  refine requireAuth_bind (by simp [Call.failures]) ?_
  exact .bind (setAllowance (by simp [Call.failures])) fun _ _ _ => .update

variable (h : Standing w)
include h

/-- Between two accounts a transfer cannot overflow. -/
theorem transfer {from_ to_ : Address} {amount : ℤ} :
    FailsWithin (Call.transfer from_ to_ amount).failures
      (EntryPoints.transfer e from_ to_ amount) (.fresh w.storage ext) := by
  refine requireAuth_bind (by simp [Call.failures]) ?_
  refine requirePositive_bind (by simp [Call.failures]) fun hpos => ?_
  refine .bind_of_read (fun _ _ => Storage.returns_getVaultShares.mp) .observe fun held hheld => ?_
  subst hheld
  refine guarded (by simp [Call.failures]) fun henough => ?_
  refine .bind_of_read (fun _ _ => Storage.returns_getVaultShares.mp) .observe fun held hheld => ?_
  subst hheld
  by_cases hsame : from_ = to_
  · refine unwrap_bind (by simp [Call.failures,hsame]) fun _ _ => .bind modify fun _ _ _ => ?_
    refine unwrap_bind (by simp [Call.failures,hsame]) fun _ _ => .bind modify fun _ _ _ => ?_
    exact .update
  · change ¬ w.storage.sharesOf from_ < amount at henough
    obtain ⟨hdebit,hcredit⟩ := h.transfer_fits hsame hpos.le (not_lt.mp henough)
    refine checked_bind hdebit (.bind modify fun _ _ _ => ?_)
    exact checked_bind hcredit (.bind modify fun _ _ _ => .update)

theorem claimEmissions {amountOutMin : ℤ} :
    FailsWithin (.claimEmissions amountOutMin : Call Address).failures
      (EntryPoints.claimEmissions e amountOutMin) (.fresh w.storage ext) := by
  obtain ⟨v₀,hv₀,-⟩ := h.orderly.backed
  obtain ⟨pool,asset,hserves⟩ := h.served
  refine .bind_of_read (fun _ _ hr => ⟨trivial,(returns_pure.mp hr).2⟩) .pure fun _ _ => ?_
  refine getPool_bind hserves.pool_eq (getAsset_bind hserves.asset_eq ?_)
  refine getBlndToken_bind (by simp [Call.failures]) fun blnd => ?_
  refine .bind_of_read (fun _ _ => returns_observe.mp) .observe fun router _ => ?_
  refine .bind_of_read (fun _ _ => returns_ofOption.mp) (.ofOption (by simp [Call.failures])) ?_
  intro router _
  refine reserveSupplyTokenId_bind (by simp [Call.failures]) (by simp [Call.failures]) ?_
  intro id f hf
  refine claim_bind (by simp [Call.failures]) fun claimed g hg => .ite (fun _ => .pure) fun _ => ?_
  refine swap_bind (by simp [Call.failures]) (by simp [Call.failures]) fun received s hs => ?_
  refine supply_bind (by simp [Call.failures]) fun t ht => ?_
  have hvt : t.storage.vaultData = some v₀ := by rw [ht,hs,hg,hf,Frame.fresh,hv₀]
  refine getVaultUpdated_bind hvt (by simp [Call.failures]) fun v _ => ?_
  refine .bind (vaultBTokenBalance (by simp [Call.failures])) fun b _ _ => ?_
  exact .bind modify fun _ _ _ => .bind .update fun _ _ _ => .pure

theorem setAdmin {admin : Address} : FailsWithin (Call.setAdmin admin).failures
    (EntryPoints.setAdmin e admin) (.fresh w.storage ext) := by
  obtain ⟨old,hold⟩ := h.administered
  refine .bind_of_read (fun _ _ hr => ⟨trivial,(returns_pure.mp hr).2⟩) .pure fun _ _ => ?_
  refine getAdmin_bind hold (requireAuth_bind (by simp [Call.failures]) ?_)
  exact requireAuth_bind (by simp [Call.failures]) modify

theorem setSigner {signer : Option Address} : FailsWithin (Call.setSigner signer).failures
    (EntryPoints.setSigner e signer) (.fresh w.storage ext) := by
  obtain ⟨admin,hadmin⟩ := h.administered
  refine .bind_of_read (fun _ _ hr => ⟨trivial,(returns_pure.mp hr).2⟩) .pure fun _ _ => ?_
  cases signer with
  | none =>
    refine getAdmin_bind hadmin ?_
    exact requireAuth_bind (by simp [Call.failures]) modify
  | some signer =>
    refine getAdmin_bind hadmin ?_
    refine requireAuth_bind (by simp [Call.failures]) ?_
    exact requireAuth_bind (by simp [Call.failures]) modify

theorem setRouter {router : Address} : FailsWithin (Call.setRouter router).failures
    (EntryPoints.setRouter e router) (.fresh w.storage ext) := by
  obtain ⟨admin,hadmin⟩ := h.administered
  refine .bind_of_read (fun _ _ hr => ⟨trivial,(returns_pure.mp hr).2⟩) .pure fun _ _ => ?_
  refine getAdmin_bind hadmin ?_
  exact requireAuth_bind (by simp [Call.failures]) modify

end FailsWithin

variable [FixedPoint] {w₀ w w' : World Address W} {l : Label Address W}
  {ls : List (Label Address W)}

omit [FixedPoint] in
theorem Deployed.standing (h : Deployed w) : Standing w := by
  have horderly := h.orderly
  obtain ⟨e,admin,pool,asset,blndToken,found,auths,-,hcreate⟩ := h.created
  obtain ⟨r,-,-,hg⟩ := EntryPoints.returns_constructor.mp hcreate
  have hstorage : w.storage = _ := congrArg Frame.storage hg
  refine ⟨horderly,?_,⟨pool,asset,?_,?_⟩,admin,?_⟩
  · rintro v hv
    rw [hstorage] at hv
    cases hv
    exact i128Max_nonneg
  · rw [hstorage]
  · rw [hstorage]
  · rw [hstorage]

theorem FairStep.standing (h : FairStep w l w') (hw : Standing w) : Standing w' := by
  have hstep := h.sound.step
  obtain ⟨pool,asset,hserves⟩ := hw.served
  obtain ⟨hpool,hasset,-⟩ := l.call.configures_fixed w.storage.settings
  rw [← hstep.settings] at hpool hasset
  refine ⟨h.orderly hw.orderly,?_,⟨pool,asset,hpool.trans hserves.pool_eq,
    hasset.trans hserves.asset_eq⟩,hstep.keeps_admin hw.administered⟩
  intro v' hv'
  obtain ⟨v,hv,-⟩ := hw.orderly.backed
  cases hstep.accounts with
  | mint hm =>
    cases hv'.symm.trans hm.vaultData
    exact hm.shares_fit.2
  | burn hb =>
    cases hv'.symm.trans hb.vaultData
    exact hb.releases.shares_fit.2
  | compound hc =>
    cases hv'.symm.trans hc.vaultData
    exact (Env.refreshed_totalShares hc.rate hv).trans_le (hw.shares_fit v hv)
  | move hm => exact hw.shares_fit v' (hm.vaultData.symm.trans hv')
  | idle hi => exact hw.shares_fit v' (hi.vaultData.symm.trans hv')

theorem standing_of_run (h₀ : Deployed w₀) (hrun : Run FairStep w₀ ls w) : Standing w :=
  hrun.invariant Standing h₀.standing fun _ _ _ hstep hw => hstep.standing hw

omit [FixedPoint] in
/-- An exit finds the totals intact. -/
theorem Standing.intact (h : Standing w) {e : Env Address W} {pool asset : Address} {ext : W}
    (hserves : w.storage.Serves pool asset)
    (hrates : ∀ pool asset r, w.storage.Serves pool asset → e.bRate pool asset ext = some r → 0 < r)
    (user : Address) : ∀ v, e.refreshed pool asset ext w.storage = some v →
      v.Intact (w.storage.sharesOf user) := by
  intro v hv
  obtain ⟨v₀,hv₀,hrate,hv⟩ := Env.refreshed_eq_some.mp hv
  have hbacked := h.orderly.backed_of hv₀
  have hheld := h.orderly.sharesOf_le hv₀ user
  rw [hv]
  exact ⟨hrates _ _ _ hserves hrate,hbacked,hheld⟩

namespace FailsWithin
variable (h : Standing w) {e : Env Address W} {ext : W}
include h

theorem deposit {assets : ℤ} {receiver from_ operator : Address} :
    FailsWithin (Call.deposit assets receiver from_ operator).failures
      (EntryPoints.deposit e assets receiver from_ operator) (.fresh w.storage ext) := by
  obtain ⟨v₀,hv₀,-⟩ := h.orderly.backed
  obtain ⟨pool,asset,hserves⟩ := h.served
  refine .bind .pure fun _ f hf => ?_
  obtain ⟨-,rfl⟩ := returns_pure.mp hf
  refine requireAuth_bind (by simp [Call.failures]) ?_
  refine .bind_of_read (fun _ _ => returns_observe.mp) .observe fun signer _ => ?_
  -- with or without a signer, the rest is the same
  suffices hrest : ∀ f : Frame Address W, f.storage = w.storage → FailsWithin _ _ f by
    cases signer with
    | none => exact hrest _ rfl
    | some signer =>
      exact requireAuth_bind (by simp [Call.failures]) (hrest _ rfl)
  intro f hf
  refine requirePositive_bind (by simp [Call.failures]) fun _ => ?_
  refine getPool_bind (hf ▸ hserves.pool_eq) (getAsset_bind (hf ▸ hserves.asset_eq) ?_)
  refine supply_bind (by simp [Call.failures]) fun g hg => ?_
  have hv₀' : g.storage.vaultData = some v₀ := by rw [hg,hf,hv₀]
  refine .bind (.mono (vaultDeposit hv₀') (by simp [Call.failures])) fun p t _ => ?_
  exact .bind .update fun _ _ _ => .pure

theorem withdraw {assets : ℤ} {receiver owner operator : Address}
    (hrates : ∀ pool asset r, w.storage.Serves pool asset → e.bRate pool asset ext = some r → 0 < r) :
    FailsWithin (Call.withdraw assets receiver owner operator).failures
      (EntryPoints.withdraw e assets receiver owner operator) (.fresh w.storage ext) := by
  obtain ⟨v₀,hv₀,-⟩ := h.orderly.backed
  obtain ⟨pool,asset,hserves⟩ := h.served
  refine .bind_of_read (fun _ _ hr => ⟨trivial,(returns_pure.mp hr).2⟩) .pure fun _ _ => ?_
  refine requireAuth_bind (by simp [Call.failures]) ?_
  refine requirePositive_bind (by simp [Call.failures]) fun ha => ?_
  refine getPool_bind hserves.pool_eq (getAsset_bind hserves.asset_eq ?_)
  refine .bind (.mono (vaultWithdraw hv₀ (h.intact hserves hrates owner) ha)
    (by simp [Call.failures])) fun p t _ => ?_
  refine .bind (spendOperatorAllowance (by simp [Call.failures]) (by simp [Call.failures])
    (by simp [Call.failures])) fun _ _ _ => ?_
  refine .bind (poolWithdraw (by simp [Call.failures])) fun _ _ _ => ?_
  exact .bind .update fun _ _ _ => .pure

theorem redeem {shares : ℤ} {receiver owner operator : Address}
    (hrates : ∀ pool asset r, w.storage.Serves pool asset → e.bRate pool asset ext = some r → 0 < r) :
    FailsWithin (Call.redeem shares receiver owner operator).failures
      (EntryPoints.redeem e shares receiver owner operator) (.fresh w.storage ext) := by
  obtain ⟨v₀,hv₀,-⟩ := h.orderly.backed
  obtain ⟨pool,asset,hserves⟩ := h.served
  refine .bind_of_read (fun _ _ hr => ⟨trivial,(returns_pure.mp hr).2⟩) .pure fun _ _ => ?_
  refine requireAuth_bind (by simp [Call.failures]) ?_
  refine requirePositive_bind (by simp [Call.failures]) fun h0 => ?_
  refine .bind (spendOperatorAllowance (by simp [Call.failures]) (by simp [Call.failures])
    (by simp [Call.failures])) fun _ g hg => ?_
  -- drawing on the allowance leaves the books alone
  obtain ⟨t,ht,rfl⟩ := EntryPoints.returns_spendOperatorAllowance.mp hg
  refine getPool_bind (ht.pool.trans hserves.pool_eq) (getAsset_bind
    (ht.asset.trans hserves.asset_eq) ?_)
  have hintact : ∀ v, e.refreshed pool asset ext t = some v → v.Intact (t.sharesOf owner) := by
    rw [ht.refreshed,ht.sharesOf]
    exact h.intact hserves hrates owner
  refine .bind (.mono (vaultRedeem (ht.vaultData.trans hv₀) hintact h0) (by simp [Call.failures]))
    fun p t _ => ?_
  refine .bind (poolWithdraw (by simp [Call.failures])) fun _ _ _ => ?_
  exact .bind .update fun _ _ _ => .pure

end FailsWithin

/-- After any run, a call at a positive rate fails in none but the ways listed for it. -/
theorem failures_listed {e : Env Address W} {c : Call Address} {ext : W} {err : Failure}
    (h₀ : Deployed w₀) (hrun : Run FairStep w₀ ls w)
    (hrates : ∀ pool asset r, w.storage.Serves pool asset → e.bRate pool asset ext = some r → 0 < r)
    (hfails : Fails (exec e c) (.fresh w.storage ext) err) : err ∈ c.failures := by
  have hw := standing_of_run h₀ hrun
  refine (?_ : FailsWithin c.failures (exec e c) (.fresh w.storage ext)) err hfails
  cases c with
  | deposit assets receiver from_ operator => exact .map (FailsWithin.deposit hw)
  | withdraw assets receiver owner operator => exact .map (FailsWithin.withdraw hw hrates)
  | redeem shares receiver owner operator => exact .map (FailsWithin.redeem hw hrates)
  | transfer from_ to_ amount => exact .map (FailsWithin.transfer hw)
  | transferFrom spender from_ to_ amount => exact .map FailsWithin.transferFrom
  | approve from_ spender amount expirationLedger => exact .map FailsWithin.approve
  | claimEmissions amountOutMin => exact .map (FailsWithin.claimEmissions hw)
  | setAdmin admin => exact .map (FailsWithin.setAdmin hw)
  | setSigner signer => exact .map (FailsWithin.setSigner hw)
  | setRouter router => exact .map (FailsWithin.setRouter hw)

end Calls

section Sample
attribute [local instance] FixedPoint.documented

/-- Account 8 holds nothing and asks for some of what account 7 has left in. -/
theorem failures_listed_sample : ∃ w : World ℕ ℤ, w.storage.sharesOf 7 = 60 ∧
    Fails (exec (referenceEnv scalar12 0 3) (.withdraw 5 8 8 8)) (.fresh w.storage w.outside)
      (.contract .balanceError) ∧
    .contract .balanceError ∈ (Call.withdraw 5 8 8 8 : Call ℕ).failures := by
  obtain ⟨w₀,ls,w,-,-,h₀,hrun,-,hq⟩ := exists_fair_runs [((scalar12,0,1),.deposit 100 7 7 7),
      ((scalar12,0,2),.redeem 40 7 7 7)] [] (by simp [Call.Trades]) (by decide)
    (fun w _ _ => w.storage.sharesOf 7 = 60 ∧
      failure (exec (referenceEnv scalar12 0 3) (.withdraw 5 8 8 8)) (.fresh w.storage w.outside) =
        some (.contract .balanceError)) (by decide)
  obtain ⟨hheld,hfailure⟩ := of_decide_eq_true hq
  have hfails := failure_eq_some.mp hfailure
  have hrates : ∀ pool asset r, w.storage.Serves pool asset →
      (referenceEnv scalar12 0 3).bRate pool asset w.outside = some r → 0 < r := by
    intro pool asset r _ hr
    cases hr
    exact scalar12_pos
  exact ⟨w,hheld,hfails,failures_listed h₀ hrun hrates hfails⟩

end Sample
end BlendVault
