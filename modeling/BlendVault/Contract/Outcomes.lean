import BlendVault.Contract.EntryPoints

/-! What each entry point leaves behind when it returns. -/
namespace BlendVault
open FailStop

/-- The host lets the requests of the list through one after another, after those `done`. -/
def Env.Grants {Address W : Type} (e : Env Address W) (done : List Address) :
    List Address → Prop
  | [] => True
  | a :: as => (a ∈ done → e.again a = true) ∧ e.signed a = true ∧ e.Grants (done ++ [a]) as

namespace Storage
variable {Address W : Type} [DecidableEq Address] {e : Env Address W} {s t : Storage Address}
  {owner spender : Address} {n : ℤ}

/-- The allowance readable at `e`'s ledger covers `n`, and what remains can be stored. -/
structure Covers (s : Storage Address) (e : Env Address W) (owner spender : Address) (n : ℤ) :
    Prop where
  enough : n ≤ (s.allowanceAt e owner spender).1
  fits : InI128 ((s.allowanceAt e owner spender).1-n)
  keeps : e.KeepsTo (s.allowanceAt e owner spender).2

/-- The storage once `n` has been taken off an allowance. -/
def spent (s : Storage Address) (e : Env Address W) (owner spender : Address) (n : ℤ) :
    Storage Address :=
  s.withAllowance e owner spender ((s.allowanceAt e owner spender).1-n)
    (s.allowanceAt e owner spender).2

/-- The owner spends freely; anybody else spends an allowance. -/
inductive Delegates (s : Storage Address) (e : Env Address W) (owner operator : Address) (n : ℤ) :
    Storage Address → Prop
  | self (same : owner = operator) : Delegates s e owner operator n s
  | allowance (other : owner ≠ operator) (covers : s.Covers e owner operator n) :
      Delegates s e owner operator n (s.spent e owner operator n)

/-- A delegation does not look at the totals and balances, nor change them. -/
theorem Delegates.settled (h : s.Delegates e owner spender n t) (v : VaultData) (user : Address)
    (k : ℤ) : (s.settled v user k).Delegates e owner spender n (t.settled v user k) := by
  cases h with
  | self same => exact .self same
  | allowance other covers => exact .allowance other ⟨covers.1,covers.2,covers.3⟩

theorem Delegates.of_settled {v : VaultData} {user : Address} {k : ℤ}
    (h : (s.settled v user k).Delegates e owner spender n t) :
    ∃ s', s.Delegates e owner spender n s' ∧ t = s'.settled v user k := by
  cases h with
  | self same => exact ⟨s,.self same,rfl⟩
  | allowance other covers =>
    exact ⟨s.spent e owner spender n,.allowance other ⟨covers.1,covers.2,covers.3⟩,rfl⟩

/-- The storage after a transfer: both balances are read first, then both are written. -/
def moved (s : Storage Address) (from_ to_ : Address) (amount : ℤ) : Storage Address :=
  (s.withShares from_ (s.sharesOf from_-amount)).withShares to_ (s.sharesOf to_+amount)

/-- A transfer the balances allow. -/
structure Moves (s : Storage Address) (from_ to_ : Address) (amount : ℤ) : Prop where
  amount_pos : 0 < amount
  enough : amount ≤ s.sharesOf from_
  debit_fits : InI128 (s.sharesOf from_-amount)
  credit_fits : InI128 (s.sharesOf to_+amount)

/-- What a delegation leaves alone: everything but the allowances. -/
theorem Delegates.frame (h : s.Delegates e owner spender n t) :
    t = {s with allowances := t.allowances} := by
  cases h <;> rfl

section Frame
variable (h : s.Delegates e owner spender n t)
include h

theorem Delegates.pool : t.pool = s.pool := by rw [h.frame]
theorem Delegates.asset : t.asset = s.asset := by rw [h.frame]
theorem Delegates.vaultData : t.vaultData = s.vaultData := by rw [h.frame]
theorem Delegates.shares : t.shares = s.shares := by rw [h.frame]

theorem Delegates.sharesOf (user : Address) : t.sharesOf user = s.sharesOf user := by
  rw [h.frame]
  rfl

theorem Delegates.refreshed (pool asset : Address) (ext : W) :
    e.refreshed pool asset ext t = e.refreshed pool asset ext s := by
  rw [h.frame]
  rfl

end Frame

end Storage

namespace EntryPoints
variable {Address W : Type} [DecidableEq Address] {e : Env Address W} {f g : Frame Address W}
  {u : Unit}

theorem returns_spendOperatorAllowance {owner operator : Address} {shares : ℤ} :
    Returns (spendOperatorAllowance e owner operator shares) f u g ↔
      ∃ s, f.storage.Delegates e owner operator shares s ∧ g = {f with storage := s} := by
  by_cases h : owner = operator
  · simp only [spendOperatorAllowance,h,if_true,returns_pure,true_and]
    constructor
    · intro hg; exact ⟨_,.self rfl,hg⟩
    · intro h
      obtain ⟨s,hs | ⟨hne,_⟩,hg⟩ := h
      · exact hg
      · exact absurd rfl hne
  · simp only [spendOperatorAllowance,h,if_false,Storage.getAllowanceWithExpiration,
      returns_observe_bind,returns_ite,returns_panicWithError_bind,and_false,false_or,not_lt,
      returns_unwrap_bind,checked_eq_some,Storage.returns_setAllowance]
    constructor
    · intro h
      obtain ⟨hle,_,⟨hfit,rfl⟩,hkeep,hg⟩ := h
      exact ⟨_,.allowance h ⟨hle,hfit,hkeep⟩,hg⟩
    · intro h
      obtain ⟨s,same | ⟨_,covers⟩,hg⟩ := h
      · exact absurd same h
      · exact ⟨covers.enough,_,⟨covers.fits,rfl⟩,covers.keeps,hg⟩

theorem returns_spendOperatorAllowance_bind {α : Type} {owner operator : Address} {shares : ℤ}
    {k : Unit → Contract Address W α} {a : α} :
    Returns (spendOperatorAllowance e owner operator shares >>= k) f a g ↔
      ∃ s, f.storage.Delegates e owner operator shares s ∧
        Returns (k ()) {f with storage := s} a g := by
  simp only [returns_bind,returns_spendOperatorAllowance]
  constructor
  · intro h
    obtain ⟨_,_,⟨s,hs,rfl⟩,hk⟩ := h
    exact ⟨s,hs,hk⟩
  · intro h
    obtain ⟨s,hs,hk⟩ := h
    exact ⟨(),_,⟨s,hs,rfl⟩,hk⟩

theorem returns_constructor {admin pool asset blndToken : Address} :
    Returns (constructor e admin pool asset blndToken) f u g ↔
      ∃ r, e.Grants f.auths [admin] ∧ e.bRate pool asset f.ext = some r ∧
        g = {f with
          auths := f.auths ++ [admin]
          storage := {f.storage with
            admin := some admin, pool := some pool, asset := some asset
            blndToken := some blndToken, vaultData := some ⟨e.timestamp,r,0,0⟩}} := by
  simp only [constructor,returns_requireAuth_bind,Storage.setAdmin,Storage.setPool,
    Storage.setAsset,Storage.setBlndToken,Storage.setVaultData,Storage.returns_modify_bind,
    Pool.returns_reserveBRate_bind,Storage.returns_modify,Env.Grants,and_true]
  constructor
  · intro h
    obtain ⟨hfresh,hsigned,r,hr,hg⟩ := h
    exact ⟨r,⟨hfresh,hsigned⟩,hr,hg⟩
  · intro h
    obtain ⟨r,⟨hfresh,hsigned⟩,hr,hg⟩ := h
    exact ⟨hfresh,hsigned,r,hr,hg⟩

section Token
variable {from_ to_ spender : Address} {amount : ℤ}

theorem returns_approve {expirationLedger : ℕ} :
    Returns (approve e from_ spender amount expirationLedger) f u g ↔
      e.Grants f.auths [from_] ∧ e.KeepsTo expirationLedger ∧
        g = {f with
          auths := f.auths ++ [from_]
          storage := f.storage.withAllowance e from_ spender amount expirationLedger
          events := f.events ++ [.approve from_ spender amount expirationLedger]} := by
  simp only [approve,returns_requireAuth_bind,Storage.returns_setAllowance_bind,returns_publish,
    Env.Grants,and_true,and_assoc]

theorem returns_transfer :
    Returns (transfer e from_ to_ amount) f u g ↔
      e.Grants f.auths [from_] ∧ f.storage.Moves from_ to_ amount ∧
        g = {f with
          auths := f.auths ++ [from_]
          storage := f.storage.moved from_ to_ amount
          events := f.events ++ [.transfer from_ to_ amount]} := by
  simp only [transfer,returns_requireAuth_bind,returns_requirePositive_bind,
    Storage.getVaultShares,returns_observe_bind,returns_ite,returns_panicWithError_bind,and_false,
    false_or,not_lt,returns_unwrap_bind,checked_eq_some,Storage.setVaultShares,
    Storage.returns_modify_bind,returns_publish,Env.Grants,and_true]
  constructor
  · intro h
    obtain ⟨hfresh,hsigned,h0,hle,_,⟨hd,rfl⟩,_,⟨hc,rfl⟩,hg⟩ := h
    exact ⟨⟨hfresh,hsigned⟩,⟨h0,hle,hd,hc⟩,hg⟩
  · intro h
    obtain ⟨⟨hfresh,hsigned⟩,⟨h0,hle,hd,hc⟩,hg⟩ := h
    exact ⟨hfresh,hsigned,h0,hle,_,⟨hd,rfl⟩,_,⟨hc,rfl⟩,hg⟩

theorem returns_transferFrom :
    Returns (transferFrom e spender from_ to_ amount) f u g ↔
      e.Grants f.auths [spender] ∧ f.storage.Covers e from_ spender amount ∧
        f.storage.Moves from_ to_ amount ∧
        g = {f with
          auths := f.auths ++ [spender]
          storage := (f.storage.spent e from_ spender amount).moved from_ to_ amount
          events := f.events ++ [.transfer from_ to_ amount]} := by
  simp only [transferFrom,returns_requireAuth_bind,returns_requirePositive_bind,
    Storage.getAllowanceWithExpiration,Storage.getVaultShares,returns_observe_bind,returns_ite,
    returns_panicWithError_bind,and_false,false_or,not_lt,returns_unwrap_bind,checked_eq_some,
    Storage.returns_setAllowance_bind,Storage.setVaultShares,Storage.returns_modify_bind,
    returns_publish,Env.Grants,and_true]
  constructor
  · intro h
    obtain ⟨hfresh,hsigned,h0,hcov,hle,_,⟨hfit,rfl⟩,hkeep,_,⟨hd,rfl⟩,_,⟨hc,rfl⟩,hg⟩ := h
    exact ⟨⟨hfresh,hsigned⟩,⟨hcov,hfit,hkeep⟩,⟨h0,hle,hd,hc⟩,hg⟩
  · intro h
    obtain ⟨⟨hfresh,hsigned⟩,⟨hcov,hfit,hkeep⟩,⟨h0,hle,hd,hc⟩,hg⟩ := h
    exact ⟨hfresh,hsigned,h0,hcov,hle,_,⟨hfit,rfl⟩,hkeep,_,⟨hd,rfl⟩,_,⟨hc,rfl⟩,hg⟩

end Token

section Admin

theorem returns_setAdmin {admin : Address} :
    Returns (setAdmin e admin) f u g ↔
      ∃ old, f.storage.admin = some old ∧ e.Grants f.auths [old,admin] ∧
        g = {f with
          auths := f.auths ++ [old] ++ [admin]
          storage := {f.storage with admin := some admin}} := by
  simp only [setAdmin,Storage.returns_extendInstance_bind,Storage.returns_getAdmin_bind,
    returns_requireAuth_bind,Storage.setAdmin,Storage.returns_modify,Env.Grants,and_true,and_assoc]

/-- The parties that sign when the signer is set or removed. -/
theorem returns_setSigner {signer : Option Address} :
    Returns (setSigner e signer) f u g ↔
      ∃ admin, f.storage.admin = some admin ∧ e.Grants f.auths (admin :: signer.toList) ∧
        g = {f with
          auths := f.auths ++ (admin :: signer.toList)
          storage := {f.storage with signer}} := by
  cases signer with
  | none =>
    simp only [setSigner,Storage.returns_extendInstance_bind,Storage.returns_getAdmin_bind,
      returns_requireAuth_bind,Storage.delSigner,Storage.returns_modify,Env.Grants,and_true,
      and_assoc,Option.toList_none]
  | some signerAddr =>
    simp only [setSigner,Storage.returns_extendInstance_bind,Storage.returns_getAdmin_bind,
      returns_requireAuth_bind,Storage.setSigner,Storage.returns_modify,Env.Grants,and_true,
      and_assoc,Option.toList_some,List.append_assoc,List.cons_append,List.nil_append]

theorem returns_setRouter {router : Address} :
    Returns (setRouter e router) f u g ↔
      ∃ admin, f.storage.admin = some admin ∧ e.Grants f.auths [admin] ∧
        g = {f with
          auths := f.auths ++ [admin]
          storage := {f.storage with router := some router}} := by
  simp only [setRouter,Storage.returns_extendInstance_bind,Storage.returns_getAdmin_bind,
    returns_requireAuth_bind,Storage.setRouter,Storage.returns_modify,Env.Grants,and_true,and_assoc]

end Admin

section Emissions

/-- What `claim_emissions` finds configured, and the supply token it claims for. -/
structure Configured (e : Env Address W) (f : Frame Address W)
    (pool asset blnd router : Address) (id : ℕ) : Prop where
  pool_eq : f.storage.pool = some pool
  asset_eq : f.storage.asset = some asset
  blnd_eq : f.storage.blndToken = some blnd
  router_eq : f.storage.router = some router
  token_id : ∃ r, (e.pool pool).getReserve f.ext asset = some r ∧
    r.config.index*2+1 < 2^32 ∧ id = r.config.index*2+1

omit [DecidableEq Address] in
theorem returns_claimEmissions {amountOutMin n : ℤ} :
    Returns (claimEmissions e amountOutMin) f n g ↔
      ∃ pool asset blnd router id claimed ext,
        Configured e f pool asset blnd router id ∧
        (e.pool pool).claim f.ext e.currentContractAddress [id] e.currentContractAddress =
          some (claimed,ext) ∧
        ((claimed = 0 ∧ n = 0 ∧ g = {f with ext}) ∨
        (claimed ≠ 0 ∧ ∃ swapped moved supplied v b,
          Swap.Swaps e router blnd asset claimed amountOutMin ext n swapped ∧
          (e.pool pool).submit swapped e.currentContractAddress e.currentContractAddress
            e.currentContractAddress [⟨asset,n,0⟩] = some (moved,supplied) ∧
          e.refreshed pool asset supplied f.storage = some v ∧
          e.bTokenBalance pool asset e.currentContractAddress supplied = some b ∧
          g = {f with
            ext := supplied
            storage := f.storage.withVaultData {v with totalBTokens := b}
            events := f.events ++ [.vaultEmissionsClaim pool claimed n]
            flows := f.flows ++ [.supplied e.currentContractAddress n moved]})) := by
  simp only [claimEmissions,Storage.returns_extendInstance_bind,Storage.returns_getPool_bind,
    Storage.returns_getAsset_bind,Storage.returns_getBlndToken_bind,Storage.getRouter,
    returns_observe_bind,returns_ofOption_bind,Pool.returns_reserveSupplyTokenId_bind,
    Pool.returns_claim_bind,returns_ite,returns_pure,Swap.returns_swapBlndForAsset_bind,
    Pool.returns_supply_bind,Vault.returns_getVaultUpdated_bind,
    Pool.returns_vaultBTokenBalance_bind,Storage.setVaultData,Storage.returns_modify_bind,publish,
    returns_update_bind]
  constructor
  · rintro ⟨pool,hpool,asset,hasset,blnd,hblnd,router,hrouter,r,hr,hid,claimed,ext,hclaim,
      ⟨h0,hn,hg⟩ | ⟨h0,n',swapped,hswap,moved,supplied,hsupply,v,hv,b,hb,hn,hg⟩⟩
    · exact ⟨pool,asset,blnd,router,_,claimed,ext,⟨hpool,hasset,hblnd,hrouter,r,hr,hid,rfl⟩,hclaim,
        .inl ⟨h0,hn,hg⟩⟩
    · subst hn
      exact ⟨pool,asset,blnd,router,_,claimed,ext,⟨hpool,hasset,hblnd,hrouter,r,hr,hid,rfl⟩,hclaim,
        .inr ⟨h0,swapped,moved,supplied,v,b,hswap,hsupply,hv,hb,hg⟩⟩
  · rintro ⟨pool,asset,blnd,router,id,claimed,ext,⟨hpool,hasset,hblnd,hrouter,r,hr,hid,rfl⟩,
      hclaim,hrest⟩
    refine ⟨pool,hpool,asset,hasset,blnd,hblnd,router,hrouter,r,hr,hid,claimed,ext,hclaim,?_⟩
    rcases hrest with ⟨h0,hn,hg⟩ | ⟨h0,swapped,moved,supplied,v,b,hswap,hsupply,hv,hb,hg⟩
    · exact .inl ⟨h0,hn,hg⟩
    · exact .inr ⟨h0,n,swapped,hswap,moved,supplied,hsupply,v,hv,b,hb,rfl,hg⟩

end Emissions

section ReadWrite
variable [FixedPoint] {receiver from_ owner operator : Address} {assets shares n : ℤ}

theorem returns_deposit :
    Returns (deposit e assets receiver from_ operator) f n g ↔
      ∃ pool asset moved ext v b,
        e.Grants f.auths (operator :: f.storage.signer.toList) ∧ 0 < assets ∧
        f.storage.pool = some pool ∧ f.storage.asset = some asset ∧
        (e.pool pool).submit f.ext e.currentContractAddress from_ from_ [⟨asset,assets,0⟩] =
          some (moved,ext) ∧
        e.refreshed pool asset ext f.storage = some v ∧ v.Mints assets b n ∧
        InI128 (v.totalShares+n) ∧ InI128 (v.totalBTokens+b) ∧
        InI128 (f.storage.sharesOf receiver+n) ∧
        g = {storage := f.storage.settled (v.minted b n) receiver (f.storage.sharesOf receiver+n)
             ext
             auths := f.auths ++ (operator :: f.storage.signer.toList)
             events := f.events ++ [.vaultDeposit pool asset from_ assets n b]
             flows := f.flows ++ [.supplied from_ assets moved]} := by
  have hsigned : Returns (deposit e assets receiver from_ operator) f n g ↔
      e.Grants f.auths (operator :: f.storage.signer.toList) ∧
        Returns (do
          requirePositive assets .invalidAmount
          let pool ← Storage.getPool
          let asset ← Storage.getAsset
          Pool.supply e pool asset from_ assets
          let minted ← Vault.deposit e pool asset receiver assets
          publish (.vaultDeposit pool asset from_ assets minted.2 minted.1)
          return minted.2)
        {f with auths := f.auths ++ (operator :: f.storage.signer.toList)} n g := by
    cases hs : f.storage.signer with
    | none =>
      simp only [deposit,Storage.returns_extendInstance_bind,returns_requireAuth_bind,
        Storage.getSigner,returns_observe_bind,hs,Env.Grants,and_true,and_assoc,
        Option.toList_none]
    | some signer =>
      simp only [deposit,Storage.returns_extendInstance_bind,returns_requireAuth_bind,
        Storage.getSigner,returns_observe_bind,hs,Env.Grants,and_true,and_assoc,
        Option.toList_some,List.append_assoc,List.cons_append,List.nil_append]
  rw [hsigned]
  simp only [returns_requirePositive_bind,Storage.returns_getPool_bind,
    Storage.returns_getAsset_bind,Pool.returns_supply_bind,Vault.returns_deposit_bind,publish,
    returns_update_bind,returns_pure]
  constructor
  · intro h
    obtain ⟨hgrant,h0,pool,hpool,asset,hasset,moved,ext,hsupply,v,b,s,hv,hm,hS,hB,hU,rfl,hg⟩ := h
    exact ⟨pool,asset,moved,ext,v,b,hgrant,h0,hpool,hasset,hsupply,hv,hm,hS,hB,hU,hg⟩
  · intro h
    obtain ⟨pool,asset,moved,ext,v,b,hgrant,h0,hpool,hasset,hsupply,hv,hm,hS,hB,hU,hg⟩ := h
    exact ⟨hgrant,h0,pool,hpool,asset,hasset,moved,ext,hsupply,v,b,n,hv,hm,hS,hB,hU,rfl,hg⟩

theorem returns_withdraw :
    Returns (withdraw e assets receiver owner operator) f n g ↔
      ∃ pool asset v u b t moved ext,
        e.Grants f.auths [operator] ∧ 0 < assets ∧
        f.storage.pool = some pool ∧ f.storage.asset = some asset ∧
        e.refreshed pool asset f.ext f.storage = some v ∧
        v.Withdraws (f.storage.sharesOf owner) assets u b n ∧ v.Releases b n ∧
        InI128 (f.storage.sharesOf owner-n) ∧ f.storage.Delegates e owner operator n t ∧
        (e.pool pool).submit f.ext e.currentContractAddress e.currentContractAddress receiver
          [⟨asset,u,1⟩] = some (moved,ext) ∧
        g = {storage := t.settled (v.burnt b n) owner (f.storage.sharesOf owner-n)
             ext
             auths := f.auths ++ [operator]
             events := f.events ++ [.vaultWithdraw pool asset owner assets n b]
             flows := f.flows ++ [.withdrawn receiver u moved]} := by
  simp only [withdraw,Storage.returns_extendInstance_bind,returns_requireAuth_bind,
    returns_requirePositive_bind,Storage.returns_getPool_bind,Storage.returns_getAsset_bind,
    Vault.returns_withdraw_bind,returns_spendOperatorAllowance_bind,Pool.returns_withdraw_bind,
    publish,returns_update_bind,returns_pure,Env.Grants,and_true]
  constructor
  · rintro ⟨hfresh,hsigned,h0,pool,hpool,asset,hasset,v,u,b,s,hv,hw,hR,hU,t,ht,moved,ext,hpay,rfl,
      hg⟩
    obtain ⟨t',ht',rfl⟩ := Storage.Delegates.of_settled ht
    exact ⟨pool,asset,v,u,b,t',moved,ext,⟨hfresh,hsigned⟩,h0,hpool,hasset,hv,hw,hR,hU,ht',hpay,hg⟩
  · intro h
    obtain ⟨pool,asset,v,u,b,t,moved,ext,⟨hfresh,hsigned⟩,h0,hpool,hasset,hv,hw,hR,hU,ht,hpay,hg⟩ := h
    exact ⟨hfresh,hsigned,h0,pool,hpool,asset,hasset,v,u,b,n,hv,hw,hR,hU,_,ht.settled _ _ _,moved,
      ext,hpay,rfl,hg⟩

theorem returns_redeem :
    Returns (redeem e shares receiver owner operator) f n g ↔
      ∃ pool asset v b t moved ext,
        e.Grants f.auths [operator] ∧ 0 < shares ∧
        f.storage.pool = some pool ∧ f.storage.asset = some asset ∧
        e.refreshed pool asset f.ext f.storage = some v ∧
        shares ≤ f.storage.sharesOf owner ∧ v.Values shares n b ∧ 0 < n ∧
        v.Releases b shares ∧ InI128 (f.storage.sharesOf owner-shares) ∧
        f.storage.Delegates e owner operator shares t ∧
        (e.pool pool).submit f.ext e.currentContractAddress e.currentContractAddress receiver
          [⟨asset,n,1⟩] = some (moved,ext) ∧
        g = {storage := t.settled (v.burnt b shares) owner (f.storage.sharesOf owner-shares)
             ext
             auths := f.auths ++ [operator]
             events := f.events ++ [.vaultWithdraw pool asset owner n shares b]
             flows := f.flows ++ [.withdrawn receiver n moved]} := by
  simp only [redeem,Storage.returns_extendInstance_bind,returns_requireAuth_bind,
    returns_requirePositive_bind,Storage.returns_getPool_bind,Storage.returns_getAsset_bind,
    Vault.returns_redeem_bind,returns_spendOperatorAllowance_bind,Pool.returns_withdraw_bind,
    publish,returns_update_bind,returns_pure,Env.Grants,and_true]
  constructor
  · rintro ⟨hfresh,hsigned,h0,t,ht,pool,hpool,asset,hasset,v,u,b,hv,_,hle,hval,hu,hR,hU,moved,ext,
      hpay,rfl,hg⟩
    rw [ht.refreshed] at hv
    rw [ht.pool] at hpool
    rw [ht.asset] at hasset
    rw [ht.sharesOf] at hle hU hg
    exact ⟨pool,asset,v,b,t,moved,ext,⟨hfresh,hsigned⟩,h0,hpool,hasset,hv,hle,hval,hu,hR,hU,ht,hpay,
      hg⟩
  · intro h
    obtain ⟨pool,asset,v,b,t,moved,ext,⟨hfresh,hsigned⟩,h0,hpool,hasset,hv,hle,hval,hu,hR,hU,ht,
      hpay,hg⟩ := h
    rw [← ht.refreshed] at hv
    rw [← ht.pool] at hpool
    rw [← ht.asset] at hasset
    rw [← ht.sharesOf] at hle hU hg
    exact ⟨hfresh,hsigned,h0,t,ht,pool,hpool,asset,hasset,v,n,b,hv,h0,hle,hval,hu,hR,hU,moved,ext,
      hpay,rfl,hg⟩

/-- An owner who redeems for themselves fails where the bookkeeping does. -/
theorem redeem_fails {pool asset : Address} {err : Failure}
    (hgrant : e.Grants f.auths [owner]) (h0 : 0 < shares) (hpool : f.storage.pool = some pool)
    (hasset : f.storage.asset = some asset)
    (h : Fails (Vault.redeem e pool asset owner shares) {f with auths := f.auths ++ [owner]} err) :
    Fails (redeem e shares receiver owner owner) f err := by
  obtain ⟨hfresh,hsigned,-⟩ := hgrant
  set g : Frame Address W := {f with auths := f.auths ++ [owner]} with hg
  have hpool' : Returns Storage.getPool g pool g := Storage.returns_getPool.mpr ⟨hpool,rfl⟩
  have hasset' : Returns Storage.getAsset g asset g := Storage.returns_getAsset.mpr ⟨hasset,rfl⟩
  unfold redeem
  apply (fails_bind_of_returns (Storage.returns_extendInstance (u := ()) |>.mpr rfl)).mpr
  refine (fails_bind_of_returns
    (returns_requireAuth (u := ()) |>.mpr ⟨hfresh,hsigned,rfl⟩)).mpr ?_
  refine (fails_bind_of_returns (returns_requirePositive (u := ()) |>.mpr ⟨h0,rfl⟩)).mpr ?_
  refine (fails_bind_of_returns
    (returns_spendOperatorAllowance (u := ()) |>.mpr ⟨_,.self rfl,rfl⟩)).mpr ?_
  apply (fails_bind_of_returns hpool').mpr
  apply (fails_bind_of_returns hasset').mpr
  exact fails_bind.mpr (.inl h)

end ReadWrite

section ReadOnly
variable {user : Address} {n : ℤ}

theorem returns_allowance {from_ spender : Address} :
    Returns (allowance e from_ spender) f n g ↔
      n = (f.storage.allowanceAt e from_ spender).1 ∧ g = f := by
  simp only [allowance,Storage.getAllowance,Storage.getAllowanceWithExpiration,
    returns_observe_bind,returns_pure]

variable [FixedPoint]

omit [DecidableEq Address] in
theorem returns_convertToAssets {shares : ℤ} :
    Returns (convertToAssets e shares) f n g ↔ g = f ∧
      ((shares ≤ 0 ∧ n = 0) ∨
      (0 < shares ∧ ∃ pool asset v d, f.storage.pool = some pool ∧
        f.storage.asset = some asset ∧ e.refreshed pool asset f.ext f.storage = some v ∧
        v.sharesToBTokensDown shares = some d ∧ v.bTokensToUnderlyingDown d = some n)) := by
  simp only [convertToAssets,returns_ite,returns_pure,Storage.returns_getPool_bind,
    Storage.returns_getAsset_bind,Vault.returns_getVaultUpdated_bind,returns_unwrap,
    returns_unwrap_bind,not_le]
  constructor
  · intro h
    obtain ⟨h0,hn,hg⟩ | ⟨h0,pool,hpool,asset,hasset,v,hv,d,hd,hn,hg⟩ := h
    · exact ⟨hg,.inl ⟨h0,hn⟩⟩
    · exact ⟨hg,.inr ⟨h0,pool,asset,v,d,hpool,hasset,hv,hd,hn⟩⟩
  · intro h
    obtain ⟨hg,⟨h0,hn⟩ | ⟨h0,pool,asset,v,d,hpool,hasset,hv,hd,hn⟩⟩ := h
    · exact .inl ⟨h0,hn,hg⟩
    · exact .inr ⟨h0,pool,hpool,asset,hasset,v,hv,d,hd,hn,hg⟩

end ReadOnly

end EntryPoints
end BlendVault
