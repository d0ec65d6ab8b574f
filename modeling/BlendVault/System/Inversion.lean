import BlendVault.System.Step

/-! Everything one step can have been. Each entry point that returns leaves one kind of label and
one kind of world behind; what a step does to the books, the allowances, the settings and the
signatures is read off here. -/
namespace BlendVault
open FailStop

/-- The pool and the asset the vault was deployed with. -/
structure Storage.Serves {Address : Type} (s : Storage Address) (pool asset : Address) : Prop where
  pool_eq : s.pool = some pool
  asset_eq : s.asset = some asset

theorem Storage.Serves.unique {Address : Type} {s : Storage Address} {p a p' a' : Address}
    (h : s.Serves p a) (h' : s.Serves p' a') : p' = p ∧ a' = a :=
  ⟨Option.some.inj (h'.pool_eq.symm.trans h.pool_eq),
    Option.some.inj (h'.asset_eq.symm.trans h.asset_eq)⟩

section Outcome
variable {Address W : Type} [DecidableEq Address] [FixedPoint]

/-- What can come of a call made in `w`. -/
inductive Outcome (w : World Address W) : Label Address W → World Address W → Prop
  | deposit {e : Env Address W} {found ext : W} {assets moved b n : ℤ}
      {receiver from_ operator pool asset : Address} {v : VaultData}
      (granted : e.Grants [] (operator :: w.storage.signer.toList)) (assets_pos : 0 < assets)
      (serves : w.storage.Serves pool asset)
      (supplied : (e.pool pool).submit found e.currentContractAddress from_ from_
        [⟨asset,assets,0⟩] = some (moved,ext))
      (rate : e.refreshed pool asset ext w.storage = some v) (mints : v.Mints assets b n)
      (shares_fit : InI128 (v.totalShares+n)) (bTokens_fit : InI128 (v.totalBTokens+b)) :
      Outcome w
        ⟨e,.deposit assets receiver from_ operator,found,some n,
          operator :: w.storage.signer.toList,[.vaultDeposit pool asset from_ assets n b],
          [.supplied from_ assets moved]⟩
        ⟨w.storage.settled (v.minted b n) receiver (w.storage.sharesOf receiver+n),ext,e.sequence⟩
  | withdraw {e : Env Address W} {found ext : W} {assets u moved b n : ℤ}
      {receiver owner operator pool asset : Address} {v : VaultData} {t : Storage Address}
      (granted : e.Grants [] [operator]) (assets_pos : 0 < assets)
      (serves : w.storage.Serves pool asset)
      (rate : e.refreshed pool asset found w.storage = some v)
      (out : v.Withdraws (w.storage.sharesOf owner) assets u b n) (releases : v.Releases b n)
      (delegates : w.storage.Delegates e owner operator n t)
      (paid : (e.pool pool).submit found e.currentContractAddress e.currentContractAddress
        receiver [⟨asset,u,1⟩] = some (moved,ext)) :
      Outcome w
        ⟨e,.withdraw assets receiver owner operator,found,some n,[operator],
          [.vaultWithdraw pool asset owner assets n b],[.withdrawn receiver u moved]⟩
        ⟨t.settled (v.burnt b n) owner (w.storage.sharesOf owner-n),ext,e.sequence⟩
  | redeem {e : Env Address W} {found ext : W} {u moved b n : ℤ}
      {receiver owner operator pool asset : Address} {v : VaultData} {t : Storage Address}
      (granted : e.Grants [] [operator]) (shares_pos : 0 < n)
      (serves : w.storage.Serves pool asset)
      (rate : e.refreshed pool asset found w.storage = some v)
      (enough : n ≤ w.storage.sharesOf owner) (value : v.Values n u b) (underlying_pos : 0 < u)
      (releases : v.Releases b n) (delegates : w.storage.Delegates e owner operator n t)
      (paid : (e.pool pool).submit found e.currentContractAddress e.currentContractAddress
        receiver [⟨asset,u,1⟩] = some (moved,ext)) :
      Outcome w
        ⟨e,.redeem n receiver owner operator,found,some u,[operator],
          [.vaultWithdraw pool asset owner u n b],[.withdrawn receiver u moved]⟩
        ⟨t.settled (v.burnt b n) owner (w.storage.sharesOf owner-n),ext,e.sequence⟩
  | transfer {e : Env Address W} {found : W} {from_ to_ : Address} {amount : ℤ}
      (granted : e.Grants [] [from_]) (moves : w.storage.Moves from_ to_ amount) :
      Outcome w
        ⟨e,.transfer from_ to_ amount,found,none,[from_],[.transfer from_ to_ amount],[]⟩
        ⟨w.storage.moved from_ to_ amount,found,e.sequence⟩
  | transferFrom {e : Env Address W} {found : W} {spender from_ to_ : Address} {amount : ℤ}
      (granted : e.Grants [] [spender]) (covers : w.storage.Covers e from_ spender amount)
      (moves : w.storage.Moves from_ to_ amount) :
      Outcome w
        ⟨e,.transferFrom spender from_ to_ amount,found,none,[spender],
          [.transfer from_ to_ amount],[]⟩
        ⟨(w.storage.spent e from_ spender amount).moved from_ to_ amount,found,e.sequence⟩
  | approve {e : Env Address W} {found : W} {from_ spender : Address} {amount : ℤ}
      {expirationLedger : ℕ} (granted : e.Grants [] [from_]) (keeps : e.KeepsTo expirationLedger) :
      Outcome w
        ⟨e,.approve from_ spender amount expirationLedger,found,none,[from_],
          [.approve from_ spender amount expirationLedger],[]⟩
        ⟨w.storage.withAllowance e from_ spender amount expirationLedger,found,e.sequence⟩
  | claimNothing {e : Env Address W} {found ext : W} {amountOutMin : ℤ} {id : ℕ}
      {pool asset : Address} (serves : w.storage.Serves pool asset)
      (claimed : (e.pool pool).claim found e.currentContractAddress [id]
        e.currentContractAddress = some (0,ext)) :
      Outcome w ⟨e,.claimEmissions amountOutMin,found,some 0,[],[],[]⟩
        ⟨w.storage,ext,e.sequence⟩
  | compound {e : Env Address W} {found ext swapped supplied : W}
      {amountOutMin claimed n moved b : ℤ} {id : ℕ} {pool asset blnd router : Address}
      {v : VaultData} (serves : w.storage.Serves pool asset)
      (claimed_eq : (e.pool pool).claim found e.currentContractAddress [id]
        e.currentContractAddress = some (claimed,ext)) (claimed_ne : claimed ≠ 0)
      (swaps : Swap.Swaps e router blnd asset claimed amountOutMin ext n swapped)
      (supplied_eq : (e.pool pool).submit swapped e.currentContractAddress
        e.currentContractAddress e.currentContractAddress [⟨asset,n,0⟩] = some (moved,supplied))
      (rate : e.refreshed pool asset supplied w.storage = some v)
      (reported : e.bTokenBalance pool asset e.currentContractAddress supplied = some b) :
      Outcome w
        ⟨e,.claimEmissions amountOutMin,found,some n,[],[.vaultEmissionsClaim pool claimed n],
          [.supplied e.currentContractAddress n moved]⟩
        ⟨w.storage.withVaultData {v with totalBTokens := b},supplied,e.sequence⟩
  | setAdmin {e : Env Address W} {found : W} {old admin : Address}
      (admin_eq : w.storage.admin = some old) (granted : e.Grants [] [old,admin]) :
      Outcome w ⟨e,.setAdmin admin,found,none,[old,admin],[],[]⟩
        ⟨{w.storage with admin := some admin},found,e.sequence⟩
  | setSigner {e : Env Address W} {found : W} {admin : Address} {signer : Option Address}
      (admin_eq : w.storage.admin = some admin)
      (granted : e.Grants [] (admin :: signer.toList)) :
      Outcome w ⟨e,.setSigner signer,found,none,admin :: signer.toList,[],[]⟩
        ⟨{w.storage with signer},found,e.sequence⟩
  | setRouter {e : Env Address W} {found : W} {admin router : Address}
      (admin_eq : w.storage.admin = some admin) (granted : e.Grants [] [admin]) :
      Outcome w ⟨e,.setRouter router,found,none,[admin],[],[]⟩
        ⟨{w.storage with router := some router},found,e.sequence⟩

/-- Every step has one of the outcomes. -/
theorem Step.outcome {w w' : World Address W} {l : Label Address W} (h : Step w l w') :
    Outcome w l w' := by
  obtain ⟨-,hsequence,hreturns⟩ := h
  obtain ⟨s',ext',n'⟩ := w'
  obtain ⟨e,call,found,result,auths,events,flows⟩ := l
  dsimp only at hreturns hsequence
  subst hsequence
  cases call with
  | deposit assets receiver from_ operator =>
    obtain ⟨n,hn,rfl⟩ := returns_map.mp hreturns
    obtain ⟨pool,asset,moved,ext,v,b,hgrant,h0,hpool,hasset,hsupply,hv,hm,hS,hB,-,hg⟩ :=
      EntryPoints.returns_deposit.mp hn
    cases hg
    exact .deposit hgrant h0 ⟨hpool,hasset⟩ hsupply hv hm hS hB
  | withdraw assets receiver owner operator =>
    obtain ⟨n,hn,rfl⟩ := returns_map.mp hreturns
    obtain ⟨pool,asset,v,u,b,t,moved,ext,hgrant,h0,hpool,hasset,hv,hw,hR,-,ht,hpay,hg⟩ :=
      EntryPoints.returns_withdraw.mp hn
    cases hg
    exact .withdraw hgrant h0 ⟨hpool,hasset⟩ hv hw hR ht hpay
  | redeem shares receiver owner operator =>
    obtain ⟨n,hn,rfl⟩ := returns_map.mp hreturns
    obtain ⟨pool,asset,v,b,t,moved,ext,hgrant,h0,hpool,hasset,hv,hle,hval,hu,hR,-,ht,hpay,hg⟩ :=
      EntryPoints.returns_redeem.mp hn
    cases hg
    exact .redeem hgrant h0 ⟨hpool,hasset⟩ hv hle hval hu hR ht hpay
  | transfer from_ to_ amount =>
    obtain ⟨_,hn,rfl⟩ := returns_map.mp hreturns
    obtain ⟨hgrant,hm,hg⟩ := EntryPoints.returns_transfer.mp hn
    cases hg
    exact .transfer hgrant hm
  | transferFrom spender from_ to_ amount =>
    obtain ⟨_,hn,rfl⟩ := returns_map.mp hreturns
    obtain ⟨hgrant,hcovers,hm,hg⟩ := EntryPoints.returns_transferFrom.mp hn
    cases hg
    exact .transferFrom hgrant hcovers hm
  | approve from_ spender amount expirationLedger =>
    obtain ⟨_,hn,rfl⟩ := returns_map.mp hreturns
    obtain ⟨hgrant,hkeeps,hg⟩ := EntryPoints.returns_approve.mp hn
    cases hg
    exact .approve hgrant hkeeps
  | claimEmissions amountOutMin =>
    obtain ⟨n,hn,rfl⟩ := returns_map.mp hreturns
    obtain ⟨pool,asset,blnd,router,id,claimed,ext,hc,hclaim,hrest⟩ :=
      EntryPoints.returns_claimEmissions.mp hn
    have hserves := Storage.Serves.mk hc.pool_eq hc.asset_eq
    rcases hrest with ⟨rfl,rfl,hg⟩ | ⟨h0,swapped,moved,supplied,v,b,hswap,hsupply,hv,hb,hg⟩
    · cases hg
      exact .claimNothing hserves hclaim
    · cases hg
      exact .compound hserves hclaim h0 hswap hsupply hv hb
  | setAdmin admin =>
    obtain ⟨_,hn,rfl⟩ := returns_map.mp hreturns
    obtain ⟨old,hold,hgrant,hg⟩ := EntryPoints.returns_setAdmin.mp hn
    cases hg
    exact .setAdmin hold hgrant
  | setSigner signer =>
    obtain ⟨_,hn,rfl⟩ := returns_map.mp hreturns
    obtain ⟨admin,hadmin,hgrant,hg⟩ := EntryPoints.returns_setSigner.mp hn
    cases hg
    exact .setSigner hadmin hgrant
  | setRouter router =>
    obtain ⟨_,hn,rfl⟩ := returns_map.mp hreturns
    obtain ⟨admin,hadmin,hgrant,hg⟩ := EntryPoints.returns_setRouter.mp hn
    cases hg
    exact .setRouter hadmin hgrant

end Outcome
end BlendVault
