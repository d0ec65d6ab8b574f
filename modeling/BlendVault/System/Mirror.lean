import BlendVault.Foundations.Lockstep
import BlendVault.System.Allowances
import BlendVault.System.Invocations

/-! Vaults that cannot be told apart. Of what it has stored the vault uses the settings, the
totals, the balances and the allowances that still count; of the outside it sees the answers it
gets. Where these agree every call ends alike, so whole runs agree call by call. -/
namespace BlendVault
open FailStop

section Mirrors
variable {Address W W' α : Type}

/-- The same answer, from outsides that stay related. -/
def Answers (Q : W → W' → Prop) : Option (α × W) → Option (α × W') → Prop :=
  Option.Rel fun p p' => p.1 = p'.1 ∧ Q p.2 p'.2

/-- Two pools that answer alike as long as their states are related by `Q`. -/
structure PoolClient.Mirrors (Q : W → W' → Prop) (p : PoolClient Address W)
    (p' : PoolClient Address W') : Prop where
  submit : ∀ {x x'}, Q x x' → ∀ from_ spender to_ requests,
    Answers Q (p.submit x from_ spender to_ requests) (p'.submit x' from_ spender to_ requests)
  getReserve : ∀ {x x'}, Q x x' → ∀ asset, p.getReserve x asset = p'.getReserve x' asset
  getPositions : ∀ {x x'}, Q x x' → ∀ user, p.getPositions x user = p'.getPositions x' user
  claim : ∀ {x x'}, Q x x' → ∀ from_ ids to_,
    Answers Q (p.claim x from_ ids to_) (p'.claim x' from_ ids to_)

/-- The same ledger and signatures, and callees that answer alike. What the host does with
entries that no longer count may differ. -/
structure Env.Mirrors (Q : W → W' → Prop) (e : Env Address W) (e' : Env Address W') : Prop where
  sequence : e'.sequence = e.sequence
  timestamp : e'.timestamp = e.timestamp
  currentContractAddress : e'.currentContractAddress = e.currentContractAddress
  signed : e'.signed = e.signed
  again : e'.again = e.again
  maxTtl : e'.maxTtl = e.maxTtl
  pool : ∀ pool, (e.pool pool).Mirrors Q (e'.pool pool)
  swap : ∀ {x x'}, Q x x' → ∀ router amountIn amountOutMin path to_ deadline,
    Answers Q ((e.router router).swapExactTokensForTokens x amountIn amountOutMin path to_ deadline)
      ((e'.router router).swapExactTokensForTokens x' amountIn amountOutMin path to_ deadline)
  approve : ∀ {x x'}, Q x x' → ∀ token from_ spender amount expirationLedger,
    Option.Rel Q ((e.token token).approve x from_ spender amount expirationLedger)
      ((e'.token token).approve x' from_ spender amount expirationLedger)

/-- What the admin sets. -/
structure Governance (Address : Type) where
  admin : Option Address
  signer : Option Address
  router : Option Address

def Storage.governance (s : Storage Address) : Governance Address := ⟨s.admin,s.signer,s.router⟩

variable [DecidableEq Address]

/-- The same delegation at `key`, kept on either side for as long as it counts. -/
def Storage.SameGrant (s s' : Storage Address) (key : AllowanceKey Address) : Prop :=
  (s.allowances.lookup key = none ∧ s'.allowances.lookup key = none) ∨
    ∃ a, s.Entered key a ∧ s'.Entered key a

/-- The same pool and asset, balances, totals and delegations, with what the admin sets related by
`G`. The stored rate and its date, and how long entries are kept, may differ. -/
structure Storage.Mirrors (G : Governance Address → Governance Address → Prop)
    (s s' : Storage Address) : Prop where
  frame : s' = {s with vaultData := s'.vaultData, allowances := s'.allowances, admin := s'.admin,
                       signer := s'.signer, router := s'.router}
  governance : G s.governance s'.governance
  fund : s.vaultData.map VaultData.fund = s'.vaultData.map VaultData.fund
  grants : ∀ key, s.SameGrant s' key

structure Frame.Mirrors (G : Governance Address → Governance Address → Prop) (Q : W → W' → Prop)
    (f : Frame Address W) (f' : Frame Address W') : Prop where
  storage : f.storage.Mirrors G f'.storage
  ext : Q f.ext f'.ext
  auths : f.auths = f'.auths
  events : f.events = f'.events
  flows : f.flows = f'.flows

/-- Programs that end alike on vaults that cannot be told apart. -/
abbrev Alike (G : Governance Address → Governance Address → Prop) (Q : W → W' → Prop)
    (m : Contract Address W α) (m' : Contract Address W' α) : Prop :=
  Lockstep (Frame.Mirrors G Q) Eq m m'

end Mirrors

/-- The host refuses to keep an entry for longer than it allows. -/
theorem Storage.setAllowance_fails {Address W : Type} [DecidableEq Address] {e : Env Address W}
    {f : Frame Address W} {from_ spender : Address} {amount : ℤ} {expirationLedger : ℕ}
    (h : ¬ e.KeepsTo expirationLedger) :
    Fails (setAllowance e from_ spender amount expirationLedger) f .storage := by
  unfold Env.KeepsTo at h
  push Not at h
  obtain ⟨hlater,hmax⟩ := h
  unfold setAllowance
  dsimp only
  rw [fails_bind_of_returns (returns_modify (u := ()) |>.mpr rfl),if_pos hlater]
  exact Fails.require_bind (not_le.mpr hmax)

namespace Storage.Mirrors
variable {Address W W' : Type} [DecidableEq Address]
  {G : Governance Address → Governance Address → Prop} {s s' : Storage Address}

section Ruled
variable (h : s.Mirrors Eq s')
include h

theorem admin : s.admin = s'.admin := congrArg Governance.admin h.governance
theorem signer : s.signer = s'.signer := congrArg Governance.signer h.governance
theorem router : s.router = s'.router := congrArg Governance.router h.governance

theorem withAdmin (admin : Address) :
    ({s with admin := some admin} : Storage Address).Mirrors Eq {s' with admin := some admin} := by
  refine ⟨?_,?_,h.fund,h.grants⟩
  · rw [h.frame]
  · rw [Storage.governance,Storage.governance,h.signer,h.router]

theorem withSigner (signer : Option Address) :
    ({s with signer} : Storage Address).Mirrors Eq {s' with signer} := by
  refine ⟨?_,?_,h.fund,h.grants⟩
  · rw [h.frame]
  · rw [Storage.governance,Storage.governance,h.admin,h.router]

theorem withRouter (router : Address) :
    ({s with router := some router} : Storage Address).Mirrors Eq
      {s' with router := some router} := by
  refine ⟨?_,?_,h.fund,h.grants⟩
  · rw [h.frame]
  · rw [Storage.governance,Storage.governance,h.admin,h.signer]

end Ruled

variable (h : s.Mirrors G s')
include h

theorem pool : s.pool = s'.pool := by rw [h.frame]
theorem asset : s.asset = s'.asset := by rw [h.frame]
theorem blndToken : s.blndToken = s'.blndToken := by rw [h.frame]

theorem sharesOf (user : Address) : s.sharesOf user = s'.sharesOf user := by
  rw [h.frame]
  rfl

/-- Neither side has lost an allowance that counts, so both read the same. -/
theorem allowanceAt {e : Env Address W} {e' : Env Address W'} (hseq : e'.sequence = e.sequence)
    (from_ spender : Address) :
    s.allowanceAt e from_ spender = s'.allowanceAt e' from_ spender := by
  rcases h.grants ⟨from_,spender⟩ with ⟨hnone,hnone'⟩ | ⟨a,ha,ha'⟩
  · exact (allowanceAt_of_lookup_eq_none hnone e).trans (allowanceAt_of_lookup_eq_none hnone' e').symm
  · have hread := ha.allowanceAt e
    have hread' := ha'.allowanceAt e'
    rw [hseq] at hread'
    exact hread.trans hread'.symm

theorem withVaultData (vault : VaultData) :
    (s.withVaultData vault).Mirrors G (s'.withVaultData vault) := by
  refine ⟨?_,h.governance,rfl,h.grants⟩
  rw [Storage.withVaultData,Storage.withVaultData,h.frame]

theorem withShares (user : Address) (shares : ℤ) :
    (s.withShares user shares).Mirrors G (s'.withShares user shares) := by
  refine ⟨?_,h.governance,h.fund,h.grants⟩
  rw [Storage.withShares,Storage.withShares,h.frame]

/-- A grant that is written is kept long enough by either host. -/
theorem withAllowance (e : Env Address W) (e' : Env Address W') (from_ spender : Address)
    (amount : ℤ) (expirationLedger : ℕ) :
    (s.withAllowance e from_ spender amount expirationLedger).Mirrors G
      (s'.withAllowance e' from_ spender amount expirationLedger) := by
  refine ⟨?_,h.governance,h.fund,?_⟩
  · rw [Storage.withAllowance,Storage.withAllowance,h.frame]
  · intro key
    by_cases hkey : key = ⟨from_,spender⟩
    · subst hkey
      exact .inr ⟨_,entered_withAllowance s e ⟨from_,spender⟩ amount expirationLedger,
        entered_withAllowance s' e' ⟨from_,spender⟩ amount expirationLedger⟩
    · have hs := lookup_withAllowance_of_ne (s := s) (e := e) hkey amount expirationLedger
      have hs' := lookup_withAllowance_of_ne (s := s') (e := e') hkey amount expirationLedger
      rcases h.grants key with ⟨hnone,hnone'⟩ | ⟨a,ha,ha'⟩
      · exact .inl ⟨hs.trans hnone,hs'.trans hnone'⟩
      · exact .inr ⟨a,ha.congr hs,ha'.congr hs'⟩

end Storage.Mirrors

namespace Alike
variable {Address W W' α : Type} [DecidableEq Address]
  {G : Governance Address → Governance Address → Prop} {Q : W → W' → Prop} {e : Env Address W}
  {e' : Env Address W'}

/-- Reading something of the storage that is the same on both sides. -/
theorem read {g : Storage Address → α} (h : ∀ {s s' : Storage Address}, s.Mirrors G s' → g s = g s') :
    Alike G Q (observe (fun f : Frame Address W => g f.storage))
      (observe (fun f : Frame Address W' => g f.storage)) :=
  .observe fun _ _ hf => h hf.storage

theorem modify {k k' : Storage Address → Storage Address}
    (h : ∀ {s s' : Storage Address}, s.Mirrors G s' → (k s).Mirrors G (k' s')) :
    Alike G Q (Storage.modify k) (Storage.modify k') :=
  .update fun _ _ hf => ⟨h hf.storage,hf.ext,hf.auths,hf.events,hf.flows⟩

theorem unwrap (o : Option α) : Alike G Q (BlendVault.unwrap o) (BlendVault.unwrap o) :=
  .ofOption (optionRel_eq o)

theorem panicWithError (err : BlendVaultError) :
    Alike G Q (BlendVault.panicWithError err : Contract Address W α) (BlendVault.panicWithError err) :=
  .throw

theorem requirePositive (amount : ℤ) (err : BlendVaultError) :
    Alike G Q (BlendVault.requirePositive amount err) (BlendVault.requirePositive amount err) :=
  .require Iff.rfl

/-- A check both sides make of the same figures. -/
theorem guarded {c : Prop} [Decidable c] (err : BlendVaultError) {k : Contract Address W α}
    {k' : Contract Address W' α} (hk : Alike G Q k k') :
    Alike G Q (if c then BlendVault.panicWithError err >>= fun _ : PUnit => k else k)
      (if c then BlendVault.panicWithError err >>= fun _ : PUnit => k' else k') :=
  .ite Iff.rfl (.bind_same (panicWithError err) fun _ => hk) hk

theorem publish (event : Event Address) :
    Alike G Q (BlendVault.publish event) (BlendVault.publish event) :=
  .update fun _ _ hf => ⟨hf.storage,hf.ext,hf.auths,congrArg (· ++ [event]) hf.events,hf.flows⟩

section Instance

theorem getPool : Alike G Q Storage.getPool Storage.getPool :=
  .bind_same (read fun h => h.pool) Alike.unwrap

theorem getAdmin :
    Alike Eq Q (Storage.getAdmin : Contract Address W Address) Storage.getAdmin :=
  .bind_same (read fun h => h.admin) Alike.unwrap

theorem getAsset : Alike G Q Storage.getAsset Storage.getAsset :=
  .bind_same (read fun h => h.asset) Alike.unwrap

theorem getSigner :
    Alike Eq Q (Storage.getSigner : Contract Address W (Option Address)) Storage.getSigner :=
  read fun h => h.signer

theorem getRouter :
    Alike Eq Q (Storage.getRouter : Contract Address W (Option Address)) Storage.getRouter :=
  read fun h => h.router

theorem getBlndToken :
    Alike G Q Storage.getBlndToken Storage.getBlndToken :=
  .bind_same (read fun h => h.blndToken) Alike.unwrap

theorem getVaultShares (user : Address) :
    Alike G Q (Storage.getVaultShares user) (Storage.getVaultShares user) :=
  read fun h => h.sharesOf user

theorem setVaultData (vault : VaultData) :
    Alike G Q (Storage.setVaultData vault) (Storage.setVaultData vault) :=
  modify fun h => h.withVaultData vault

theorem setVaultShares (user : Address) (shares : ℤ) :
    Alike G Q (Storage.setVaultShares user shares) (Storage.setVaultShares user shares) :=
  modify fun h => h.withShares user shares

end Instance

section Host
variable (h : e.Mirrors Q e')
include h

theorem requireAuth (address : Address) :
    Alike G Q (BlendVault.requireAuth e address) (BlendVault.requireAuth e' address) := by
  refine .bind_same (.observe fun _ _ hf => hf.auths) fun auths => ?_
  refine .bind_same (.require ?_) fun _ => ?_
  · rw [h.signed,h.again]
  · exact .update fun _ _ hf =>
      ⟨hf.storage,hf.ext,congrArg (· ++ [address]) hf.auths,hf.events,hf.flows⟩

theorem getAllowanceWithExpiration (from_ spender : Address) :
    Alike G Q (Storage.getAllowanceWithExpiration e from_ spender)
      (Storage.getAllowanceWithExpiration e' from_ spender) :=
  .observe fun _ _ hf => hf.storage.allowanceAt h.sequence from_ spender

/-- The host accepts an expiration on both sides or on neither. -/
theorem setAllowance (from_ spender : Address) (amount : ℤ) (expirationLedger : ℕ) :
    Alike G Q (Storage.setAllowance e from_ spender amount expirationLedger)
      (Storage.setAllowance e' from_ spender amount expirationLedger) := by
  intro f f' hf
  have hkeeps : e.KeepsTo expirationLedger ↔ e'.KeepsTo expirationLedger := by
    unfold Env.KeepsTo
    rw [h.sequence,h.maxTtl]
  by_cases hk : e.KeepsTo expirationLedger
  · rw [show Storage.setAllowance e from_ spender amount expirationLedger f = _ from
        (Storage.returns_setAllowance (u := ())).mpr ⟨hk,rfl⟩,
      show Storage.setAllowance e' from_ spender amount expirationLedger f' = _ from
        (Storage.returns_setAllowance (u := ())).mpr ⟨hkeeps.mp hk,rfl⟩]
    exact .ok rfl ⟨hf.storage.withAllowance e e' _ _ _ _,hf.ext,hf.auths,hf.events,hf.flows⟩
  · rw [show Storage.setAllowance e from_ spender amount expirationLedger f = _ from
        Storage.setAllowance_fails hk,
      show Storage.setAllowance e' from_ spender amount expirationLedger f' = _ from
        Storage.setAllowance_fails (mt hkeeps.mpr hk)]
    exact .error _

section Callees

theorem submit (pool from_ spender to_ : Address) (request : Request Address) :
    Alike G Q (Pool.submit e pool from_ spender to_ request)
      (Pool.submit e' pool from_ spender to_ request) := by
  refine .bind (.observe fun _ _ hf => hf.ext) fun x x' hx => ?_
  refine .bind (.ofOption ((h.pool pool).submit hx from_ spender to_ [request])) ?_
  rintro ⟨moved,y⟩ ⟨moved',y'⟩ ⟨rfl,hy⟩
  refine .bind_same (.update fun _ _ hf => ?_) fun _ => .pure rfl
  exact ⟨hf.storage,hy,hf.auths,hf.events,hf.flows⟩

omit h in
theorem record (flow : Flow Address) : Alike G Q (Pool.record flow) (Pool.record flow) :=
  .update fun _ _ hf => ⟨hf.storage,hf.ext,hf.auths,hf.events,congrArg (· ++ [flow]) hf.flows⟩

theorem poolSupply (pool reserve from_ : Address) (amount : ℤ) :
    Alike G Q (Pool.supply e pool reserve from_ amount)
      (Pool.supply e' pool reserve from_ amount) := by
  unfold Pool.supply
  rw [h.currentContractAddress]
  exact .bind_same (submit h _ _ _ _ _) fun _ => record _

theorem poolWithdraw (pool reserve to_ : Address) (amount : ℤ) :
    Alike G Q (Pool.withdraw e pool reserve to_ amount)
      (Pool.withdraw e' pool reserve to_ amount) := by
  unfold Pool.withdraw
  rw [h.currentContractAddress]
  exact .bind_same (submit h _ _ _ _ _) fun _ => record _

theorem poolClaim (pool : Address) (ids : List ℕ) (to_ : Address) :
    Alike G Q (Pool.claim e pool ids to_) (Pool.claim e' pool ids to_) := by
  unfold Pool.claim
  rw [h.currentContractAddress]
  refine .bind (.observe fun _ _ hf => hf.ext) fun x x' hx => ?_
  refine .bind (.ofOption ((h.pool pool).claim hx _ ids to_)) ?_
  rintro ⟨claimed,y⟩ ⟨claimed',y'⟩ ⟨rfl,hy⟩
  refine .bind_same (.update fun _ _ hf => ?_) fun _ => .pure rfl
  exact ⟨hf.storage,hy,hf.auths,hf.events,hf.flows⟩

theorem getReserve (pool reserve : Address) :
    Alike G Q (Pool.getReserve e pool reserve) (Pool.getReserve e' pool reserve) := by
  refine .bind (.observe fun _ _ hf => hf.ext) fun x x' hx => ?_
  rw [(h.pool pool).getReserve hx]
  exact .ofOption (optionRel_eq _)

theorem reserveBRate (pool reserve : Address) :
    Alike G Q (Pool.reserveBRate e pool reserve) (Pool.reserveBRate e' pool reserve) :=
  .bind_same (getReserve h pool reserve) fun _ => .pure rfl

theorem reserveSupplyTokenId (pool reserve : Address) :
    Alike G Q (Pool.reserveSupplyTokenId e pool reserve)
      (Pool.reserveSupplyTokenId e' pool reserve) :=
  .bind_same (getReserve h pool reserve) fun _ => Alike.unwrap _

theorem vaultBTokenBalance (pool reserve vault : Address) :
    Alike G Q (Pool.vaultBTokenBalance e pool reserve vault)
      (Pool.vaultBTokenBalance e' pool reserve vault) := by
  refine .bind_same (getReserve h pool reserve) fun _ => ?_
  refine .bind (.observe fun _ _ hf => hf.ext) fun x x' hx => ?_
  rw [(h.pool pool).getPositions hx]
  exact .bind_same (.ofOption (optionRel_eq _)) fun _ => .pure rfl

theorem swapBlndForAsset (router blnd asset : Address) (amountIn amountOutMin : ℤ) :
    Alike G Q (Swap.swapBlndForAsset e router blnd asset amountIn amountOutMin)
      (Swap.swapBlndForAsset e' router blnd asset amountIn amountOutMin) := by
  unfold Swap.swapBlndForAsset
  rw [h.sequence,h.timestamp,h.currentContractAddress]
  refine .bind_same (Alike.unwrap _) fun expiration => ?_
  refine .bind (.observe fun _ _ hf => hf.ext) fun x x' hx => ?_
  refine .bind (.ofOption (h.approve hx blnd _ router amountIn expiration)) fun y y' hy => ?_
  refine .bind_same (Alike.unwrap _) fun deadline => ?_
  refine .bind (.ofOption (h.swap hy router amountIn amountOutMin _ _ deadline)) ?_
  rintro ⟨amounts,z⟩ ⟨amounts',z'⟩ ⟨rfl,hz⟩
  refine .bind_same (.update fun _ _ hf => ?_) fun _ => Alike.unwrap _
  exact ⟨hf.storage,hz,hf.auths,hf.events,hf.flows⟩

end Callees

/-- The stored rate and its date are replaced before anything is computed with them. -/
theorem getVaultUpdated (pool asset : Address) :
    Alike G Q (Vault.getVaultUpdated e pool asset) (Vault.getVaultUpdated e' pool asset) := by
  have hstored : Lockstep (Frame.Mirrors G Q) (fun v v' => VaultData.fund v = VaultData.fund v')
      (Storage.getVaultData : Contract Address W VaultData) Storage.getVaultData := by
    refine .bind (V := fun o o' => o.map VaultData.fund = o'.map VaultData.fund)
      (.observe fun _ _ hf => hf.storage.fund) fun o o' ho => .ofOption ?_
    cases o with
    | none =>
      rw [Option.map_eq_none_iff.mp ho.symm]
      exact .none
    | some v =>
      obtain ⟨v',rfl,hv⟩ := Option.map_eq_some_iff.mp ho.symm
      exact .some hv.symm
  refine .bind hstored fun v v' hv => .bind_same (reserveBRate h pool asset) fun r => .pure ?_
  rw [h.timestamp,VaultData.mk.injEq]
  exact ⟨rfl,rfl,congrArg ProRata.Fund.units hv,congrArg ProRata.Fund.assets hv⟩

section Bookkeeping
variable [FixedPoint]

omit h in
theorem clampToBalance (vault : VaultData) (userShares : ℤ) :
    Alike G Q (Vault.clampToBalance vault userShares)
      (Vault.clampToBalance vault userShares) :=
  .bind_same (Alike.requirePositive _ _) fun _ => .bind_same (Alike.unwrap _) fun _ =>
    .bind_same (Alike.unwrap _) fun _ => .bind_same (Alike.unwrap _) fun _ => .pure rfl

theorem vaultDeposit (pool asset user : Address) (amount : ℤ) :
    Alike G Q (Vault.deposit e pool asset user amount)
      (Vault.deposit e' pool asset user amount) := by
  refine .bind_same (getVaultUpdated h pool asset) fun vault => ?_
  refine .bind_same (getVaultShares user) fun userShares => ?_
  refine .bind_same (Alike.unwrap _) fun bTokensAmount => ?_
  refine .bind_same (Alike.requirePositive _ _) fun _ => ?_
  refine .bind_same (Alike.unwrap _) fun shareAmount => ?_
  refine .bind_same (Alike.requirePositive _ _) fun _ => ?_
  refine .bind_same (Alike.unwrap _) fun totalShares => ?_
  refine .bind_same (Alike.unwrap _) fun totalBTokens => ?_
  refine .bind_same (Alike.unwrap _) fun userShares => ?_
  exact .bind_same (setVaultData _) fun _ => .bind_same (setVaultShares user _) fun _ => .pure rfl

theorem vaultWithdraw (pool asset user : Address) (amount : ℤ) :
    Alike G Q (Vault.withdraw e pool asset user amount)
      (Vault.withdraw e' pool asset user amount) := by
  refine .bind_same (getVaultUpdated h pool asset) fun vault => ?_
  refine .bind_same (getVaultShares user) fun userShares => ?_
  refine .bind_same (Alike.unwrap _) fun bTokensAmount => ?_
  refine .bind_same (Alike.requirePositive _ _) fun _ => ?_
  refine .bind_same (Alike.unwrap _) fun shareAmount => ?_
  refine .bind_same (Alike.requirePositive _ _) fun _ => ?_
  refine .ite Iff.rfl (.bind_same (clampToBalance vault userShares) fun p => ?_)
    (.bind_same (.pure rfl) fun p => ?_)
  all_goals
    refine guarded _ ?_
    refine .bind_same (Alike.unwrap _) fun totalShares => ?_
    refine .bind_same (Alike.unwrap _) fun totalBTokens => ?_
    refine .bind_same (Alike.unwrap _) fun userShares => ?_
    exact .bind_same (setVaultData _) fun _ => .bind_same (setVaultShares user _) fun _ => .pure rfl

theorem vaultRedeem (pool asset user : Address) (shares : ℤ) :
    Alike G Q (Vault.redeem e pool asset user shares)
      (Vault.redeem e' pool asset user shares) := by
  refine .bind_same (getVaultUpdated h pool asset) fun vault => ?_
  refine .bind_same (getVaultShares user) fun userShares => ?_
  refine .bind_same (Alike.requirePositive _ _) fun _ => guarded _ ?_
  refine .bind_same (Alike.unwrap _) fun bTokensDown => ?_
  refine .bind_same (Alike.unwrap _) fun underlyingAmount => ?_
  refine .bind_same (Alike.requirePositive _ _) fun _ => ?_
  refine .bind_same (Alike.unwrap _) fun bTokensAmount => guarded _ ?_
  refine .bind_same (Alike.unwrap _) fun totalShares => ?_
  refine .bind_same (Alike.unwrap _) fun totalBTokens => ?_
  refine .bind_same (Alike.unwrap _) fun remaining => ?_
  exact .bind_same (setVaultShares user _) fun _ => .bind_same (setVaultData _) fun _ => .pure rfl

end Bookkeeping

section Entries

theorem spendOperatorAllowance (owner operator : Address) (shares : ℤ) :
    Alike G Q (EntryPoints.spendOperatorAllowance e owner operator shares)
      (EntryPoints.spendOperatorAllowance e' owner operator shares) := by
  refine .ite Iff.rfl (.pure rfl) (.bind_same (getAllowanceWithExpiration h owner operator) ?_)
  intro allowance
  exact guarded _ (.bind_same (Alike.unwrap _) fun _ => setAllowance h _ _ _ _)

theorem approve (from_ spender : Address) (amount : ℤ) (expirationLedger : ℕ) :
    Alike G Q (EntryPoints.approve e from_ spender amount expirationLedger)
      (EntryPoints.approve e' from_ spender amount expirationLedger) :=
  .bind_same (requireAuth h from_) fun _ =>
    .bind_same (setAllowance h from_ spender amount expirationLedger) fun _ => Alike.publish _

theorem transfer (from_ to_ : Address) (amount : ℤ) :
    Alike G Q (EntryPoints.transfer e from_ to_ amount)
      (EntryPoints.transfer e' from_ to_ amount) := by
  refine .bind_same (requireAuth h from_) fun _ => ?_
  refine .bind_same (Alike.requirePositive _ _) fun _ => ?_
  refine .bind_same (getVaultShares from_) fun fromShares => guarded _ ?_
  refine .bind_same (getVaultShares to_) fun toShares => ?_
  refine .bind_same (Alike.unwrap _) fun debited => .bind_same (setVaultShares from_ _) fun _ => ?_
  refine .bind_same (Alike.unwrap _) fun credited => .bind_same (setVaultShares to_ _) fun _ => ?_
  exact Alike.publish _

theorem transferFrom (spender from_ to_ : Address) (amount : ℤ) :
    Alike G Q (EntryPoints.transferFrom e spender from_ to_ amount)
      (EntryPoints.transferFrom e' spender from_ to_ amount) := by
  refine .bind_same (requireAuth h spender) fun _ => ?_
  refine .bind_same (Alike.requirePositive _ _) fun _ => ?_
  refine .bind_same (getAllowanceWithExpiration h from_ spender) fun allowance => guarded _ ?_
  refine .bind_same (getVaultShares from_) fun fromShares => guarded _ ?_
  refine .bind_same (getVaultShares to_) fun toShares => ?_
  refine .bind_same (Alike.unwrap _) fun remaining => ?_
  refine .bind_same (setAllowance h from_ spender _ _) fun _ => ?_
  refine .bind_same (Alike.unwrap _) fun debited => .bind_same (setVaultShares from_ _) fun _ => ?_
  refine .bind_same (Alike.unwrap _) fun credited => .bind_same (setVaultShares to_ _) fun _ => ?_
  exact Alike.publish _

theorem setAdmin (admin : Address) :
    Alike Eq Q (EntryPoints.setAdmin e admin) (EntryPoints.setAdmin e' admin) := by
  refine .bind_same (.pure rfl) fun _ => .bind_same getAdmin fun old => ?_
  refine .bind_same (requireAuth h old) fun _ => .bind_same (requireAuth h admin) fun _ => ?_
  exact modify fun hs => hs.withAdmin admin

theorem setSigner (signer : Option Address) :
    Alike Eq Q (EntryPoints.setSigner e signer) (EntryPoints.setSigner e' signer) := by
  refine .bind_same (.pure rfl) fun _ => .bind_same getAdmin fun admin => ?_
  refine .bind_same (requireAuth h admin) fun _ => ?_
  cases signer with
  | none => exact modify fun hs => hs.withSigner none
  | some signer =>
    exact .bind_same (requireAuth h signer) fun _ => modify fun hs => hs.withSigner (some signer)

theorem setRouter (router : Address) :
    Alike Eq Q (EntryPoints.setRouter e router) (EntryPoints.setRouter e' router) := by
  refine .bind_same (.pure rfl) fun _ => .bind_same getAdmin fun admin => ?_
  exact .bind_same (requireAuth h admin) fun _ => modify fun hs => hs.withRouter router

theorem claimEmissions (amountOutMin : ℤ) :
    Alike Eq Q (EntryPoints.claimEmissions e amountOutMin)
      (EntryPoints.claimEmissions e' amountOutMin) := by
  unfold EntryPoints.claimEmissions
  rw [h.currentContractAddress]
  refine .bind_same (.pure rfl) fun _ => .bind_same getPool fun pool => ?_
  refine .bind_same getAsset fun asset => .bind_same getBlndToken fun blnd => ?_
  refine .bind_same getRouter fun router => .bind_same (.ofOption (optionRel_eq _)) fun router => ?_
  refine .bind_same (reserveSupplyTokenId h pool asset) fun supplyTokenId => ?_
  refine .bind_same (poolClaim h pool _ _) fun blndClaimed => .ite Iff.rfl (.pure rfl) ?_
  refine .bind_same (swapBlndForAsset h _ _ _ _ _) fun underlyingReceived => ?_
  refine .bind_same (poolSupply h pool asset _ _) fun _ => ?_
  refine .bind_same (getVaultUpdated h pool asset) fun vault => ?_
  refine .bind_same (vaultBTokenBalance h pool asset _) fun totalBTokens => ?_
  exact .bind_same (setVaultData _) fun _ => .bind_same (Alike.publish _) fun _ => .pure rfl

variable [FixedPoint]

theorem deposit (assets : ℤ) (receiver from_ operator : Address) :
    Alike Eq Q (EntryPoints.deposit e assets receiver from_ operator)
      (EntryPoints.deposit e' assets receiver from_ operator) := by
  refine .bind_same (.pure rfl) fun _ => .bind_same (requireAuth h operator) fun _ => ?_
  refine .bind_same getSigner fun signer => ?_
  -- with or without a signer, the rest is the same
  suffices hrest : _ by
    cases signer with
    | none => exact hrest
    | some signer => exact .bind_same (requireAuth h signer) fun _ => hrest
  refine .bind_same (Alike.requirePositive _ _) fun _ => ?_
  refine .bind_same getPool fun pool => .bind_same getAsset fun asset => ?_
  refine .bind_same (poolSupply h pool asset from_ assets) fun _ => ?_
  refine .bind_same (vaultDeposit h pool asset receiver assets) fun p => ?_
  exact .bind_same (Alike.publish _) fun _ => .pure rfl

theorem withdraw (assets : ℤ) (receiver owner operator : Address) :
    Alike G Q (EntryPoints.withdraw e assets receiver owner operator)
      (EntryPoints.withdraw e' assets receiver owner operator) := by
  refine .bind_same (.pure rfl) fun _ => .bind_same (requireAuth h operator) fun _ => ?_
  refine .bind_same (Alike.requirePositive _ _) fun _ => ?_
  refine .bind_same getPool fun pool => .bind_same getAsset fun asset => ?_
  refine .bind_same (vaultWithdraw h pool asset owner assets) fun p => ?_
  refine .bind_same (spendOperatorAllowance h owner operator _) fun _ => ?_
  refine .bind_same (poolWithdraw h pool asset receiver _) fun _ => ?_
  exact .bind_same (Alike.publish _) fun _ => .pure rfl

theorem redeem (shares : ℤ) (receiver owner operator : Address) :
    Alike G Q (EntryPoints.redeem e shares receiver owner operator)
      (EntryPoints.redeem e' shares receiver owner operator) := by
  refine .bind_same (.pure rfl) fun _ => .bind_same (requireAuth h operator) fun _ => ?_
  refine .bind_same (Alike.requirePositive _ _) fun _ => ?_
  refine .bind_same (spendOperatorAllowance h owner operator shares) fun _ => ?_
  refine .bind_same getPool fun pool => .bind_same getAsset fun asset => ?_
  refine .bind_same (vaultRedeem h pool asset owner shares) fun p => ?_
  refine .bind_same (poolWithdraw h pool asset receiver _) fun _ => ?_
  exact .bind_same (Alike.publish _) fun _ => .pure rfl

/-- Every call ends alike. -/
theorem exec (c : Call Address) : Alike Eq Q (BlendVault.exec e c) (BlendVault.exec e' c) := by
  cases c with
  | deposit assets receiver from_ operator =>
    exact .map (deposit h assets receiver from_ operator) fun _ _ hn => congrArg some hn
  | withdraw assets receiver owner operator =>
    exact .map (withdraw h assets receiver owner operator) fun _ _ hn => congrArg some hn
  | redeem shares receiver owner operator =>
    exact .map (redeem h shares receiver owner operator) fun _ _ hn => congrArg some hn
  | transfer from_ to_ amount => exact .map (transfer h from_ to_ amount) fun _ _ _ => rfl
  | transferFrom spender from_ to_ amount =>
    exact .map (transferFrom h spender from_ to_ amount) fun _ _ _ => rfl
  | approve from_ spender amount expirationLedger =>
    exact .map (approve h from_ spender amount expirationLedger) fun _ _ _ => rfl
  | claimEmissions amountOutMin =>
    exact .map (claimEmissions h amountOutMin) fun _ _ hn => congrArg some hn
  | setAdmin admin => exact .map (setAdmin h admin) fun _ _ _ => rfl
  | setSigner signer => exact .map (setSigner h signer) fun _ _ _ => rfl
  | setRouter router => exact .map (setRouter h router) fun _ _ _ => rfl

end Entries
end Host
end Alike
end BlendVault
