import BlendVault.System.Mirror

/-! Whole histories of vaults that cannot be told apart. Call by call they come to the same, so
neither what the host does with expired allowances nor the rate kept in storage can be seen, and
a pool may be replaced by another that answers alike. -/
namespace BlendVault
open FailStop

section Relations
variable {Address W W' : Type} {Q : W → W' → Prop}

/-- Two markets that report alike as long as their states are related. -/
structure MarketClient.Mirrors (Q : W → W' → Prop) (m : MarketClient Address W)
    (m' : MarketClient Address W') : Prop where
  getReserve : ∀ {x x'}, Q x x' → ∀ asset, m.getReserve x asset = m'.getReserve x' asset
  getConfig : ∀ {x x'}, Q x x' → m.getConfig x = m'.getConfig x'

theorem Answers.symm {α : Type} {o : Option (α × W)} {o' : Option (α × W')} (h : Answers Q o o') :
    Answers (flip Q) o' o := by
  cases h with
  | some h => exact .some ⟨h.1.symm,h.2⟩
  | none => exact .none

theorem PoolClient.Mirrors.symm {p : PoolClient Address W} {p' : PoolClient Address W'}
    (h : p.Mirrors Q p') : p'.Mirrors (flip Q) p where
  submit hx _ _ _ _ := (h.submit hx _ _ _ _).symm
  getReserve hx asset := (h.getReserve hx asset).symm
  getPositions hx user := (h.getPositions hx user).symm
  claim hx _ _ _ := (h.claim hx _ _ _).symm

theorem Env.Mirrors.symm {e : Env Address W} {e' : Env Address W'} (h : e.Mirrors Q e') :
    e'.Mirrors (flip Q) e where
  sequence := h.sequence.symm
  timestamp := h.timestamp.symm
  currentContractAddress := h.currentContractAddress.symm
  signed := h.signed.symm
  again := h.again.symm
  maxTtl := h.maxTtl.symm
  pool pool := (h.pool pool).symm
  swap hx _ _ _ _ _ _ := (h.swap hx _ _ _ _ _ _).symm
  approve hx _ _ _ _ _ := optionRel_flip (h.approve hx _ _ _ _ _)

variable [DecidableEq Address]

theorem Storage.Mirrors.symm {s s' : Storage Address} (h : s.Mirrors Eq s') : s'.Mirrors Eq s := by
  refine ⟨?_,h.governance.symm,h.fund.symm,fun key => ?_⟩
  · rw [h.frame]
  · rcases h.grants key with ⟨hnone,hnone'⟩ | ⟨a,ha,ha'⟩
    · exact .inl ⟨hnone',hnone⟩
    · exact .inr ⟨a,ha',ha⟩

/-- Calls that came to the same in surroundings that mirror each other. -/
structure Label.Mirrors (Q : W → W' → Prop) (l : Label Address W) (l' : Label Address W') : Prop where
  env : l.env.Mirrors Q l'.env
  call : l.call = l'.call
  found : Q l.found l'.found
  result : l.result = l'.result
  auths : l.auths = l'.auths
  events : l.events = l'.events
  flows : l.flows = l'.flows

structure World.Mirrors (Q : W → W' → Prop) (w : World Address W) (w' : World Address W') : Prop where
  storage : w.storage.Mirrors Eq w'.storage
  outside : Q w.outside w'.outside
  sequence : w.sequence = w'.sequence

omit [DecidableEq Address] in
theorem Label.Mirrors.symm {l : Label Address W} {l' : Label Address W'} (h : l.Mirrors Q l') :
    l'.Mirrors (flip Q) l :=
  ⟨h.env.symm,h.call.symm,h.found,h.result.symm,h.auths.symm,h.events.symm,h.flows.symm⟩

theorem World.Mirrors.symm {w : World Address W} {w' : World Address W'} (h : w.Mirrors Q w') :
    w'.Mirrors (flip Q) w :=
  ⟨h.storage.symm,h.outside,h.sequence.symm⟩

theorem Frame.Mirrors.fresh {s s' : Storage Address} {x : W} {x' : W'} (hs : s.Mirrors Eq s')
    (hx : Q x x') : Frame.Mirrors Eq Q (.fresh s x) (.fresh s' x') := ⟨hs,hx,rfl,rfl,rfl⟩

end Relations

namespace Alike
variable {Address W W' : Type} [DecidableEq Address] [FixedPoint]
  {G : Governance Address → Governance Address → Prop} {Q : W → W' → Prop}
  {e : Env Address W} {e' : Env Address W'} (h : e.Mirrors Q e')
include h

omit [FixedPoint] in
theorem getVault : Alike G Q (EntryPoints.getVault e) (EntryPoints.getVault e') :=
  .bind_same getPool fun pool => .bind_same getAsset fun asset => getVaultUpdated h pool asset

theorem getBTokens (user : Address) :
    Alike G Q (EntryPoints.getBTokens e user) (EntryPoints.getBTokens e' user) := by
  refine .bind_same (getVaultShares user) fun shares => .ite Iff.rfl ?_ (.pure rfl)
  refine .bind_same getPool fun pool => .bind_same getAsset fun asset => ?_
  exact .bind_same (getVaultUpdated h pool asset) fun vault => Alike.unwrap _

theorem convertToAssets (shares : ℤ) :
    Alike G Q (EntryPoints.convertToAssets e shares)
      (EntryPoints.convertToAssets e' shares) := by
  refine .ite Iff.rfl (.pure rfl) ?_
  refine .bind_same getPool fun pool => .bind_same getAsset fun asset => ?_
  refine .bind_same (getVaultUpdated h pool asset) fun vault => ?_
  exact .bind_same (Alike.unwrap _) fun bTokens => Alike.unwrap _

theorem getUnderlyingTokens (user : Address) :
    Alike G Q (EntryPoints.getUnderlyingTokens e user)
      (EntryPoints.getUnderlyingTokens e' user) := by
  refine .bind_same (getVaultShares user) fun shares => .ite Iff.rfl ?_ (.pure rfl)
  refine .bind_same getPool fun pool => .bind_same getAsset fun asset => ?_
  refine .bind_same (getVaultUpdated h pool asset) fun vault => ?_
  exact .bind_same (Alike.unwrap _) fun bTokens => Alike.unwrap _

variable [SorobanFixedPoint]

omit [FixedPoint] h in
theorem curUtil (reserve : MarketReserve) :
    Alike G Q (VaultSummary.curUtil reserve : Contract Address W ℤ)
      (VaultSummary.curUtil reserve) := by
  refine .bind_same (Alike.unwrap _) fun liabilities => .bind_same (Alike.unwrap _) fun supply => ?_
  exact .ite Iff.rfl (.pure rfl) (.ite Iff.rfl (.pure rfl) (Alike.unwrap _))

omit [FixedPoint] h in
theorem curIr (reserve : MarketReserve) (curUtil : ℤ) :
    Alike G Q (VaultSummary.curIr reserve curUtil : Contract Address W ℤ)
      (VaultSummary.curIr reserve curUtil) := by
  refine .ite Iff.rfl ?_ (.ite Iff.rfl ?_ ?_)
  -- on each of the three lines one operation after the other
  all_goals
    repeat refine .bind_same (Alike.unwrap _) fun _ => ?_
    exact Alike.unwrap _

omit [FixedPoint] in
theorem getVaultSummary {market : Address → MarketClient Address W}
    {market' : Address → MarketClient Address W'} (hm : ∀ pool, (market pool).Mirrors Q (market' pool)) :
    Alike Eq Q (EntryPoints.getVaultSummary e market)
      (EntryPoints.getVaultSummary e' market') := by
  refine .bind_same getPool fun pool => .bind_same getAsset fun asset => ?_
  refine .bind_same getAdmin fun admin => .bind_same getSigner fun signer => ?_
  refine .bind_same (getVaultUpdated h pool asset) fun vault => ?_
  refine .bind (.observe fun _ _ hf => hf.ext) fun x x' hx => ?_
  rw [(hm pool).getReserve hx,(hm pool).getConfig hx]
  refine .bind_same (.ofOption (optionRel_eq _)) fun reserve => ?_
  refine .bind_same (.ofOption (optionRel_eq _)) fun poolConfig => ?_
  refine .bind_same (curUtil reserve) fun util => .bind_same (curIr reserve util) fun ir => ?_
  repeat refine .bind_same (Alike.unwrap _) fun _ => ?_
  exact .pure rfl

/-- Every query is answered alike. -/
theorem ask {market : Address → MarketClient Address W} {market' : Address → MarketClient Address W'}
    (hm : ∀ pool, (market pool).Mirrors Q (market' pool)) (q : Query Address) :
    Alike Eq Q (q.ask e market) (q.ask e' market') := by
  cases q with
  | getShares user => exact .map (getVaultShares user) fun _ _ hn => congrArg Answer.amount hn
  | getBTokens user => exact .map (getBTokens h user) fun _ _ hn => congrArg Answer.amount hn
  | convertToAssets shares =>
    exact .map (convertToAssets h shares) fun _ _ hn => congrArg Answer.amount hn
  | getUnderlyingTokens user =>
    exact .map (getUnderlyingTokens h user) fun _ _ hn => congrArg Answer.amount hn
  | getConfig =>
    exact .map (V := Eq) (.bind_same getPool fun _ => .bind_same getAsset fun _ => .pure rfl)
      fun _ _ hp => congrArg (fun p : Address × Address => Answer.config p.1 p.2) hp
  | queryAsset => exact .map getAsset fun _ _ ha => congrArg Answer.address ha
  | getVault => exact .map (getVault h) fun _ _ hv => congrArg Answer.vault hv
  | getAdmin => exact .map getAdmin fun _ _ ha => congrArg Answer.address ha
  | getSigner => exact .map getSigner fun _ _ ha => congrArg Answer.signer ha
  | getVaultSummary =>
    exact .map (getVaultSummary h hm) fun _ _ hs => congrArg Answer.summary hs
  | balance id => exact .map (getVaultShares id) fun _ _ hn => congrArg Answer.amount hn
  | decimals | name | symbol => exact .map (V := Eq) (.pure rfl) fun _ _ hn => congrArg _ hn
  | allowance from_ spender =>
    exact .map (V := Eq) (.bind_same (getAllowanceWithExpiration h from_ spender) fun p => .pure rfl)
      fun _ _ hn => congrArg Answer.amount hn

end Alike

section Runs
variable {Address W W' : Type} [DecidableEq Address] [FixedPoint] [SorobanFixedPoint] {Q : W → W' → Prop}
  {w t : World Address W} {w' : World Address W'} {ls : List (Label Address W)}
  {ls' : List (Label Address W')}

omit [SorobanFixedPoint] in
/-- What one vault does the other does. -/
theorem Step.mirrored {l : Label Address W} {l' : Label Address W'} (h : Step w l t)
    (hl : l.Mirrors Q l') (hw : w.Mirrors Q w') : ∃ t', Step w' l' t' ∧ t.Mirrors Q t' := by
  obtain ⟨a,f,hreturns,hresult,hf⟩ :=
    (Alike.exec hl.env l.call).returns (.fresh hw.storage hl.found) h.returns
  refine ⟨⟨f.storage,f.ext,l'.env.sequence⟩,⟨?_,rfl,?_⟩,hf.storage,hf.ext,?_⟩
  · rw [← hw.sequence,hl.env.sequence]
    exact h.later
  · rw [← hl.call,← hl.result,hresult,← hl.auths,← hl.events,← hl.flows,
      show l.auths = f.auths from hf.auths,show l.events = f.events from hf.events,
      show l.flows = f.flows from hf.flows]
    exact hreturns
  · rw [h.sequence,hl.env.sequence]

/-- From then on the two answer every call and every query alike. -/
def World.Agrees (Q : W → W' → Prop) (t : World Address W) (t' : World Address W') : Prop :=
  ∀ (e : Env Address W) (e' : Env Address W') (market : Address → MarketClient Address W)
    (market' : Address → MarketClient Address W') x x',
    e.Mirrors Q e' → (∀ pool, (market pool).Mirrors Q (market' pool)) → Q x x' →
    (∀ c, value (exec e c) (.fresh t.storage x) = value (exec e' c) (.fresh t'.storage x') ∧
      failure (exec e c) (.fresh t.storage x) = failure (exec e' c) (.fresh t'.storage x')) ∧
    ∀ q : Query Address,
      value (q.ask e market) (.fresh t.storage x) = value (q.ask e' market') (.fresh t'.storage x') ∧
      failure (q.ask e market) (.fresh t.storage x) =
        failure (q.ask e' market') (.fresh t'.storage x')

theorem World.Mirrors.agrees {t' : World Address W'} (h : t.Mirrors Q t') : t.Agrees Q t' := by
  intro e e' market market' x x' he hm hx
  have hfresh := Frame.Mirrors.fresh h.storage hx
  exact ⟨fun c => (Alike.exec he c).observed hfresh,fun q => (Alike.ask he hm q).observed hfresh⟩

omit [SorobanFixedPoint] in
theorem mirrored_of_run (hrun : Run Step w ls t) (hw : w.Mirrors Q w')
    (hls : List.Forall₂ (Label.Mirrors Q) ls ls') : ∃ t', Run Step w' ls' t' ∧ t.Mirrors Q t' :=
  hrun.follow (World.Mirrors Q) (Label.Mirrors Q) hls hw
    fun _ _ _ _ _ hstep hl ht => hstep.mirrored hl ht

omit [SorobanFixedPoint] in
/-- Two histories that mirror each other are possible together or not at all. -/
theorem run_iff_of_mirrors (hw : w.Mirrors Q w') (hls : List.Forall₂ (Label.Mirrors Q) ls ls') :
    (∃ t, Run Step w ls t) ↔ ∃ t', Run Step w' ls' t' := by
  constructor
  · intro h
    obtain ⟨t,hrun⟩ := h
    obtain ⟨t',hrun',-⟩ := mirrored_of_run hrun hw hls
    exact ⟨t',hrun'⟩
  · intro h
    obtain ⟨t',hrun'⟩ := h
    have hls' : List.Forall₂ (Label.Mirrors (flip Q)) ls' ls :=
      (hls.imp fun _ _ hl => hl.symm).flip
    obtain ⟨t,hrun,-⟩ := mirrored_of_run hrun' hw.symm hls'
    exact ⟨t,hrun⟩

/-- A pool is as good as any other that answers alike: the two vaults have the same histories, and
after each of them no call and no query tells one from the other. -/
theorem mirrored_vaults_agree (hw : w.Mirrors Q w')
    (hls : List.Forall₂ (Label.Mirrors Q) ls ls') :
    ((∃ t, Run Step w ls t) ↔ ∃ t', Run Step w' ls' t') ∧
      ∀ t, Run Step w ls t → ∃ t', Run Step w' ls' t' ∧ t.Agrees Q t' := by
  refine ⟨run_iff_of_mirrors hw hls,?_⟩
  intro t hrun
  obtain ⟨t',hrun',ht⟩ := mirrored_of_run hrun hw hls
  exact ⟨t',hrun',ht.agrees⟩

end Runs

section Host
variable {Address W : Type} [DecidableEq Address]

/-- Every stored allowance is kept for as long as it counts. -/
def Storage.Kept (s : Storage Address) : Prop :=
  ∀ key, s.allowances.lookup key = none ∨ ∃ a, s.Entered key a

/-- The same books, but for the rate kept in them and its date. -/
structure World.SameBooks (w w' : World Address W) : Prop where
  storage : w'.storage = {w.storage with vaultData := w'.storage.vaultData}
  fund : w.storage.vaultData.map VaultData.fund = w'.storage.vaultData.map VaultData.fund
  outside : w'.outside = w.outside
  sequence : w'.sequence = w.sequence

/-- The same call, but for what the host does with entries it no longer has to keep. -/
def Label.SameCall (l l' : Label Address W) : Prop :=
  l' = {l with env := {l.env with evicted := l'.env.evicted}}

namespace Storage
variable {s t : Storage Address} {e : Env Address W}

theorem Kept.congr (h : s.Kept) (hsame : t.allowances = s.allowances) : t.Kept := by
  intro key
  have hlookup : t.allowances.lookup key = s.allowances.lookup key := by rw [hsame]
  rcases h key with hnone | ⟨a,ha⟩
  · exact .inl (hlookup.trans hnone)
  · exact .inr ⟨a,ha.congr hlookup⟩

theorem Kept.withAllowance (h : s.Kept) (from_ spender : Address) (amount : ℤ)
    (expirationLedger : ℕ) : (s.withAllowance e from_ spender amount expirationLedger).Kept := by
  intro key
  by_cases hkey : key = ⟨from_,spender⟩
  · subst hkey
    exact .inr ⟨_,entered_withAllowance s e ⟨from_,spender⟩ amount expirationLedger⟩
  · have hlookup := lookup_withAllowance_of_ne (s := s) (e := e) hkey amount expirationLedger
    rcases h key with hnone | ⟨a,ha⟩
    · exact .inl (hlookup.trans hnone)
    · exact .inr ⟨a,ha.congr hlookup⟩

theorem Kept.delegates {owner operator : Address} {n : ℤ} (h : s.Kept)
    (hd : s.Delegates e owner operator n t) : t.Kept := by
  cases hd with
  | self _ => exact h
  | allowance _ _ => exact h.withAllowance _ _ _ _

end Storage

variable [FixedPoint] {w w' : World Address W} {l : Label Address W} {ls ms ms' : List (Label Address W)}

theorem Step.kept (h : Step w l w') (hw : w.storage.Kept) : w'.storage.Kept := by
  cases h.outcome with
  | withdraw _ _ _ _ _ _ delegates _ => exact (hw.delegates delegates).congr rfl
  | redeem _ _ _ _ _ _ _ _ delegates _ => exact (hw.delegates delegates).congr rfl
  | approve => exact hw.withAllowance _ _ _ _
  | transferFrom => exact (hw.withAllowance _ _ _ _).congr rfl
  | _ => exact hw.congr rfl

theorem Reaches.kept (h : Reaches ls w) : w.storage.Kept := by
  obtain ⟨w₀,hdeployed,hrun⟩ := h
  refine hrun.invariant (·.storage.Kept) ?_ fun _ _ _ hstep ht => hstep.kept ht
  obtain ⟨e,admin,pool,asset,blndToken,found,auths,-,hreturns⟩ := hdeployed.created
  obtain ⟨r,-,-,hg⟩ := EntryPoints.returns_constructor.mp hreturns
  intro key
  rw [show w₀.storage.allowances = ∅ from congrArg (·.storage.allowances) hg]
  exact .inl rfl

omit [FixedPoint] in
theorem World.SameBooks.mirrors (h : w.SameBooks w') (hkept : w.storage.Kept) :
    w.Mirrors Eq w' := by
  have hallowances : w'.storage.allowances = w.storage.allowances := by rw [h.storage]
  refine ⟨⟨?_,?_,h.fund,fun key => ?_⟩,h.outside.symm,h.sequence.symm⟩
  · rw [h.storage]
  · rw [h.storage]
    rfl
  · have hlookup : w'.storage.allowances.lookup key = w.storage.allowances.lookup key := by
      rw [hallowances]
    rcases hkept key with hnone | ⟨a,ha⟩
    · exact .inl ⟨hnone,hlookup.trans hnone⟩
    · exact .inr ⟨a,ha,ha.congr hlookup⟩

omit [FixedPoint] [DecidableEq Address] in
theorem PoolClient.mirrors_self (p : PoolClient Address W) : p.Mirrors Eq p where
  submit hx _ _ _ _ := by subst hx; exact optionRel_of_same fun _ => ⟨Eq.refl _,Eq.refl _⟩
  getReserve hx _ := by rw [hx]
  getPositions hx _ := by rw [hx]
  claim hx _ _ _ := by subst hx; exact optionRel_of_same fun _ => ⟨Eq.refl _,Eq.refl _⟩

omit [FixedPoint] [DecidableEq Address] in
/-- Two hosts that differ in what they do with expired entries only. -/
theorem Env.mirrors_evicted (e : Env Address W) (evicted : AllowanceKey Address → Bool) :
    e.Mirrors Eq {e with evicted} where
  sequence := rfl
  timestamp := rfl
  currentContractAddress := rfl
  signed := rfl
  again := rfl
  maxTtl := rfl
  pool pool := (e.pool pool).mirrors_self
  swap hx _ _ _ _ _ _ := by subst hx; exact optionRel_of_same fun _ => ⟨rfl,rfl⟩
  approve hx _ _ _ _ _ := by subst hx; exact optionRel_of_same fun _ => rfl

omit [FixedPoint] [DecidableEq Address] in
theorem Label.SameCall.mirrors {l' : Label Address W} (h : l.SameCall l') : l.Mirrors Eq l' := by
  rw [Label.SameCall] at h
  generalize l'.env.evicted = evicted at h
  subst h
  exact ⟨l.env.mirrors_evicted evicted,rfl,rfl,rfl,rfl,rfl,rfl⟩

/-- Neither the rate kept in storage, nor its date, nor what the host does with expired allowances
can be seen: from a vault that has been reached, the same histories follow whatever these are. -/
theorem host_choices_unobservable [SorobanFixedPoint] (h : Reaches ls w) (hbooks : w.SameBooks w')
    (hms : List.Forall₂ Label.SameCall ms ms') :
    ((∃ t, Run Step w ms t) ↔ ∃ t', Run Step w' ms' t') ∧
      ∀ t, Run Step w ms t → ∃ t', Run Step w' ms' t' ∧ t.Agrees Eq t' := by
  have hw := hbooks.mirrors h.kept
  have hls : List.Forall₂ (Label.Mirrors Eq) ms ms' := hms.imp fun _ _ hl => hl.mirrors
  refine ⟨run_iff_of_mirrors hw hls,?_⟩
  intro t hrun
  obtain ⟨t',hrun',ht⟩ := mirrored_of_run hrun hw hls
  exact ⟨t',hrun',ht.agrees⟩

end Host

section Sample
attribute [local instance] FixedPoint.documented SorobanFixedPoint.documented

/-- The reference pool with a count of its requests beside the position, on a host that never
drops an entry. -/
def countingEnv (r emissions : ℤ) (sequence : ℕ) : Env ℕ (ℤ × ℕ) where
  sequence
  timestamp := 0
  currentContractAddress := 0
  signed _ := true
  again _ := false
  maxTtl := 3110399
  evicted _ := false
  pool pool :=
    let reference := (referenceEnv r emissions sequence).pool pool
    { submit := fun p from_ spender to_ requests =>
        (reference.submit p.1 from_ spender to_ requests).map fun q => (q.1,q.2,p.2+requests.length)
      getReserve := fun p asset => reference.getReserve p.1 asset
      getPositions := fun p user => reference.getPositions p.1 user
      claim := fun p from_ ids to_ =>
        (reference.claim p.1 from_ ids to_).map fun q => (q.1,q.2,p.2) }
  router _ := { swapExactTokensForTokens := fun p amountIn _ _ _ _ => some ([amountIn,amountIn],p) }
  token _ := { approve := fun p _ _ _ _ => some p }

theorem answers_map {α W W' : Type} {Q : W → W' → Prop} {o : Option (α × W)} {k : W → W'}
    (h : ∀ x, Q x (k x)) : Answers Q o (o.map fun q => (q.1,k q.2)) := by
  cases o with
  | none => exact .none
  | some q => exact .some ⟨rfl,h q.2⟩

theorem countingEnv_mirrors (r emissions : ℤ) (sequence : ℕ) :
    (referenceEnv r emissions sequence).Mirrors (fun p q => p = q.1)
      (countingEnv r emissions sequence) where
  sequence := rfl
  timestamp := rfl
  currentContractAddress := rfl
  signed := rfl
  again := rfl
  maxTtl := rfl
  pool _ :=
    { submit := fun hx _ _ _ _ => by subst hx; exact answers_map (k := fun y => (y,_)) fun _ => rfl
      getReserve := fun _ _ => rfl
      getPositions := fun hx _ => by rw [hx]; rfl
      claim := fun hx _ _ _ => by subst hx; exact answers_map (k := fun y => (y,_)) fun _ => rfl }
  swap hx _ _ _ _ _ _ := .some ⟨rfl,hx⟩
  approve hx _ _ _ _ _ := .some hx

/-- The holder of twenty of thirty shares redeems seven, with the pool that also counts. -/
theorem mirrored_vaults_agree_sample : ∃ (l : Label ℕ (ℤ × ℕ)) (t : World ℕ (ℤ × ℕ)),
    l.call = .redeem 7 7 7 7 ∧ l.result = some 9 ∧ l.flows = [.withdrawn 7 9 9] ∧
      Run Step ⟨(referenceWorld ⟨0,scalar12,30,40⟩ [(7,20),(8,10)] 40).storage,(40,0),0⟩ [l] t := by
  obtain ⟨l,t,hstep,henv,hcall,hfound,hq⟩ := exists_step
    (referenceWorld ⟨0,scalar12,30,40⟩ [(7,20),(8,10)] 40) (referenceEnv scalar12 0 1)
    (.redeem 7 7 7 7) (fun l _ => l.result = some 9 ∧ l.flows = [.withdrawn 7 9 9]) (by decide)
  obtain ⟨hresult,hflows⟩ := of_decide_eq_true hq
  have hl : l.Mirrors (fun p q => p = q.1)
      ⟨countingEnv scalar12 0 1,l.call,(40,0),l.result,l.auths,l.events,l.flows⟩ :=
    ⟨henv ▸ countingEnv_mirrors scalar12 0 1,rfl,hfound,rfl,rfl,rfl,rfl⟩
  have hw : (referenceWorld ⟨0,scalar12,30,40⟩ [(7,20),(8,10)] 40).Mirrors (fun p q => p = q.1)
      (⟨(referenceWorld ⟨0,scalar12,30,40⟩ [(7,20),(8,10)] 40).storage,(40,0),0⟩ :
        World ℕ (ℤ × ℕ)) :=
    ⟨⟨rfl,rfl,rfl,fun _ => .inl ⟨rfl,rfl⟩⟩,rfl,rfl⟩
  obtain ⟨t',hrun⟩ := (mirrored_vaults_agree hw (.cons hl .nil)).1.mp ⟨t,.snoc .nil hstep⟩
  exact ⟨_,t',hcall,hresult,hflows,hrun⟩

/-- An expired allowance that one host drops and another keeps, over another stored rate: the
spender's transfer within the allowance that replaced it goes through alike. -/
theorem host_choices_unobservable_sample : ∃ (w : World ℕ ℤ) (l : Label ℕ ℤ) (t' : World ℕ ℤ),
    l.call = .transferFrom 8 7 9 5 ∧ l.env.evicted ⟨7,8⟩ = false ∧
      Run Step {w with storage := {w.storage with vaultData := some ⟨99,1,100,100⟩}} [l] t' := by
  obtain ⟨ls,w,hreaches,hq⟩ := exists_reaches (referenceEnv scalar12 0 0) 1 2 3 4 0
    (referenceCalls [((scalar12,0,1),.deposit 100 7 7 7),((scalar12,0,2),.approve 7 8 50 3),
      ((scalar12,0,5),.approve 7 8 20 9)])
    (fun _ w => w.storage.vaultData = some ⟨0,scalar12,100,100⟩ ∧
      (attempt w (referenceEnv scalar12 0 6) (.transferFrom 8 7 9 5)).isSome) (by decide)
  obtain ⟨hv,hattempt⟩ := of_decide_eq_true hq
  obtain ⟨l,t,hstep,henv,hcall,-,-⟩ := exists_step w (referenceEnv scalar12 0 6)
    (.transferFrom 8 7 9 5) (fun _ _ => true) (by rwa [Option.any_true])
  have hbooks : w.SameBooks
      {w with storage := {w.storage with vaultData := some ⟨99,1,100,100⟩}} := by
    refine ⟨rfl,?_,rfl,rfl⟩
    rw [hv]
    rfl
  have hls : List.Forall₂ Label.SameCall [l]
      [{l with env := {l.env with evicted := fun _ => false}}] := .cons rfl .nil
  obtain ⟨t',hrun⟩ := (host_choices_unobservable hreaches hbooks hls).1.mp ⟨t,.snoc .nil hstep⟩
  exact ⟨w,{l with env := {l.env with evicted := fun _ => false}},t',hcall,rfl,hrun⟩

end Sample
end BlendVault
