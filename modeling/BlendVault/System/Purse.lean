import BlendVault.Foundations.Machine
import BlendVault.System.Backing

/-! Accounts side by side. Until emissions come in, at rates of at least one, an account is a purse
of its own: what it holds and what its calls bring follow from these calls and their rates alone,
whatever the others do in between. -/
namespace BlendVault
open FailStop RoundedDivision ProRata

/-- What happens to the shares of one account, at the rate of the call where that matters. -/
inductive OwnCall
  | deposit (assets r : ℤ)
  | withdraw (assets r : ℤ)
  | redeem (shares r : ℤ)
  | send (amount : ℤ)
  | receive (amount : ℤ)
  | sendToSelf (amount : ℤ)
  deriving Repr, DecidableEq

/-- What a call has returned, and the amounts it has asked the pool to move. -/
structure Receipt where
  result : Option ℤ
  asked : List ℤ
  deriving Repr, DecidableEq

/-- An account that nobody else has a part in. -/
def purse : Machine ℤ OwnCall Receipt
  | held,.deposit assets r => (held+assets*scalar12/r,⟨some (assets*scalar12/r),[assets]⟩)
  | held,.withdraw assets r =>
    if ceilDiv (assets*scalar12) r ≤ held then
      (held-ceilDiv (assets*scalar12) r,⟨some (ceilDiv (assets*scalar12) r),[assets]⟩)
    else (0,⟨some held,[held*r/scalar12]⟩)
  | held,.redeem shares r => (held-shares,⟨some (shares*r/scalar12),[shares*r/scalar12]⟩)
  | held,.send amount => (held-amount,⟨none,[]⟩)
  | held,.receive amount => (held+amount,⟨none,[]⟩)
  | held,.sendToSelf amount => (held+amount,⟨none,[]⟩)

section Accounts
variable {Address W : Type} [DecidableEq Address]

def Flow.asked : Flow Address → ℤ
  | .supplied _ amount _ => amount
  | .withdrawn _ amount _ => amount

/-- What a transfer is to `a`. -/
def transferOf (a from_ to_ : Address) (amount : ℤ) : Option OwnCall :=
  if a = from_ then if from_ = to_ then some (.sendToSelf amount) else some (.send amount)
  else if a = to_ then some (.receive amount) else none

/-- What a call at a rate of `r` is to `a`. -/
def Call.own (a : Address) (r : ℤ) : Call Address → Option OwnCall
  | .deposit assets receiver _ _ => if a = receiver then some (.deposit assets r) else none
  | .withdraw assets _ owner _ => if a = owner then some (.withdraw assets r) else none
  | .redeem shares _ owner _ => if a = owner then some (.redeem shares r) else none
  | .transfer from_ to_ amount => transferOf a from_ to_ amount
  | .transferFrom _ from_ to_ amount => transferOf a from_ to_ amount
  | _ => none

/-- A call and the rate it was made at, as far as it concerns `a`. -/
def ownCall (a : Address) (p : Label Address W × ℤ) : Option OwnCall := p.1.call.own a p.2

def receipt (p : Label Address W × ℤ) : Receipt := ⟨p.1.result,p.1.flows.map Flow.asked⟩

variable [FixedPoint] {w w' w₀ : World Address W} {p : Label Address W × ℤ}

/-- A step at a rate of at least one, the same throughout the call, in which no claim pays out. -/
structure PricedStep (w : World Address W) (p : Label Address W × ℤ) (w' : World Address W) :
    Prop where
  premium : PremiumStep w p.1 w'
  rate : p.1.Rates w.storage (· = p.2)

omit [DecidableEq Address] [FixedPoint] in
theorem AtPar.refreshed_nonneg (hw : AtPar w) {e : Env Address W} {pool asset : Address} {ext : W}
    {v : VaultData} (hv : e.refreshed pool asset ext w.storage = some v) : 0 ≤ v.totalShares := by
  obtain ⟨v₀,hv₀,h0,-⟩ := hw
  exact (Env.refreshed_totalShares hv hv₀).symm ▸ h0

/-- At par a withdrawal is the purse's own. -/
theorem purse_withdraw {v : VaultData} {held assets u b n : ℤ} (hpar : v.totalShares = v.totalBTokens)
    (hr : 0 < v.bRate) (out : v.Withdraws held assets u b n) (hn : n ≤ v.totalShares) :
    purse held (.withdraw assets v.bRate) = (held-n,⟨some n,[u]⟩) := by
  cases out with
  | plain cost enough =>
    have hS : 0 < v.totalShares := cost.shares_pos.trans_le hn
    have heq := cost.shares_eq_bTokens hpar hS
    rw [cost.bTokens_eq hr] at heq
    rw [heq] at enough ⊢
    simp [purse,enough]
  | @clamped b₀ s₀ _ _ cost short held_pos value =>
    have hS : 0 < v.totalShares := held_pos.trans_le hn
    have heq := cost.shares_eq_bTokens hpar hS
    rw [cost.bTokens_eq hr] at heq
    rw [heq] at short
    have hu := value.underlying_eq_of_par hpar hS
    simp [purse,not_le.mpr short,hu]

omit [FixedPoint] in
/-- A transfer in the purses of those it is between, and in those of all others. -/
theorem purse_transfer {s : Storage Address} {from_ to_ : Address} {amount : ℤ} (a : Address) :
    (∀ c, transferOf a from_ to_ amount = some c →
      purse (s.sharesOf a) c = ((s.moved from_ to_ amount).sharesOf a,⟨none,[]⟩)) ∧
    (transferOf a from_ to_ amount = none →
      (s.moved from_ to_ amount).sharesOf a = s.sharesOf a) := by
  rw [Storage.sharesOf_moved]
  unfold transferOf
  by_cases hfrom : a = from_
  · subst hfrom
    by_cases hto : a = to_
    · simp [purse,← hto]
    · simp [purse,hto]
  · by_cases hto : a = to_
    · simp [purse,← hto,hfrom]
    · simp [hfrom,hto]

theorem PricedStep.purse_component (h : PricedStep w p w') (hw : AtPar w) (a : Address) :
    purse.Component (fun w => w.storage.sharesOf a) (ownCall a) receipt w p w' := by
  obtain ⟨l,r⟩ := p
  obtain ⟨⟨hstep,hpremium,hunclaimed⟩,hprice⟩ := h
  dsimp only at hstep hpremium hunclaimed hprice
  cases hstep.outcome with
  | @deposit e found ext assets moved b n receiver from_ operator pool asset v granted assets_pos
      serves supplied rate mints shares_fit bTokens_fit =>
    have hr := hpremium.of_refreshed serves rate
    have hrate : v.bRate = r := hprice.of_refreshed serves rate
    have hn : n = assets*scalar12/r := by
      rw [mints.shares_eq_bTokens (hw.refreshed rate) (hw.refreshed_nonneg rate),
        mints.bTokens_eq (scalar12_pos.trans_le hr),hrate]
    by_cases ha : a = receiver
    · subst ha
      constructor <;> simp [ownCall,Call.own,purse,receipt,Flow.asked,hn,Storage.sharesOf_settled]
    · constructor <;> simp [ownCall,Call.own,ha,Storage.sharesOf_settled]
  | @withdraw e found ext assets u moved b n receiver owner operator pool asset v t granted
      assets_pos serves rate out releases delegates paid =>
    have hr := scalar12_pos.trans_le (hpremium.of_refreshed serves rate)
    have hrate : v.bRate = r := hprice.of_refreshed serves rate
    have hpurse := purse_withdraw (hw.refreshed rate) hr out releases.shares_le
    rw [hrate] at hpurse
    by_cases ha : a = owner
    · subst ha
      constructor <;> simp [ownCall,Call.own,receipt,Flow.asked,hpurse,Storage.sharesOf_settled]
    · constructor <;>
        simp [ownCall,Call.own,ha,Storage.sharesOf_settled,delegates.sharesOf]
  | @redeem e found ext u moved b n receiver owner operator pool asset v t granted shares_pos serves
      rate enough value underlying_pos releases delegates paid =>
    have hrate : v.bRate = r := hprice.of_refreshed serves rate
    have hu := value.underlying_eq_of_par (hw.refreshed rate) (shares_pos.trans_le releases.shares_le)
    rw [hrate] at hu
    by_cases ha : a = owner
    · subst ha
      constructor <;> simp [ownCall,Call.own,purse,receipt,Flow.asked,hu,Storage.sharesOf_settled]
    · constructor <;>
        simp [ownCall,Call.own,ha,Storage.sharesOf_settled,delegates.sharesOf]
  | transfer _ moves => exact ⟨(purse_transfer a).1,(purse_transfer a).2⟩
  | transferFrom _ _ moves => exact ⟨(purse_transfer a).1,(purse_transfer a).2⟩
  | compound => cases hunclaimed _ rfl
  | _ =>
    refine ⟨fun _ h => ?_,fun _ => rfl⟩
    cases h

/-- Until emissions come in, at rates of at least one, what an account holds and the receipts for its
calls are those of a purse that sees only these calls and their rates: what the others do, and in
which order, is nothing to it. -/
theorem account_is_a_purse {ps : List (Label Address W × ℤ)} (h₀ : Deployed w₀)
    (hrun : Run PricedStep w₀ ps w) (a : Address) :
    Machine.run purse 0 (Machine.inputs (ownCall a) ps) =
      (w.storage.sharesOf a,Machine.answers (ownCall a) receipt ps) := by
  obtain ⟨t,r,hv₀⟩ := h₀.vaultData
  have hpar : AtPar w₀ := ⟨_,hv₀,le_rfl,rfl⟩
  have h := Machine.run_inputs purse (fun w => w.storage.sharesOf a) (ownCall a) receipt AtPar hrun
    hpar fun _ _ _ hstep hw => ⟨(hstep.premium.atPar hw).1,hstep.purse_component hw a⟩
  rwa [h₀.sharesOf a] at h

end Accounts

section Sample
attribute [local instance] FixedPoint.documented

/-- The rate the pool reports in a call, along with the call. -/
def Label.priced (l : Label ℕ ℤ) : Label ℕ ℤ × ℤ := (l,(l.env.bRate 2 3 0).getD 0)

theorem pricedStep_of_referenceCalls (cs : List ((ℤ × ℤ × ℕ) × Call ℕ))
    (hr : ∀ c ∈ cs, scalar12 ≤ c.1.1) (hcs : ∀ c ∈ cs, ∀ m, c.2 ≠ .claimEmissions m)
    {t u : World ℕ ℤ} {l : Label ℕ ℤ} (hstep : Step t l u)
    (hmem : (l.env,l.call) ∈ referenceCalls cs) : PricedStep t l.priced u := by
  have hcall := call_of_referenceCalls (P := fun c => ∀ m, c ≠ .claimEmissions m) hcs hmem
  refine ⟨⟨hstep,rates_of_referenceCalls hr hmem,fun m hc => absurd hc (hcall m)⟩,?_⟩
  obtain ⟨c,-,hc⟩ := List.mem_map.mp hmem
  have henv : referenceEnv c.1.1 c.1.2.1 c.1.2.2 = l.env := congrArg Prod.fst hc
  intro pool asset ext r _ hr
  change l.env.bRate pool asset ext = some r at hr
  change r = (l.env.bRate 2 3 0).getD 0
  rw [← henv] at hr ⊢
  cases hr
  rfl

/-- Account 7 among others: its calls alone tell what it holds and what they brought. -/
theorem account_is_a_purse_sample : ∃ (ps : List (Label ℕ ℤ × ℤ)) (w : World ℕ ℤ),
    ps.map (fun p => p.1.call) = [.deposit 20 7 7 7,.deposit 9 8 8 8,.withdraw 5 7 7 7,
      .transfer 8 7 3,.redeem 2 8 8 8,.withdraw 99 7 7 7] ∧
    Machine.run purse 0 [.deposit 20 1100000000000,.withdraw 5 1300000000000,.receive 3,
      .withdraw 99 1700000000000] = (w.storage.sharesOf 7,Machine.answers (ownCall 7) receipt ps) := by
  have hpriced := fun (t : World ℕ ℤ) l u hstep (_ : l.found = t.outside) hmem =>
    pricedStep_of_referenceCalls (t := t) (u := u) (l := l)
      [((1100000000000,0,1),.deposit 20 7 7 7),((1200000000000,0,2),.deposit 9 8 8 8),
        ((1300000000000,0,3),.withdraw 5 7 7 7),((1300000000000,0,3),.transfer 8 7 3),
        ((1600000000000,0,4),.redeem 2 8 8 8),((1700000000000,0,4),.withdraw 99 7 7 7)]
      (by decide) (by simp) hstep hmem
  obtain ⟨w₀,ls,w,hdeploy,hrun,hq⟩ := exists_run (e := referenceEnv 1100000000000 0 0) hpriced
    (fun ls _ => (ls.map Label.priced).map (fun p => p.1.call) = [.deposit 20 7 7 7,
        .deposit 9 8 8 8,.withdraw 5 7 7 7,.transfer 8 7 3,.redeem 2 8 8 8,.withdraw 99 7 7 7] ∧
      Machine.inputs (ownCall 7) (ls.map Label.priced) = [.deposit 20 1100000000000,
        .withdraw 5 1300000000000,.receive 3,.withdraw 99 1700000000000])
    (show (simulate _ 1 2 3 4 0 _).any _ = true by decide)
  obtain ⟨hcalls,hinputs⟩ := of_decide_eq_true hq
  have h := account_is_a_purse (deploy_deployed hdeploy) (hrun.relabel Label.priced) 7
  rw [hinputs] at h
  exact ⟨_,w,hcalls,h⟩

end Sample
end BlendVault
