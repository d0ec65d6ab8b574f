import BlendVault.Foundations.UnitPrice
import BlendVault.System.Deposits
import BlendVault.System.Interest
import BlendVault.System.Staying

/-! How emissions reach the holders. Claims raise the price of a share, so that each holding takes
its part of what every one of them has brought; whatever else the others do, they leave it no more
than the price of one share each time they deposit or leave. -/
namespace BlendVault
open FailStop ProRata RoundedDivision

/-- The account whose shares a call mints or sends there. -/
def Call.credited {Address : Type} : Call Address → Option Address
  | .deposit _ receiver _ _ => some receiver
  | .transfer _ to_ _ => some to_
  | .transferFrom _ _ to_ _ => some to_
  | _ => none

/-- The call is about the shares of others. -/
def Call.Spares {Address : Type} (a : Address) (c : Call Address) : Prop :=
  c.debited ≠ some a ∧ c.credited ≠ some a

/-- How often a call rounds. -/
def Call.roundings {Address : Type} : Call Address → ℕ
  | .deposit _ _ _ _ => 1
  | .withdraw _ _ _ _ => 1
  | .redeem _ _ _ _ => 1
  | _ => 0

namespace VaultData
variable [FixedPoint] {v : VaultData} {held amount u b n : ℤ}

theorem Costs.shares_lt (h : v.Costs amount b n) (hS : 0 < v.totalShares)
    (hB : 0 < v.totalBTokens) : (n-1)*v.totalBTokens < b*v.totalShares := by
  rw [h.shares_eq hS hB]
  exact (lt_ceilDiv_iff hB).mp (sub_one_lt _)

/-- At a rate of at least one the bTokens burnt are the quote itself. -/
theorem Values.bTokens_eq_quote (h : v.Values n u b) (hr : scalar12 ≤ v.bRate)
    (hS : 0 < v.totalShares) : b = quote v.fund n := by
  rw [h.bTokens_eq (scalar12_pos.trans_le hr),h.underlying_eq hS]
  exact roundTrips_of_scalar12_le hr _

theorem Values.shares_lt (h : v.Values n u b) (hr : scalar12 ≤ v.bRate) (hv : v.fund.Backed)
    (hS : 0 < v.totalShares) : (n-1)*v.totalBTokens < b*v.totalShares := by
  have hlt := Int.lt_ediv_add_one_mul_self (n*v.totalBTokens) hS
  have hSB : v.totalShares ≤ v.totalBTokens := hv.2
  rw [h.bTokens_eq_quote hr hS]
  change n*v.totalBTokens < (quote v.fund n+1)*v.totalShares at hlt
  linarith [sub_mul n 1 v.totalBTokens,add_mul (quote v.fund n) 1 v.totalShares]

theorem Withdraws.shares_lt (h : v.Withdraws held amount u b n) (hr : scalar12 ≤ v.bRate)
    (hv : v.fund.Backed) (hS : 0 < v.totalShares) :
    (n-1)*v.totalBTokens < b*v.totalShares := by
  cases h with
  | plain cost _ => exact cost.shares_lt hS (hS.trans_le hv.2)
  | clamped _ _ _ value => exact value.shares_lt hr hv hS

end VaultData

section Emissions
variable {Address W : Type}

/-- The totals as a fund. -/
def World.fund (w : World Address W) : Fund ℤ :=
  (w.storage.vaultData.map VaultData.fund).getD ⟨0,0⟩

/-- The bTokens a claim has brought in for each share. -/
def Label.emitted (w : World Address W) (l : Label Address W) (w' : World Address W) : ℚ :=
  match l.call with
  | .claimEmissions _ => ((w'.fund.assets-w.fund.assets : ℤ) : ℚ)/w.fund.units
  | _ => 0

variable [DecidableEq Address] [FixedPoint]

/-- A step at a rate of at least one, along with what it has brought in for each share. -/
structure EmissionStep (w : World Address W) (p : Label Address W × ℚ) (w' : World Address W) :
    Prop where
  fair : FairStep w p.1 w'
  rates : p.1.Rates w.storage (scalar12 ≤ ·)
  emitted : p.2 = p.1.emitted w w'

variable {w w' w₀ t : World Address W} {l : Label Address W} {p : Label Address W × ℚ}
  {ls : List (Label Address W)} {ps : List (Label Address W × ℚ)} {v v₀ : VaultData} {a : Address}
  {pool asset receiver from_ owner operator : Address} {assets u moved b n : ℤ}

omit [DecidableEq Address] [FixedPoint] in
theorem World.fund_of (hv : w.storage.vaultData = some v) : w.fund = v.fund := by
  rw [World.fund,hv]
  rfl

theorem Step.sharesOf_of_spares (h : Step w l w') (ha : l.call.Spares a) :
    w'.storage.sharesOf a = w.storage.sharesOf a := by
  obtain ⟨hdebited,hcredited⟩ := ha
  cases h.accounts with
  | mint hm =>
    rw [hm.call] at hcredited
    rw [hm.sharesOf,if_neg fun h => hcredited (congrArg some h.symm)]
  | burn hb =>
    rw [hb.call.debited] at hdebited
    rw [hb.sharesOf,if_neg fun h => hdebited (congrArg some h.symm)]
  | move hm =>
    rw [hm.sharesOf,Storage.sharesOf_moved]
    rcases hm.call with hc | ⟨_,hc⟩ <;> rw [hc] at hdebited hcredited <;>
      rw [if_neg fun h => hcredited (congrArg some h.symm),
        if_neg fun h => hdebited (congrArg some h.symm)]
  | compound hc => exact hc.sharesOf a
  | idle hi => exact hi.sharesOf a

omit [DecidableEq Address] in
/-- Both ways out burn less than a share more than what leaves is worth. -/
theorem Exits.shares_lt {held : ℤ} {c : Call Address}
    (h : Exits v held receiver owner operator u b n c) (hr : scalar12 ≤ v.bRate)
    (hv : v.fund.Backed) (hS : 0 < v.totalShares) :
    (n-1)*v.totalBTokens < b*v.totalShares := by
  cases h with
  | withdraw _ out => exact out.shares_lt hr hv hS
  | redeem _ _ value _ => exact value.shares_lt hr hv hS

omit [DecidableEq Address] in
theorem Exits.roundings {held : ℤ} {c : Call Address}
    (h : Exits v held receiver owner operator u b n c) : c.roundings = 1 := by
  cases h <;> rfl

omit [DecidableEq Address] in
theorem Exits.emitted {held : ℤ} (h : Exits v held receiver owner operator u b n l.call)
    (w w' : World Address W) : l.emitted w w' = 0 := by
  rw [Label.emitted]
  split
  · rename_i m hc
    exact absurd hc h.ne_claimEmissions
  · rfl

theorem Mint.appreciates (h : Mint w l w' pool asset receiver from_ operator v assets moved b n)
    (hv₀ : w.storage.vaultData = some v₀) (hbacked : v₀.fund.Backed) {x : ℤ} (hx : 0 < x)
    (hle : x ≤ v₀.totalShares) :
    Fund.Appreciates x w.fund w'.fund (l.emitted w w') l.call.roundings := by
  have hS₀ : 0 < v₀.totalShares := hx.trans_le hle
  have hfund : v.fund = v₀.fund := Env.refreshed_fund h.rate hv₀
  have hS : 0 < v.totalShares := hS₀.trans_eq (Env.refreshed_totalShares h.rate hv₀).symm
  have hB : 0 < v.totalBTokens := hS.trans_le (hfund ▸ hbacked).2
  have hn := h.mints.shares_pos
  rw [Label.emitted,h.call,World.fund_of hv₀,World.fund_of h.vaultData,VaultData.fund_minted,← hfund]
  refine .of_dealing hS hB.le hx ?_ ?_ ?_
  · change x ≤ v.totalShares+n
    have hunits : v.totalShares = v₀.totalShares := congrArg Fund.units hfund
    omega
  · exact v.fund.priceLe_issue (h.mints.price hS hB.le)
  · exact Fund.priceWithin_issue (h.mints.shares_lt hS hB).le

theorem Burn.appreciates (h : Burn w l w' pool asset receiver owner operator v u moved b n)
    (hv₀ : w.storage.vaultData = some v₀) (hbacked : v₀.fund.Backed) {x : ℤ} (hx : 0 < x)
    (hle : x ≤ (v.burnt b n).totalShares) (hr : scalar12 ≤ v.bRate) :
    Fund.Appreciates x w.fund w'.fund (l.emitted w w') l.call.roundings := by
  have hfund : v.fund = v₀.fund := Env.refreshed_fund h.rate hv₀
  have hn := h.call.shares_pos.1
  have hS : 0 < v.totalShares := hn.trans_le h.releases.shares_le
  have hB : 0 < v.totalBTokens := hS.trans_le (hfund ▸ hbacked).2
  rw [h.call.emitted w w',h.call.roundings,World.fund_of hv₀,World.fund_of h.vaultData,VaultData.fund_burnt,
    ← hfund]
  refine .of_dealing hS hB.le hx hle ?_ ?_
  · exact v.fund.priceLe_cancel (h.call.price (scalar12_pos.trans_le hr) h.releases)
  · exact Fund.priceWithin_cancel (h.call.shares_lt hr (hfund ▸ hbacked) hS).le

omit [DecidableEq Address] [FixedPoint] in
theorem Compound.appreciates {received : ℤ} (h : Compound w l w' pool asset v received moved b)
    (hv₀ : w.storage.vaultData = some v₀) (hbacked : v₀.fund.Backed) (hb : v₀.totalBTokens ≤ b)
    (x : ℤ) : Fund.Appreciates x w.fund w'.fund (l.emitted w w') l.call.roundings := by
  obtain ⟨m,hcall⟩ := h.call
  have hunits : v.totalShares = v₀.totalShares := Env.refreshed_totalShares h.rate hv₀
  have hfund : w'.fund = ⟨v₀.fund.units,b⟩ := by
    rw [World.fund_of h.vaultData]
    exact congrArg (Fund.mk · b) hunits
  rw [Label.emitted,hcall,hfund,World.fund_of hv₀]
  exact .of_gain hbacked.1 hb

omit [DecidableEq Address] [FixedPoint] in
/-- A call that leaves the totals alone emits nothing. -/
theorem Label.emitted_of_same (hfund : w'.fund = w.fund) : l.emitted w w' = 0 := by
  unfold Label.emitted
  split
  · simp [hfund]
  · rfl

omit [DecidableEq Address] [FixedPoint] in
theorem appreciates_of_same (hsame : w'.storage.vaultData = w.storage.vaultData)
    (hcall : l.call.roundings = 0) (x : ℤ) :
    Fund.Appreciates x w.fund w'.fund (l.emitted w w') l.call.roundings := by
  have hfund : w'.fund = w.fund := by
    rw [World.fund,World.fund,hsame]
  rw [Label.emitted_of_same hfund,hcall,hfund]
  exact .refl x w.fund

theorem EmissionStep.appreciates (h : EmissionStep w p w') (hw : Orderly w)
    (ha : p.1.call.Spares a) (hheld : 0 < w.storage.sharesOf a) :
    Fund.Appreciates (w.storage.sharesOf a) w.fund w'.fund p.2 p.1.call.roundings := by
  obtain ⟨l,x⟩ := p
  obtain ⟨hfair,hrates,hx⟩ := h
  dsimp only at hfair hrates hx ha ⊢
  rw [hx]
  obtain ⟨v₀,hv₀,hbacked⟩ := hw.backed
  have hw' := hfair.orderly hw
  have hkept := hfair.sound.step.sharesOf_of_spares ha
  cases hfair.sound.step.accounts with
  | mint hm => exact hm.appreciates hv₀ hbacked hheld (hw.sharesOf_le hv₀ a)
  | burn hb =>
    exact hb.appreciates hv₀ hbacked hheld (hkept ▸ hw'.sharesOf_le hb.vaultData a)
      (hrates.of_refreshed hb.serves hb.rate)
  | move hm =>
    refine appreciates_of_same hm.vaultData ?_ _
    rcases hm.call with hc | ⟨_,hc⟩ <;> rw [hc] <;> rfl
  | compound hc =>
    obtain ⟨m,hcall⟩ := hc.call
    exact hc.appreciates hv₀ hbacked
      (hfair.sound.reports m _ _ _ _ hcall hc.serves hv₀ hc.reported) _
  | idle hi =>
    refine appreciates_of_same hi.vaultData ?_ _
    have hbookless := hi.call
    cases hc : l.call <;> rw [hc] at hbookless <;> first | rfl | exact hbookless.elim

/-- What a holding has come to, in calls that spare it. -/
structure Watched (a : Address) (w : World Address W) (ps : List (Label Address W × ℚ))
    (t : World Address W) : Prop where
  orderly : Orderly t
  kept : t.storage.sharesOf a = w.storage.sharesOf a
  appreciates : Fund.Appreciates (w.storage.sharesOf a) w.fund t.fund (ps.map Prod.snd).sum
    (ps.map fun p => p.1.call.roundings).sum

theorem watched_of_run (hw : Orderly w) (hheld : 0 < w.storage.sharesOf a)
    (hrun : Run EmissionStep w ps t) (hspares : ∀ p ∈ ps, p.1.call.Spares a) : Watched a w ps t := by
  refine (hrun.with_labels hspares).history (Watched a w) ⟨hw,rfl,.refl _ _⟩ ?_
  rintro ps t p u ⟨hstep,ha⟩ ⟨ht,hkept,happreciates⟩
  refine ⟨hstep.fair.orderly ht,?_,?_⟩
  · rw [hstep.fair.sound.step.sharesOf_of_spares ha,hkept]
  · have hlast := hstep.appreciates ht ha (hkept.symm ▸ hheld)
    rw [hkept] at hlast
    rw [List.map_append,List.sum_append,List.map_append,List.sum_append]
    simpa using happreciates.trans hlast

/-- Emissions are shared out by holding. Over any run of others at rates of at least one, the worth of
a holder's shares in bTokens grows by their part of every claim, and beyond it by no more than the
price of a share for each deposit and each exit; the quote is that worth rounded down once. -/
theorem emissions_shared_pro_rata (h₀ : Deployed w₀) (hbefore : Run FairStep w₀ ls w)
    (hheld : 0 < w.storage.sharesOf a) (hrun : Run EmissionStep w ps t)
    (hspares : ∀ p ∈ ps, p.1.call.Spares a) :
    ∃ v v', w.storage.vaultData = some v ∧ t.storage.vaultData = some v' ∧
      t.storage.sharesOf a = w.storage.sharesOf a ∧
      v'.exactBTokens (t.storage.sharesOf a) = ⌊v'.fund.valueOf (w.storage.sharesOf a)⌋ ∧
      v.fund.valueOf (w.storage.sharesOf a)+w.storage.sharesOf a*(ps.map Prod.snd).sum ≤
        v'.fund.valueOf (w.storage.sharesOf a) ∧
      v'.fund.valueOf (w.storage.sharesOf a) ≤
        v.fund.valueOf (w.storage.sharesOf a)+w.storage.sharesOf a*(ps.map Prod.snd).sum+
          (ps.map fun p => p.1.call.roundings).sum*v'.fund.price := by
  have hw := orderly_of_run h₀ hbefore
  obtain ⟨ht,hkept,happreciates⟩ := watched_of_run hw hheld hrun hspares
  obtain ⟨v,hv,-⟩ := hw.backed
  obtain ⟨v',hv',-⟩ := ht.backed
  rw [World.fund_of hv,World.fund_of hv'] at happreciates
  have hS : 0 < v'.totalShares := (hkept.symm ▸ hheld).trans_le (ht.sharesOf_le hv' a)
  refine ⟨v,v',hv,hv',hkept,?_,happreciates.value_le hheld.le,happreciates.within⟩
  rw [hkept,VaultData.exactBTokens_eq_quote hheld hS]
  exact (Fund.floor_valueOf hS _).symm

def Flow.supplies {Address : Type} : Flow Address → ℤ
  | .supplied _ amount _ => amount
  | .withdrawn _ _ _ => 0

omit [DecidableEq Address] [FixedPoint] in
theorem Label.suppliesNonneg_iff : l.SuppliesNonneg ↔ ∀ f ∈ l.flows, 0 ≤ f.supplies := by
  constructor
  · intro h f hf
    cases f with
    | supplied from_ amount moved => exact h from_ amount moved hf
    | withdrawn => exact le_rfl
  · intro h from_ amount moved hmem
    exact h _ hmem

instance : Decidable l.SuppliesNonneg := decidable_of_iff' _ Label.suppliesNonneg_iff

/-- A step on an exact pool at a rate of at least one that is no transfer to oneself. -/
structure ExactEmissionStep (position : W → ℤ) (ρ : Label Address W → ℤ) (w : World Address W)
    (l : Label Address W) (w' : World Address W) : Prop where
  rated : RatedStep position ρ w l w'
  apart : ¬ l.call.SelfTransfer
  rate_ge : scalar12 ≤ ρ l

/-- Where nothing negative is supplied these are fair. -/
theorem fair_of_exact {position : W → ℤ} {ρ : Label Address W → ℤ} (hw : Tracks position w)
    (hrun : Run (ExactEmissionStep position ρ) w ls t) (hnonneg : ∀ l ∈ ls, l.SuppliesNonneg) :
    Tracks position t ∧
      Run (fun w l w' => FairStep w l w' ∧ l.Rates w.storage (scalar12 ≤ ·)) w ls t := by
  have hkeep : ∀ t l u, ExactEmissionStep position ρ t l u → Tracks position t →
      Tracks position u := fun t l u hstep ht => (hstep.rated.exactStep.tracks ht).1
  refine ⟨hrun.invariant (Tracks position) hw hkeep,?_⟩
  refine ((hrun.within (Tracks position) hw hkeep).with_labels hnonneg).mono ?_
  rintro t l u ⟨⟨hstep,ht⟩,hl⟩
  refine ⟨⟨hstep.rated.exactStep.sound ht hl,hstep.apart⟩,?_⟩
  intro pool asset ext r hserves hr
  rw [(hstep.rated.exact pool asset hserves).rate hr]
  exact hstep.rate_ge

end Emissions

section Sample
attribute [local instance] FixedPoint.documented

theorem exactEmissionStep_of_referenceCalls (cs : List ((ℤ × ℤ × ℕ) × Call ℕ))
    (hr : ∀ c ∈ cs, scalar12 ≤ c.1.1) (hapart : ∀ c ∈ cs, ¬ c.2.SelfTransfer) (t : World ℕ ℤ)
    (l : Label ℕ ℤ) (u : World ℕ ℤ) (hstep : Step t l u) (hfound : l.found = t.outside)
    (hmem : (l.env,l.call) ∈ referenceCalls cs) :
    ExactEmissionStep id referenceRate t l u := by
  have hrated := ratedStep_of_referenceCalls cs (fun c hc => scalar12_pos.trans_le (hr c hc)) hstep
    hfound hmem
  refine ⟨hrated,call_of_referenceCalls (P := fun c => ¬ c.SelfTransfer) hapart hmem,?_⟩
  obtain ⟨c,hc,hcall⟩ := List.mem_map.mp hmem
  have henv : referenceEnv c.1.1 c.1.2.1 c.1.2.2 = l.env := congrArg Prod.fst hcall
  rw [referenceRate,← henv]
  exact hr c hc

/-- Account 7 holds a hundred shares through two claims, between which account 8 deposits and leaves
at rates that move. -/
theorem emissions_shared_pro_rata_sample : ∃ (ps : List (Label ℕ ℤ × ℚ)) (v v' : VaultData),
    ps.map (fun p => p.1.call) = [.claimEmissions 0,.deposit 33 8 8 8,.redeem 41 8 8 8,
      .claimEmissions 0] ∧
    v.totalShares = 150 ∧ v.totalBTokens = 150 ∧ v'.totalShares = 131 ∧ v'.totalBTokens = 200 ∧
    v.fund.valueOf 100+100*(ps.map Prod.snd).sum ≤ v'.fund.valueOf 100 ∧
    v'.fund.valueOf 100 ≤ v.fund.valueOf 100+100*(ps.map Prod.snd).sum+2*v'.fund.price := by
  obtain ⟨w₀,ls,w,hdeploy,hrun,hq⟩ := exists_run (e := referenceEnv scalar12 0 0)
    (exactEmissionStep_of_referenceCalls [((scalar12,0,1),.setRouter 5),
      ((scalar12,0,1),.deposit 100 7 7 7),((scalar12,0,1),.deposit 50 8 8 8)] (by decide)
      (by simp [Call.SelfTransfer]))
    (fun (ls : List (Label ℕ ℤ)) (w : World ℕ ℤ) => decide ((∀ l ∈ ls, l.SuppliesNonneg) ∧ w.storage.sharesOf 7 = 100 ∧
        w.storage.vaultData = some ⟨0,scalar12,150,150⟩) &&
      (replay w (referenceCalls [((1200000000000,40,2),.claimEmissions 0),
          ((1200000000000,0,2),.deposit 33 8 8 8),((1500000000000,0,3),.redeem 41 8 8 8),
          ((1500000000000,60,3),.claimEmissions 0)])).any
        fun (p : List (Label ℕ ℤ) × World ℕ ℤ) => decide (p.1.map Label.call =
            [.claimEmissions 0,.deposit 33 8 8 8,.redeem 41 8 8 8,.claimEmissions 0] ∧ (∀ l ∈ p.1, l.SuppliesNonneg) ∧
          p.2.storage.vaultData = some ⟨0,1500000000000,131,200⟩))
    (show (simulate _ 1 2 3 4 0 _).any _ = true by decide)
  obtain ⟨hq,hreplay⟩ := Bool.and_eq_true_iff.mp hq
  obtain ⟨hnonneg,hheld,hfund⟩ := of_decide_eq_true hq
  obtain ⟨⟨ms,t⟩,hreplay,hq⟩ := (Option.any_eq_true _ _).mp hreplay
  obtain ⟨hcalls,hnonneg',hfund'⟩ := of_decide_eq_true hq
  have hafter : Run (ExactEmissionStep id referenceRate) w ms t := by
    refine (replay_run hreplay).mono ?_
    rintro t l u ⟨hstep,hfound,hmem⟩
    exact exactEmissionStep_of_referenceCalls _ (by decide) (by simp [Call.SelfTransfer]) t l u hstep
      hfound hmem
  obtain ⟨hw,hbefore⟩ := fair_of_exact (exactDeployed_of_deploy hdeploy).tracks hrun hnonneg
  obtain ⟨ps,hps,hannotated⟩ := (fair_of_exact hw hafter hnonneg').2.annotate
    fun w l w' => l.emitted w w'
  have hemission : Run EmissionStep w ps t := hannotated.mono fun _ _ _ h => ⟨h.1.1,h.1.2,h.2⟩
  have hmap : ps.map (fun p => p.1.call) = ms.map Label.call := by
    rw [← hps,List.map_map]
    rfl
  have hspares : ∀ p ∈ ps, p.1.call.Spares 7 := by
    intro p hp
    have hmem : p.1.call ∈ ps.map fun p => p.1.call := List.mem_map_of_mem hp
    rw [hmap,hcalls] at hmem
    simp only [List.mem_cons,List.not_mem_nil,or_false] at hmem
    rcases hmem with hc | hc | hc | hc <;> rw [hc] <;> exact ⟨by decide,by decide⟩
  obtain ⟨v,v',hv,hv',hkept,-,hge,hle⟩ := emissions_shared_pro_rata (deploy_deployed hdeploy)
    (hbefore.mono fun _ _ _ h => h.1) (by rw [hheld]; decide) hemission hspares
  cases hv.symm.trans hfund
  cases hv'.symm.trans hfund'
  have hroundings : (ps.map fun p => p.1.call.roundings).sum = 2 := by
    have hsum : ps.map (fun p => p.1.call.roundings) =
        (ps.map fun p => p.1.call).map Call.roundings := by
      rw [List.map_map]
      rfl
    rw [hsum,hmap,hcalls]
    rfl
  rw [hroundings,hheld] at hle
  rw [hheld] at hge
  exact ⟨ps,_,_,hmap.trans hcalls,rfl,rfl,rfl,rfl,hge,hle⟩

end Sample
end BlendVault
