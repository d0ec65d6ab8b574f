import Mathlib.Algebra.Group.Prod
import BlendVault.System.Requests

/-! What the events of a run say was moved, against what was. A deposit and a redemption report
what they did; a withdrawal reports the underlying it was asked for, which is not what it paid
when the request was cut down to the holding. -/
namespace BlendVault
open FailStop RoundedDivision ProRata

section Reports
variable {Address W : Type}

/-- The underlying, the shares and the bTokens an event says the vault gained. -/
def Event.reports : Event Address → Option (ℤ × ℤ × ℤ)
  | .vaultDeposit _ _ _ amount shares bTokens => some (amount,shares,bTokens)
  | .vaultWithdraw _ _ _ amount shares bTokens => some (-amount,-shares,-bTokens)
  | .vaultEmissionsClaim _ _ _ => none
  | .transfer _ _ _ => none
  | .approve _ _ _ _ => none

/-- The underlying a request moved into the pool. -/
def Flow.inflow : Flow Address → ℤ
  | .supplied _ _ moved => moved
  | .withdrawn _ _ moved => -moved

/-- The pool moved what it was asked to. -/
def Flow.Exact : Flow Address → Prop
  | .supplied _ amount moved => moved = amount
  | .withdrawn _ amount moved => moved = amount

instance : DecidablePred (Flow.Exact : Flow Address → Prop) := fun φ =>
  match φ with
  | .supplied _ amount moved => inferInstanceAs (Decidable (moved = amount))
  | .withdrawn _ amount moved => inferInstanceAs (Decidable (moved = amount))

namespace Label
variable (l : Label Address W)

/-- What the call's events say was gained. -/
def reports : List (ℤ × ℤ × ℤ) := l.events.filterMap Event.reports

/-- The underlying the call moved into the pool. -/
def inflow : ℤ := (l.flows.map Flow.inflow).sum

/-- The pool moved what it was asked to throughout the call. -/
def Exact : Prop := ∀ φ ∈ l.flows, φ.Exact

end Label

instance : DecidablePred (Label.Exact : Label Address W → Prop) := fun l =>
  inferInstanceAs (Decidable (∀ φ ∈ l.flows, φ.Exact))

/-- The call reports once, and what it reports is what has changed. -/
def Truthful (w : World Address W) (l : Label Address W) (w' : World Address W) : Prop :=
  ∃ v v', w.storage.vaultData = some v ∧ w'.storage.vaultData = some v' ∧
    l.reports =
      [(l.inflow,v'.totalShares-v.totalShares,v'.totalBTokens-v.totalBTokens)]

variable [DecidableEq Address] [FixedPoint]

/-- A withdrawal does not cost more shares than the owner has. -/
def Label.Unclamped (w : World Address W) (l : Label Address W) : Prop :=
  ∀ assets receiver owner operator pool asset v,
    l.call = .withdraw assets receiver owner operator → w.storage.Serves pool asset →
    l.env.refreshed pool asset l.found w.storage = some v →
      v.Affords (w.storage.sharesOf owner) assets

/-- A deposit or an exit for which the pool moves exactly what it is asked to. -/
structure LoggedStep (w : World Address W) (l : Label Address W) (w' : World Address W) :
    Prop where
  step : Step w l w'
  trades : l.call.Trades
  exact : l.Exact

end Reports

section Step
variable {Address W : Type} [DecidableEq Address] [FixedPoint] {w w' : World Address W}
  {l : Label Address W} {v : VaultData} {pool asset receiver from_ owner operator : Address}
  {assets u moved b n : ℤ}

theorem Mint.inflow_eq (h : Mint w l w' pool asset receiver from_ operator v assets moved b n)
    (hexact : l.Exact) : l.inflow = assets := by
  have hmoved : moved = assets :=
    hexact (.supplied from_ assets moved) (h.flows ▸ List.mem_singleton_self _)
  rw [Label.inflow,h.flows,hmoved]
  simp [Flow.inflow]

theorem Burn.inflow_eq (h : Burn w l w' pool asset receiver owner operator v u moved b n)
    (hexact : l.Exact) : l.inflow = -u := by
  have hmoved : moved = u :=
    hexact (.withdrawn receiver u moved) (h.flows ▸ List.mem_singleton_self _)
  rw [Label.inflow,h.flows,hmoved]
  simp [Flow.inflow]

theorem Mint.truthful (h : Mint w l w' pool asset receiver from_ operator v assets moved b n)
    (hexact : l.Exact) : Truthful w l w' := by
  obtain ⟨v₀,hv₀,-,-⟩ := Env.refreshed_eq_some.mp h.rate
  refine ⟨v₀,_,hv₀,h.vaultData,?_⟩
  rw [VaultData.minted_totalShares,VaultData.minted_totalBTokens,
    Env.refreshed_totalShares h.rate hv₀,Env.refreshed_totalBTokens h.rate hv₀,add_sub_cancel_left,
    add_sub_cancel_left,h.inflow_eq hexact,Label.reports,h.events]
  rfl

omit [DecidableEq Address] [FixedPoint] in
theorem reports_of_exit
    (hevents : l.events = [.vaultWithdraw pool asset owner (l.call.stated u) n b]) :
    l.reports = [(-l.call.stated u,-n,-b)] := by
  rw [Label.reports,hevents]
  rfl

/-- An exit tells the truth exactly when it states what it pays. -/
theorem Burn.truthful_iff (h : Burn w l w' pool asset receiver owner operator v u moved b n)
    (hreports : l.reports = [(-l.call.stated u,-n,-b)]) (hexact : l.Exact) :
    Truthful w l w' ↔ l.call.stated u = u := by
  obtain ⟨v₀,hv₀,-,-⟩ := Env.refreshed_eq_some.mp h.rate
  have hinflow := h.inflow_eq hexact
  constructor
  · intro htrue
    obtain ⟨v₁,v₂,-,-,hsame⟩ := htrue
    rw [hreports,hinflow] at hsame
    simp only [List.cons.injEq,Prod.mk.injEq,neg_inj,and_true] at hsame
    exact hsame.1
  · intro hstated
    refine ⟨v₀,_,hv₀,h.vaultData,?_⟩
    rw [hreports,hinflow,hstated,VaultData.burnt_totalShares,VaultData.burnt_totalBTokens,
      Env.refreshed_totalShares h.rate hv₀,Env.refreshed_totalBTokens h.rate hv₀,
      sub_sub_cancel_left,sub_sub_cancel_left]

/-- An exit states what it pays unless it has been cut down. -/
theorem Burn.stated_eq (h : Burn w l w' pool asset receiver owner operator v u moved b n)
    (hunclamped : l.Unclamped w) : l.call.stated u = u := by
  have hexits := h.call
  generalize hc : l.call = c at hexits
  cases hexits with
  | redeem _ _ _ _ => rfl
  | withdraw _ out =>
    exact (out.paid_of_affords (hunclamped _ _ _ _ _ _ _ hc h.serves h.rate)).symm

theorem Burn.unclamped (h : Burn w l w' pool asset receiver owner operator v u moved b n)
    (hr : 0 < v.bRate) (hstated : l.call.stated u = u) : l.Unclamped w := by
  intro assets receiver' owner' operator' pool' asset' v' hcall hserves hv'
  obtain ⟨rfl,rfl⟩ := h.serves.unique hserves
  cases h.rate.symm.trans hv'
  have hS : 0 < v.totalShares := h.call.shares_pos.1.trans_le h.releases.shares_le
  have hexits := h.call
  rw [hcall] at hexits hstated
  cases hexits with
  | withdraw _ out => exact out.affords_of_paid hr hS hstated.symm

/-- An unclamped call tells the truth. -/
theorem LoggedStep.truthful (h : LoggedStep w l w') (hunclamped : l.Unclamped w) :
    Truthful w l w' := by
  cases h.step.trade h.trades with
  | mint hm => exact hm.truthful h.exact
  | burn hb hevents =>
    exact (hb.truthful_iff (reports_of_exit hevents) h.exact).mpr (hb.stated_eq hunclamped)

/-- At a positive rate only an unclamped call does. -/
theorem LoggedStep.unclamped (h : LoggedStep w l w') (hrates : l.Rates w.storage (0 < ·))
    (htrue : Truthful w l w') : l.Unclamped w := by
  cases h.step.trade h.trades with
  | mint hm =>
    intro assets receiver owner operator pool asset v hcall
    cases hm.call.symm.trans hcall
  | burn hb hevents =>
    exact hb.unclamped (hrates.of_refreshed hb.serves hb.rate)
      ((hb.truthful_iff (reports_of_exit hevents) h.exact).mp htrue)

/-- Only the underlying can be misreported, so the record of a call shows whether it has been. -/
theorem LoggedStep.truthful_iff (h : LoggedStep w l w') :
    Truthful w l w' ↔ l.reports.map Prod.fst = [l.inflow] := by
  constructor
  · intro htrue
    obtain ⟨v,v',-,-,hreports⟩ := htrue
    rw [hreports]
    rfl
  · intro hsame
    cases h.step.trade h.trades with
    | mint hm => exact hm.truthful h.exact
    | burn hb hevents =>
      have hreports := reports_of_exit hevents
      rw [hreports,hb.inflow_eq h.exact] at hsame
      refine (hb.truthful_iff hreports h.exact).mpr ?_
      simpa using hsame

end Step

section Run
variable {Address W : Type} [DecidableEq Address]

/-- What all the events of a run report. -/
def reported (ls : List (Label Address W)) : List (ℤ × ℤ × ℤ) := ls.flatMap Label.reports

/-- The underlying a run moved into the pool. -/
def netInflow (ls : List (Label Address W)) : ℤ := (ls.map Label.inflow).sum

/-- The reports of a truthful run add up to what went in and to the totals. -/
theorem sum_reported {w₀ w : World Address W} {ls : List (Label Address W)} (h₀ : Deployed w₀)
    (hrun : Run Truthful w₀ ls w) : ∃ v, w.storage.vaultData = some v ∧
      (reported ls).sum = (netInflow ls,v.totalShares,v.totalBTokens) := by
  refine hrun.history (fun ls w => ∃ v, w.storage.vaultData = some v ∧
    (reported ls).sum = (netInflow ls,v.totalShares,v.totalBTokens)) ?_ ?_
  · obtain ⟨t,r,hv⟩ := h₀.vaultData
    exact ⟨_,hv,rfl⟩
  · rintro ls t l u ⟨v,v',hv,hv',hreports⟩ ⟨v₀,hv₀,hsum⟩
    cases hv.symm.trans hv₀
    refine ⟨v',hv',?_⟩
    rw [reported] at hsum
    rw [reported,netInflow,List.flatMap_append,List.map_append,List.sum_append,List.sum_append,hsum]
    simp [hreports,netInflow]

variable [FixedPoint]

/-- While no withdrawal is cut down to its holding, at whatever rates, every call reports exactly
what it changed, and the reports of the run add up to the totals and the net flow; at positive
rates the runs of truthful calls are only those. -/
theorem log_truthful {w₀ w : World Address W} {ls : List (Label Address W)} (h₀ : Deployed w₀) :
    (Run (fun w l w' => LoggedStep w l w' ∧ l.Unclamped w) w₀ ls w →
      Run (fun w l w' => LoggedStep w l w' ∧ Truthful w l w') w₀ ls w ∧
        ∃ v, w.storage.vaultData = some v ∧
          (reported ls).sum = (netInflow ls,v.totalShares,v.totalBTokens)) ∧
    (Run (fun w l w' => LoggedStep w l w' ∧ l.Rates w.storage (0 < ·) ∧ Truthful w l w') w₀ ls w →
      Run (fun w l w' => LoggedStep w l w' ∧ l.Unclamped w) w₀ ls w) := by
  constructor
  · intro hrun
    have htrue : Run (fun w l w' => LoggedStep w l w' ∧ Truthful w l w') w₀ ls w :=
      hrun.mono fun _ _ _ h => ⟨h.1,h.1.truthful h.2⟩
    exact ⟨htrue,sum_reported h₀ (htrue.mono fun _ _ _ h => h.2)⟩
  · intro hrun
    exact hrun.mono fun _ _ _ h => ⟨h.1,h.1.unclamped h.2.1 h.2.2⟩

end Run

section Sample
attribute [local instance] FixedPoint.documented

/-- Calls that are computed, and for which the pool turns out to move what it is asked to. -/
theorem exists_logged_run (cs : List ((ℤ × ℤ × ℕ) × Call ℕ)) (hcalls : ∀ c ∈ cs, c.2.Trades)
    (hrates : ∀ c ∈ cs, 0 < c.1.1) (q : List (Label ℕ ℤ) → Bool)
    (h : (simulate (referenceEnv scalar12 0 0) 1 2 3 4 0 (referenceCalls cs)).any
      (fun p => decide (∀ l ∈ p.1, l.Exact) && q p.1) = true) :
    ∃ w₀ ls w, Deployed w₀ ∧
      Run (fun w l w' => LoggedStep w l w' ∧ l.Rates w.storage (0 < ·)) w₀ ls w ∧ q ls = true := by
  obtain ⟨w₀,ls,w,hdeploy,hrun,hq⟩ := exists_run
    (fun t l u hstep _ hmem => (⟨hstep,call_of_referenceCalls hcalls hmem,
      rates_of_referenceCalls hrates hmem⟩ :
        Step t l u ∧ l.call.Trades ∧ l.Rates t.storage (0 < ·)))
    (fun ls _ => decide (∀ l ∈ ls, l.Exact) && q ls) h
  rw [Bool.and_eq_true,decide_eq_true_iff] at hq
  refine ⟨w₀,ls,w,deploy_deployed hdeploy,(hrun.with_labels hq.1).mono ?_,hq.2⟩
  rintro t l u ⟨⟨hstep,htrades,hpos⟩,hexact⟩
  exact ⟨⟨hstep,htrades,hexact⟩,hpos⟩

/-- Ten shares are burnt for ten underlying, and the event says a thousand. -/
theorem clamped_withdraw_misreports : ∃ (w₀ : World ℕ ℤ) (ls : List (Label ℕ ℤ))
    (w : World ℕ ℤ), Deployed w₀ ∧
      Run (fun w l w' => LoggedStep w l w' ∧ l.Rates w.storage (0 < ·)) w₀ ls w ∧
      ls.map Label.call = [.deposit 10 7 7 7,.withdraw 1000 7 7 7] ∧
      ls.map Label.inflow = [10,-10] ∧ reported ls = [(10,10,10),(-1000,-10,-10)] := by
  obtain ⟨w₀,ls,w,h₀,hrun,hq⟩ := exists_logged_run
    [((scalar12,0,1),.deposit 10 7 7 7),((scalar12,0,2),.withdraw 1000 7 7 7)]
    (by simp [Call.Trades]) (by decide)
    (fun ls => ls.map Label.call = [.deposit 10 7 7 7,.withdraw 1000 7 7 7] ∧
      ls.map Label.inflow = [10,-10] ∧ reported ls = [(10,10,10),(-1000,-10,-10)])
    (by decide)
  exact ⟨w₀,ls,w,h₀,hrun,of_decide_eq_true hq⟩

/-- Ten in, four out by amount and three by shares. -/
theorem log_truthful_sample : ∃ (w₀ : World ℕ ℤ) (ls : List (Label ℕ ℤ)) (w : World ℕ ℤ)
    (v : VaultData), ls.map Label.call = [.deposit 10 7 7 7,.withdraw 4 7 7 7,.redeem 3 8 7 7] ∧
      Run (fun w l w' => LoggedStep w l w' ∧ Truthful w l w') w₀ ls w ∧
      w.storage.vaultData = some v ∧ (reported ls).sum = (3,v.totalShares,v.totalBTokens) := by
  obtain ⟨w₀,ls,w,h₀,hrun,hq⟩ := exists_logged_run
    [((scalar12,0,1),.deposit 10 7 7 7),((scalar12,0,2),.withdraw 4 7 7 7),
      ((scalar12,0,3),.redeem 3 8 7 7)]
    (by simp [Call.Trades]) (by decide)
    (fun ls => ls.map Label.call = [.deposit 10 7 7 7,.withdraw 4 7 7 7,.redeem 3 8 7 7] ∧
      (∀ l ∈ ls, l.reports.map Prod.fst = [l.inflow]) ∧ netInflow ls = 3)
    (by decide)
  obtain ⟨hcalls,hsame,hnet⟩ := of_decide_eq_true hq
  have htrue : Run (fun w l w' => LoggedStep w l w' ∧ l.Rates w.storage (0 < ·) ∧
      Truthful w l w') w₀ ls w := by
    refine (hrun.with_labels hsame).mono ?_
    rintro t l u ⟨⟨hlogged,hpos⟩,h⟩
    exact ⟨hlogged,hpos,hlogged.truthful_iff.mpr h⟩
  obtain ⟨hlog,hunclamped⟩ := log_truthful (w := w) h₀
  obtain ⟨hrun',v,hv,hsum⟩ := hlog (hunclamped htrue)
  rw [hnet] at hsum
  exact ⟨w₀,ls,w,v,hcalls,hrun',hv,hsum⟩

end Sample
end BlendVault
