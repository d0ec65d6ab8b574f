import BlendVault.System.Backing
import BlendVault.System.Dilution
import BlendVault.System.Overflow

/-! Those who stay in the vault while everybody else comes and goes. However the others act, alone
or together, what is left covers the stayers' part, their quotes have not fallen, and each of them
still gets out. -/
namespace BlendVault
open FailStop ProRata RoundedDivision

section Staying
variable {Address W : Type} [DecidableEq Address] [FixedPoint]

/-- Any call but a transfer to oneself, at positive rates, with a claim never reported to cost
bTokens. -/
structure FairStep (w : World Address W) (l : Label Address W) (w' : World Address W) : Prop where
  sound : SoundStep w l w'
  apart : ¬ l.call.SelfTransfer

/-- The books add up, and every share has a bToken behind it. -/
structure Orderly (w : World Address W) : Prop where
  balanced : Balanced 0 w.storage
  backed : Backed w

/-- Since `w`, where the totals were `v`, those in `P` have kept their shares and the price has not
fallen, unless they never had any. -/
structure Stayed (P : Finset Address) (w : World Address W) (v : VaultData)
    (t : World Address W) : Prop where
  orderly : Orderly t
  kept : ∀ a ∈ P, w.storage.sharesOf a ≤ t.storage.sharesOf a
  price : (∃ v', t.storage.vaultData = some v' ∧ 0 < v'.totalShares ∧ v.fund.PriceLe v'.fund) ∨
    ∀ a ∈ P, w.storage.sharesOf a = 0

variable {w₀ w t u : World Address W} {l : Label Address W} {ls ms : List (Label Address W)}
  {v : VaultData} {P : Finset Address}

omit [FixedPoint] in
theorem Deployed.orderly (h : Deployed w) : Orderly w := by
  obtain ⟨d,r,hv⟩ := h.vaultData
  exact ⟨h.balanced,⟨_,hv,le_rfl,le_rfl⟩⟩

theorem OrdinaryStep.fair (h : OrdinaryStep w l t) : FairStep w l t := ⟨h.sound,h.apart⟩

theorem FairStep.orderly (h : FairStep w l t) (hw : Orderly w) : Orderly t := by
  have hbalanced := h.sound.step.balanced hw.balanced
  obtain ⟨h0,hself⟩ := h.sound.step.selfTransferred_pos
  have hzero : l.call.selfTransferred = 0 := le_antisymm (not_lt.mp (mt hself.mpr h.apart)) h0
  rw [hzero,add_zero] at hbalanced
  exact ⟨hbalanced,h.sound.backed hw.backed⟩

theorem orderly_of_run (h₀ : Deployed w₀) (hrun : Run FairStep w₀ ls w) : Orderly w :=
  hrun.invariant Orderly h₀.orderly fun _ _ _ hstep hw => hstep.orderly hw

omit [FixedPoint] in
theorem Orderly.sharesOf_le (h : Orderly w) (hv : w.storage.vaultData = some v) (a : Address) :
    w.storage.sharesOf a ≤ v.totalShares := by
  obtain ⟨hnonneg,v',hv',htotal⟩ := h.balanced
  cases hv.symm.trans hv'
  rw [add_zero] at htotal
  exact htotal ▸ FiniteStore.read_le_total w.storage.shares hnonneg a

omit [FixedPoint] in
theorem Orderly.sum_sharesOf_le (h : Orderly w) (hv : w.storage.vaultData = some v)
    (P : Finset Address) : ∑ a ∈ P, w.storage.sharesOf a ≤ v.totalShares := by
  obtain ⟨hnonneg,v',hv',htotal⟩ := h.balanced
  cases hv.symm.trans hv'
  rw [add_zero] at htotal
  exact htotal ▸ FiniteStore.sum_read_le_total w.storage.shares hnonneg P

omit [FixedPoint] in
theorem Orderly.backed_of (h : Orderly w) (hv : w.storage.vaultData = some v) : v.fund.Backed := by
  obtain ⟨v',hv',hbacked⟩ := h.backed
  cases hv.symm.trans hv'
  exact hbacked

omit [FixedPoint] in
/-- At the start nothing has changed. -/
theorem Orderly.stayed (h : Orderly w) (hv : w.storage.vaultData = some v) (P : Finset Address) :
    Stayed P w v w := by
  refine ⟨h,fun _ _ => le_rfl,?_⟩
  rcases (h.backed_of hv).1.eq_or_lt with h0 | hpos
  · right
    intro a _
    exact le_antisymm (h0 ▸ h.sharesOf_le hv a) (h.balanced.nonneg a)
  · exact .inl ⟨v,hv,hpos,.refl _⟩

/-- A step that debits none of them changes that neither. -/
theorem Stayed.step (h : Stayed P w v t) (hv : v.fund.Backed)
    (hnonneg : ∀ a, 0 ≤ w.storage.sharesOf a) (hstep : FairStep t l u)
    (hquiet : ∀ a ∈ P, l.call.debited ≠ some a) : Stayed P w v u := by
  have hu := hstep.orderly h.orderly
  rcases h.price with ⟨v',hv',hS,hprice⟩ | hzero
  · obtain ⟨ht,v₁,hv₁,htotal⟩ := h.orderly.balanced
    cases hv'.symm.trans hv₁
    rw [add_zero] at htotal
    have hB : 0 ≤ v'.totalBTokens := hS.le.trans (h.orderly.backed_of hv').2
    obtain ⟨v'',hundiluted⟩ := hstep.sound.step.undiluted hv' hS hB ht htotal hstep.sound.rates
      hstep.sound.reports
    refine ⟨hu,fun a ha => (h.kept a ha).trans (hundiluted.others a (hquiet a ha)),?_⟩
    rcases hundiluted.shares_nonneg.eq_or_lt with h0 | hpos
    · -- everything has been burnt, so that none of them had shares to start with
      right
      intro a ha
      have hempty := hundiluted.emptied h0.symm a (hquiet a ha)
      exact le_antisymm (hempty ▸ h.kept a ha) (hnonneg a)
    · exact .inl ⟨v'',hundiluted.vaultData,hpos,
        hprice.trans hv.1 hS hundiluted.shares_nonneg hundiluted.price⟩
  · refine ⟨hu,?_,.inr hzero⟩
    intro a ha
    rw [hzero a ha]
    exact hu.balanced.nonneg a

theorem Stayed.of_run (hw : Orderly w) (hv : w.storage.vaultData = some v)
    (hrun : Run FairStep w ms t) (hquiet : ∀ l ∈ ms, ∀ a ∈ P, l.call.debited ≠ some a) :
    Stayed P w v t := by
  refine (hrun.with_labels hquiet).invariant (Stayed P w v) (hw.stayed hv P) ?_
  rintro t l u ⟨hstep,hl⟩ ht
  exact ht.step (hw.backed_of hv) hw.balanced.nonneg hstep hl

omit [FixedPoint] in
/-- What is left covers the part of those who stayed. -/
theorem Stayed.covered (h : Stayed P w v t) (hw : Orderly w)
    (hv : w.storage.vaultData = some v) {v' : VaultData} (hv' : t.storage.vaultData = some v') :
    (∑ a ∈ P, w.storage.sharesOf a)*v.totalBTokens ≤ v'.totalBTokens*v.totalShares := by
  have hbacked := hw.backed_of hv
  have hbacked' := h.orderly.backed_of hv'
  rcases h.price with ⟨v₁,hv₁,-,hprice⟩ | hzero
  · cases hv'.symm.trans hv₁
    refine hprice.covers (hbacked.1.trans hbacked.2) ?_
    exact (Finset.sum_le_sum h.kept).trans (h.orderly.sum_sharesOf_le hv' P)
  · rw [Finset.sum_eq_zero hzero,zero_mul]
    exact mul_nonneg (hbacked'.1.trans hbacked'.2) hbacked.1

omit [FixedPoint] in
/-- Their quotes have not fallen. -/
theorem Stayed.quotes (h : Stayed P w v t) (hw : Orderly w) (hv : w.storage.vaultData = some v)
    {v' : VaultData} (hv' : t.storage.vaultData = some v') {a : Address} (ha : a ∈ P) :
    v.exactBTokens (w.storage.sharesOf a) ≤ v'.exactBTokens (t.storage.sharesOf a) := by
  have hbacked' := h.orderly.backed_of hv'
  rcases h.price with ⟨v₁,hv₁,hS,hprice⟩ | hzero
  · cases hv'.symm.trans hv₁
    rcases (hw.balanced.nonneg a).eq_or_lt with h0 | hpos
    · rw [← h0,VaultData.exactBTokens_of_nonpos le_rfl]
      exact VaultData.exactBTokens_nonneg hbacked'.1 (hbacked'.1.trans hbacked'.2) _
    · exact VaultData.exactBTokens_mono (hpos.trans_le (hw.sharesOf_le hv a)) hS
        (hbacked'.1.trans hbacked'.2) hprice (h.kept a ha)
  · rw [hzero a ha,VaultData.exactBTokens_of_nonpos le_rfl]
    exact VaultData.exactBTokens_nonneg hbacked'.1 (hbacked'.1.trans hbacked'.2) _

omit [FixedPoint] in
/-- At a rate that has not fallen either, the underlying has not. -/
theorem VaultData.exactUnderlying_le {v v' : VaultData} {r r' x y : ℤ}
    (h : v.exactBTokens x ≤ v'.exactBTokens y) (hr : 0 < r) (hle : r ≤ r')
    (hnonneg : 0 ≤ v'.exactBTokens y) : v.exactUnderlying r x ≤ v'.exactUnderlying r' y := by
  apply Int.ediv_le_ediv scalar12_pos
  calc
    v.exactBTokens x*r ≤ v'.exactBTokens y*r := mul_le_mul_of_nonneg_right h hr.le
    _ ≤ v'.exactBTokens y*r' := mul_le_mul_of_nonneg_left hle hnonneg

/-- Whatever the others do, alone or together, over any run: the bTokens that are left cover the
part of those whose shares were not touched, and each of these holds no fewer shares, quoted at no
fewer bTokens and, at no lower a rate, at no less underlying. -/
theorem stayers_keep_their_part (h₀ : Deployed w₀) (hbefore : Run FairStep w₀ ls w)
    (hv : w.storage.vaultData = some v) (hrun : Run FairStep w ms t)
    (hquiet : ∀ l ∈ ms, ∀ a ∈ P, l.call.debited ≠ some a) :
    ∃ v', t.storage.vaultData = some v' ∧
      (∑ a ∈ P, w.storage.sharesOf a)*v.totalBTokens ≤ v'.totalBTokens*v.totalShares ∧
      ∀ a ∈ P, w.storage.sharesOf a ≤ t.storage.sharesOf a ∧
        v.exactBTokens (w.storage.sharesOf a) ≤ v'.exactBTokens (t.storage.sharesOf a) ∧
        ∀ r r', 0 < r → r ≤ r' → v.exactUnderlying r (w.storage.sharesOf a) ≤
          v'.exactUnderlying r' (t.storage.sharesOf a) := by
  have hw := orderly_of_run h₀ hbefore
  have hstayed := Stayed.of_run hw hv hrun hquiet
  obtain ⟨v',hv',hbacked⟩ := hstayed.orderly.backed
  refine ⟨v',hv',hstayed.covered hw hv hv',?_⟩
  intro a ha
  have hquote := hstayed.quotes hw hv hv' ha
  refine ⟨hstayed.kept a ha,hquote,fun r r' hr hle => ?_⟩
  exact VaultData.exactUnderlying_le hquote hr hle
    (VaultData.exactBTokens_nonneg hbacked.1 (hbacked.1.trans hbacked.2) _)

omit [FixedPoint] in
/-- Orderly books whose products fit are sound. -/
theorem Orderly.sound (h : Orderly w) (hv : w.storage.vaultData = some v) {r n : ℤ} (hn : 0 < n)
    (hfit : v.Valuable r n) : Sound w := by
  have hbacked := h.backed_of hv
  have hB : 0 ≤ v.totalBTokens := hbacked.1.trans hbacked.2
  have hle : v.totalBTokens ≤ i128Max := by
    calc
      v.totalBTokens = 1*v.totalBTokens := (one_mul _).symm
      _ ≤ n*v.totalBTokens := mul_le_mul_of_nonneg_right hn hB
      _ ≤ i128Max := hfit.1
  exact ⟨h.balanced,h.backed,⟨v,hv,hbacked.2.trans hle,hle⟩⟩

end Staying

section Sample
attribute [local instance] FixedPoint.documented

/-- Deposits and exits that are computed on the reference pool, in two parts. -/
theorem exists_fair_runs (before after : List ((ℤ × ℤ × ℕ) × Call ℕ))
    (hcalls : ∀ c ∈ before ++ after, c.2.Trades)
    (hrates : ∀ c ∈ before ++ after, 0 < c.1.1 ∧ c.1.1 ≤ maxBRate)
    (q : World ℕ ℤ → List (Label ℕ ℤ) → World ℕ ℤ → Bool)
    (h : (simulate (referenceEnv scalar12 0 0) 1 2 3 4 0 (referenceCalls before)).any
      (fun p => (replay p.2 (referenceCalls after)).any fun p' => q p.2 p'.1 p'.2) = true) :
    ∃ w₀ ls w ms t, Deployed w₀ ∧ Run FairStep w₀ ls w ∧ Run FairStep w ms t ∧ q w ms t = true := by
  obtain ⟨w₀,ls,w,hdeploy,hrun,hq⟩ := exists_run
    (ordinaryStep_of_referenceCalls before (fun c hc => hcalls c (List.mem_append_left _ hc))
      fun c hc => hrates c (List.mem_append_left _ hc))
    (fun _ w => (replay w (referenceCalls after)).any fun p' => q w p'.1 p'.2) h
  obtain ⟨⟨ms,t⟩,hreplay,hq⟩ := (Option.any_eq_true _ _).mp hq
  refine ⟨w₀,ls,w,ms,t,deploy_deployed hdeploy,hrun.mono fun _ _ _ h => h.fair,
    (replay_run hreplay).mono ?_,hq⟩
  rintro t l u ⟨hstep,hfound,hmem⟩
  exact (ordinaryStep_of_referenceCalls after (fun c hc => hcalls c (List.mem_append_right _ hc))
    (fun c hc => hrates c (List.mem_append_right _ hc)) t l u hstep hfound hmem).fair

/-- While account 7 stays, the other one takes some out at a lower rate, puts more in at a higher
one and leaves. -/
theorem stayers_keep_their_part_sample : ∃ (w t : World ℕ ℤ) (v v' : VaultData),
    w.storage.vaultData = some v ∧ t.storage.vaultData = some v' ∧ w.storage.sharesOf 7 = 100 ∧
      100*v.totalBTokens ≤ v'.totalBTokens*v.totalShares := by
  obtain ⟨w₀,ls,w,ms,t,h₀,hbefore,hrun,hq⟩ := exists_fair_runs
    [((scalar12,0,1),.deposit 100 7 7 7),((scalar12,0,1),.deposit 50 8 8 8)]
    [((700000000000,0,2),.withdraw 5 8 8 8),((1300000000000,0,3),.deposit 31 8 8 8),
      ((1300000000000,0,3),.withdraw 900 8 8 8)] (by simp [Call.Trades]) (by decide)
    (fun w ms _ => w.storage.vaultData = some ⟨0,scalar12,150,150⟩ ∧ w.storage.sharesOf 7 = 100 ∧
      ∀ l ∈ ms, l.call.debited ≠ some 7) (by decide)
  obtain ⟨hv,hheld,hquiet⟩ := of_decide_eq_true hq
  have hquiet' : ∀ l ∈ ms, ∀ a ∈ ({7} : Finset ℕ), l.call.debited ≠ some a := by
    intro l hl a ha
    rw [Finset.mem_singleton.mp ha]
    exact hquiet l hl
  obtain ⟨v',hv',hcovered,-⟩ := stayers_keep_their_part h₀ hbefore hv hrun hquiet'
  rw [Finset.sum_singleton,hheld] at hcovered
  exact ⟨w,t,_,v',hv,hv',hheld,hcovered⟩

end Sample
end BlendVault
