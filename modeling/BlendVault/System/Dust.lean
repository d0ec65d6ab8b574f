import BlendVault.System.Backing

/-! The totals reaching zero. A last exit below par may leave bTokens that no share stands
for, and a withdrawal may round the burn up to the last share; otherwise the two totals are
only ever empty together. -/
namespace BlendVault
open FailStop RoundedDivision ProRata

/-- There are no shares exactly when there are no bTokens. -/
def EmptyTogether (v : VaultData) : Prop := v.totalShares = 0 ↔ v.totalBTokens = 0

/-- The bTokens the pool burns for `amount` at a bRate of `r`. -/
def burnFor (amount r : ℤ) : ℤ := ceilDiv (amount*scalar12) r

/-- The shares a request that costs `b` bTokens would burn. -/
def VaultData.sharesFor (v : VaultData) (b : ℤ) : ℤ := ceilDiv (b*v.totalShares) v.totalBTokens

/-- What must be so before a call if it is not to empty one total alone: a withdrawal within
the owner's balance takes all bTokens or leaves a share, a full exit finds bTokens that come
back whole from underlying, and nothing worth a bToken is claimed for nobody. -/
structure EmptiesCleanly {Address W : Type} [DecidableEq Address] (w : World Address W)
    (l : Label Address W) (v : VaultData) : Prop where
  withdraw : ∀ {assets receiver owner operator pool asset r},
    l.call = .withdraw assets receiver owner operator → w.storage.Serves pool asset →
    l.env.bRate pool asset l.found = some r →
    if v.sharesFor (burnFor assets r) ≤ w.storage.sharesOf owner then
      burnFor assets r = v.totalBTokens ∨
        burnFor assets r*v.totalShares ≤ (v.totalShares-1)*v.totalBTokens
    else w.storage.sharesOf owner = v.totalShares → RoundTrips r v.totalBTokens
  redeem : ∀ {shares receiver owner operator pool asset r},
    l.call = .redeem shares receiver owner operator → w.storage.Serves pool asset →
    l.env.bRate pool asset l.found = some r →
    shares = v.totalShares → RoundTrips r v.totalBTokens
  claim : ∀ {m pool asset received swapped ext r}, l.call = .claimEmissions m →
    w.storage.Serves pool asset → l.Brings pool asset received swapped →
    l.env.bRate pool asset ext = some r → v.totalShares = 0 → received*scalar12 < r

section Dust
variable {v : VaultData} {held amount u b n : ℤ} [FixedPoint]

/-- Burning `n` shares by their value empties the totals together unless they are all the
shares and the bTokens do not come back whole. -/
theorem VaultData.Values.emptyTogether (h : v.Values n u b) (hr : 0 < v.bRate) (hn : 0 < n)
    (hle : n ≤ v.totalShares) (hB : 0 < v.totalBTokens)
    (hfull : n = v.totalShares → RoundTrips v.bRate v.totalBTokens) :
    EmptyTogether (v.burnt b n) := by
  have hS : 0 < v.totalShares := hn.trans_le hle
  rw [EmptyTogether,burnt_totalShares,burnt_totalBTokens]
  rcases hle.eq_or_lt with heq | hlt
  · have hquote : quote v.fund n = v.totalBTokens := by
      rw [heq,quote,v.fund_units,v.fund_assets,Int.mul_ediv_cancel_left _ hS.ne']
    have hb : b = v.totalBTokens := by
      rw [h.bTokens_eq hr,h.underlying_eq hS,hquote]
      exact hfull heq
    omega
  · have hquote : quote v.fund n < v.totalBTokens := by
      refine Int.ediv_lt_of_lt_mul hS ?_
      rw [v.fund_units,v.fund_assets,mul_comm]
      exact mul_lt_mul_of_pos_left hlt hB
    have hb := h.bTokens_le hr hS
    omega

/-- A withdrawal within the balance takes all bTokens or leaves a share. -/
theorem VaultData.Costs.emptyTogether (h : v.Costs amount b n) (hS : 0 < v.totalShares)
    (hB : 0 < v.totalBTokens) (hrel : v.Releases b n)
    (hplain : b = v.totalBTokens ∨ b*v.totalShares ≤ (v.totalShares-1)*v.totalBTokens) :
    EmptyTogether (v.burnt b n) := by
  have hn := h.shares_eq hS hB
  have hle := hrel.bTokens_le
  rw [EmptyTogether,burnt_totalShares,burnt_totalBTokens]
  rcases hplain with hall | hsome
  · have hcancel : n = v.totalShares := by
      rw [hn,hall,mul_comm,ceilDiv_mul_cancel _ hB.ne']
    omega
  · have hlt : n ≤ v.totalShares-1 := by
      rw [hn]
      exact (ceilDiv_le_iff hB).mpr hsome
    have hb : b ≠ v.totalBTokens := by
      intro hall
      rw [hall] at hsome
      have hm : (v.totalShares-1)*v.totalBTokens = v.totalBTokens*v.totalShares-v.totalBTokens := by
        ring
      omega
    omega

variable {Address W : Type} [DecidableEq Address] {position : W → ℤ} {w w' : World Address W}
  {l : Label Address W} {v₀ : VaultData} {moved : ℤ}

theorem Burn.emptyTogether {pool asset receiver owner operator : Address}
    (h : Burn w l w' pool asset receiver owner operator v u moved b n) (hr : 0 < v.bRate)
    (hv₀ : w.storage.vaultData = some v₀) (hB : 0 ≤ v₀.totalBTokens) (hw : EmptyTogether v₀)
    (hclean : EmptiesCleanly w l v₀) : EmptyTogether (v.burnt b n) := by
  have htS := Env.refreshed_totalShares h.rate hv₀
  have htB := Env.refreshed_totalBTokens h.rate hv₀
  obtain ⟨_,-,hrate,-⟩ := Env.refreshed_eq_some.mp h.rate
  have hn := h.call.shares_pos
  have hS : 0 < v.totalShares := hn.1.trans_le h.releases.shares_le
  have hB' : 0 < v.totalBTokens := by
    unfold EmptyTogether at hw
    omega
  generalize hc : l.call = c at h
  have hexits := h.call
  rw [hc] at hexits
  cases hexits with
  | @withdraw assets assets_pos out =>
    have hguard := hclean.withdraw hc h.serves hrate
    cases out with
    | plain cost enough =>
      have hb := cost.bTokens_eq hr
      have hcost : n = v₀.sharesFor (burnFor u v.bRate) := by
        rw [VaultData.sharesFor,← htS,← htB,burnFor,← hb]
        exact cost.shares_eq hS hB'
      rw [if_pos (hcost ▸ enough),burnFor,← hb,← htS,← htB] at hguard
      exact cost.emptyTogether hS hB' h.releases hguard
    | @clamped b₀ s₀ u b cost short held_pos value =>
      have hb := cost.bTokens_eq hr
      have hcost : s₀ = v₀.sharesFor (burnFor assets v.bRate) := by
        rw [VaultData.sharesFor,← htS,← htB,burnFor,← hb]
        exact cost.shares_eq hS hB'
      rw [if_neg (hcost ▸ not_le.mpr short),← htS,← htB] at hguard
      exact value.emptyTogether hr held_pos h.releases.shares_le hB' hguard
  | redeem shares_pos enough value underlying_pos =>
    have hguard := hclean.redeem hc h.serves hrate
    rw [← htS,← htB] at hguard
    exact value.emptyTogether hr shares_pos h.releases.shares_le hB' hguard

omit [FixedPoint] in
/-- A claim on an exact pool leaves nothing behind for nobody. -/
theorem Compound.emptyTogether {pool asset : Address} {received r : ℤ}
    (h : Compound w l w' pool asset v received moved b)
    (hpool : ExactPool l.env pool asset position r) (hr : 0 < r) (hreceived : 0 ≤ received)
    (hv₀ : w.storage.vaultData = some v₀) (hp : v₀.totalBTokens = position l.found)
    (hB : 0 ≤ v₀.totalBTokens) (hw : EmptyTogether v₀) (hclean : EmptiesCleanly w l v₀) :
    EmptyTogether {v with totalBTokens := b} := by
  have htS := Env.refreshed_totalShares h.rate hv₀
  have hb : b = v₀.totalBTokens+received*scalar12/r := by
    rw [hpool.reports h.reported,h.position_eq hpool,hp]
  have hq := ediv_nonneg_of_pos hr (mul_nonneg hreceived scalar12_pos.le)
  unfold EmptyTogether at hw ⊢
  change v.totalShares = 0 ↔ b = 0
  rw [htS,hb]
  by_cases h0 : v₀.totalShares = 0
  · obtain ⟨m,hcall⟩ := h.call
    obtain ⟨swapped,hbrings,-⟩ := h.inflow
    obtain ⟨_,-,hrate,-⟩ := Env.refreshed_eq_some.mp h.rate
    have hsmall := hclean.claim hcall h.serves hbrings hrate h0
    rw [hpool.rate hrate] at hsmall
    have hzero : received*scalar12/r = 0 :=
      Int.ediv_eq_zero_of_lt (mul_nonneg hreceived scalar12_pos.le) hsmall
    omega
  · omega

/-- A step on an exact pool that meets the condition on the state before it. -/
structure CleanStep (position : W → ℤ) (w : World Address W) (l : Label Address W)
    (w' : World Address W) : Prop where
  exact : ExactStep position w l w'
  nonneg : l.SuppliesNonneg
  clean : ∀ v, w.storage.vaultData = some v → EmptiesCleanly w l v

theorem CleanStep.emptyTogether (h : CleanStep position w l w') (htracks : Tracks position w)
    (hbacked : Backed w) (hw : ∃ v, w.storage.vaultData = some v ∧ EmptyTogether v) :
    ∃ v, w'.storage.vaultData = some v ∧ EmptyTogether v := by
  have hsound := h.exact.sound htracks h.nonneg
  obtain ⟨v₀,hv₀,hempty⟩ := hw
  obtain ⟨v₁,hv₁,hS₀,hle⟩ := hbacked
  cases hv₀.symm.trans hv₁
  have hclean := h.clean v₀ hv₀
  change 0 ≤ v₀.totalShares at hS₀
  change v₀.totalShares ≤ v₀.totalBTokens at hle
  cases hsound.step.accounts with
  | mint hm =>
    have htS := Env.refreshed_totalShares hm.rate hv₀
    have htB := Env.refreshed_totalBTokens hm.rate hv₀
    have hb := hm.mints.bTokens_pos
    have hn := hm.mints.shares_pos
    refine ⟨_,hm.vaultData,?_⟩
    rw [EmptyTogether,VaultData.minted_totalShares,VaultData.minted_totalBTokens]
    omega
  | burn hb =>
    have hr := hsound.rates.of_refreshed hb.serves hb.rate
    exact ⟨_,hb.vaultData,hb.emptyTogether hr hv₀ (hS₀.trans hle) hempty hclean⟩
  | move hm => exact ⟨v₀,hm.vaultData.trans hv₀,hempty⟩
  | @compound pool asset v received moved b hc =>
    obtain ⟨r,hr,hpool⟩ := h.exact.exact _ _ hc.serves
    obtain ⟨v₂,hv₂,hp⟩ := htracks
    cases hv₀.symm.trans hv₂
    rw [← h.exact.untouched] at hp
    have hreceived : 0 ≤ received := h.nonneg _ _ _ (hc.flows ▸ List.mem_singleton.mpr rfl)
    exact ⟨_,hc.vaultData,
      hc.emptyTogether hpool hr hreceived hv₀ hp (hS₀.trans hle) hempty hclean⟩
  | idle hi => exact ⟨v₀,hi.vaultData.trans hv₀,hempty⟩

/-- Along a run whose steps all meet the condition, the totals are empty together or not at
all. -/
theorem empty_together {w₀ : World Address W} {ls : List (Label Address W)}
    (h₀ : ExactDeployed position w₀) (hrun : Run (CleanStep position) w₀ ls w) :
    ∃ v, w.storage.vaultData = some v ∧ (v.totalShares = 0 ↔ v.totalBTokens = 0) := by
  obtain ⟨t,r,hv₀⟩ := h₀.deployed.vaultData
  have hall : Tracks position w ∧ Backed w ∧
      ∃ v, w.storage.vaultData = some v ∧ EmptyTogether v := by
    apply hrun.invariant (fun w => Tracks position w ∧ Backed w ∧
      ∃ v, w.storage.vaultData = some v ∧ EmptyTogether v)
    · exact ⟨h₀.tracks,⟨_,hv₀,le_rfl,le_rfl⟩,_,hv₀,Iff.rfl⟩
    · intro t l u hstep h
      obtain ⟨htracks,hbacked,hempty⟩ := h
      exact ⟨(hstep.exact.tracks htracks).1,(hstep.exact.sound htracks hstep.nonneg).backed hbacked,
        hstep.emptyTogether htracks hbacked hempty⟩
  exact hall.2.2

end Dust

section Sample
attribute [local instance] FixedPoint.documented

/-- Three shares redeemed in full at a rate of one half leave a bToken to nobody. -/
theorem full_exit_leaves_bToken : ∃ (w₀ : World ℕ ℤ) (ls : List (Label ℕ ℤ)) (w : World ℕ ℤ)
    (v : VaultData), ExactDeployed id w₀ ∧ Run (ExactStep id) w₀ ls w ∧
      ls.map Label.call = [.deposit 3 7 7 7,.redeem 3 7 7 7] ∧ w.storage.vaultData = some v ∧
      ¬ (v.totalShares = 0 ↔ v.totalBTokens = 0) := by
  obtain ⟨w₀,ls,w,h₀,hrun,hend⟩ := exists_exact_run scalar12
    [((scalar12,0,1),.deposit 3 7 7 7),((500000000000,0,2),.redeem 3 7 7 7)] (by decide)
    (fun ls w => ls.map Label.call = [.deposit 3 7 7 7,.redeem 3 7 7 7] ∧
      w.storage.vaultData = some ⟨0,500000000000,0,1⟩) (by decide)
  obtain ⟨hcalls,hv⟩ := of_decide_eq_true hend
  exact ⟨w₀,ls,w,_,h₀,hrun,hcalls,hv,by decide⟩

/-- The same exit at a rate above one leaves nothing. -/
theorem empty_together_sample : ∃ (ls : List (Label ℕ ℤ)) (w : World ℕ ℤ) (v : VaultData),
    ls.map Label.call = [.deposit 20 7 7 7,.redeem 18 7 7 7] ∧
      w.storage.vaultData = some v ∧ (v.totalShares = 0 ↔ v.totalBTokens = 0) := by
  have hclean : ∀ (t : World ℕ ℤ) l u, Step t l u → l.found = t.outside → (l.env,l.call) ∈
      referenceCalls [((1100000000000,0,1),.deposit 20 7 7 7),
        ((1300000000000,0,2),.redeem 18 7 7 7)] → CleanStep id t l u := by
    intro t l u hstep hfound hmem
    have hcall := call_of_referenceCalls
      (P := fun c => c = .deposit 20 7 7 7 ∨ c = .redeem 18 7 7 7) (by simp) hmem
    have hrates := rates_of_referenceCalls (P := (scalar12 ≤ ·)) (s := t.storage) (by decide) hmem
    refine ⟨exactStep_of_referenceCalls (by decide) hstep hfound hmem,
      hstep.suppliesNonneg fun m hc => by simp [hc] at hcall,fun v _ => ⟨?_,?_,?_⟩⟩
    · intro assets receiver owner operator pool asset r hc
      simp [hc] at hcall
    · intro shares receiver owner operator pool asset r _ hserves hrate _
      exact roundTrips_of_scalar12_le (hrates pool asset _ r hserves hrate) _
    · intro m pool asset received swapped ext r hc
      simp [hc] at hcall
  obtain ⟨w₀,ls,w,hdeploy,hrun,hcalls⟩ := exists_run (e := referenceEnv 1100000000000 0 0) hclean
    (fun ls _ => ls.map Label.call = [.deposit 20 7 7 7,.redeem 18 7 7 7])
    (show (simulate _ 1 2 3 4 0 _).any _ = true by decide)
  obtain ⟨v,hv,hempty⟩ := empty_together (exactDeployed_of_deploy hdeploy) hrun
  exact ⟨ls,w,v,of_decide_eq_true hcalls,hv,hempty⟩

end Sample
end BlendVault
