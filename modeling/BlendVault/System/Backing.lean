import BlendVault.System.Tracking
import BlendVault.System.Dilution

/-! The bTokens behind the shares. No share is ever unbacked; while rates are at least one and
no emissions come in, each share is exactly one bToken. -/
namespace BlendVault
open FailStop RoundedDivision ProRata

/-- Every stored share has at least one bToken behind it. -/
def Backed {Address W : Type} (w : World Address W) : Prop :=
  ∃ v, w.storage.vaultData = some v ∧ v.fund.Backed

/-- As many bTokens as shares. -/
def AtPar {Address W : Type} (w : World Address W) : Prop :=
  ∃ v, w.storage.vaultData = some v ∧ 0 ≤ v.totalShares ∧ v.totalShares = v.totalBTokens

section Backing
variable {Address W : Type} [DecidableEq Address] [FixedPoint] {w w' : World Address W}
  {l : Label Address W} {v v₀ : VaultData} {u moved b n : ℤ}

section Exits
variable {held : ℤ} {receiver owner operator : Address} {c : Call Address}

omit [DecidableEq Address] in
theorem Exits.ne_deposit (h : Exits v held receiver owner operator u b n c) {assets : ℤ}
    {to_ from_ by_ : Address} : c ≠ .deposit assets to_ from_ by_ := by
  intro h
  subst h
  cases h

omit [DecidableEq Address] in
theorem Exits.ne_claimEmissions (h : Exits v held receiver owner operator u b n c) {m : ℤ} :
    c ≠ .claimEmissions m := by
  intro h
  subst h
  cases h

end Exits

/-- A step that may happen at any positive rate, with a claim never reported to cost bTokens. -/
structure SoundStep (w : World Address W) (l : Label Address W) (w' : World Address W) : Prop where
  step : Step w l w'
  rates : l.Rates w.storage (0 < ·)
  reports : Label.ReportsNoLess w l w'

/-- The pool takes no negative amount. -/
def Label.SuppliesNonneg (l : Label Address W) : Prop :=
  ∀ from_ amount moved, .supplied from_ amount moved ∈ l.flows → 0 ≤ amount

/-- Only a claim could ask it to. -/
theorem Step.suppliesNonneg (h : Step w l w') (hcall : ∀ m, l.call ≠ .claimEmissions m) :
    l.SuppliesNonneg := by
  intro from_ amount moved hmem
  cases h.accounts with
  | mint hm =>
    rw [hm.flows,List.mem_singleton] at hmem
    cases hmem
    exact hm.assets_pos.le
  | burn hb =>
    rw [hb.flows,List.mem_singleton] at hmem
    cases hmem
  | move hm =>
    rw [hm.flows] at hmem
    cases hmem
  | compound hc =>
    obtain ⟨m,hclaim⟩ := hc.call
    exact absurd hclaim (hcall m)
  | idle hi =>
    rw [hi.flows] at hmem
    cases hmem

/-- On an exact pool that takes no negative amount, a claim is reported to cost nothing. -/
theorem ExactStep.sound {position : W → ℤ} (h : ExactStep position w l w')
    (hw : Tracks position w) (hnonneg : l.SuppliesNonneg) : SoundStep w l w' := by
  refine ⟨h.step,?_,?_⟩
  · intro pool asset ext r hserves hr
    obtain ⟨r',hr',hpool⟩ := h.exact pool asset hserves
    rwa [hpool.rate hr]
  · intro m pool asset v b hcall hserves hv hb
    obtain ⟨r,hr,hpool⟩ := h.exact pool asset hserves
    obtain ⟨v₀,hv₀,hp⟩ := hw
    cases hv.symm.trans hv₀
    rw [hp,← h.untouched,hpool.reports hb]
    cases h.step.accounts with
    | mint hm => cases hm.call.symm.trans hcall
    | burn hb' => exact absurd hcall hb'.call.ne_claimEmissions
    | move hm => rcases hm.call with hc | ⟨_,hc⟩ <;> cases hc.symm.trans hcall
    | @compound pool asset v received moved b hc =>
      obtain ⟨rfl,rfl⟩ := hc.serves.unique hserves
      have hx : 0 ≤ received := hnonneg _ _ _ (hc.flows ▸ List.mem_singleton.mpr rfl)
      rw [hc.position_eq hpool]
      have hq := ediv_nonneg_of_pos hr (mul_nonneg hx scalar12_pos.le)
      omega
    | idle hi =>
      rcases hi.outside with hout | ⟨pool',asset',ids,hserves',hclaim⟩
      · rw [hout]
      · obtain ⟨rfl,rfl⟩ := hserves.unique hserves'
        rw [hpool.claim hclaim]

theorem SoundStep.backed (h : SoundStep w l w') (hw : Backed w) : Backed w' := by
  obtain ⟨hstep,hrates,hreports⟩ := h
  obtain ⟨v₀,hv₀,hbacked⟩ := hw
  cases hstep.accounts with
  | mint hm =>
    have hv := (Env.refreshed_fund hm.rate hv₀).symm ▸ hbacked
    refine ⟨_,hm.vaultData,?_⟩
    exact hv.issue hm.mints.shares_pos.le (hm.mints.shares_le hv)
  | burn hb =>
    have hv := (Env.refreshed_fund hb.rate hv₀).symm ▸ hbacked
    have hr := hrates.of_refreshed hb.serves hb.rate
    refine ⟨_,hb.vaultData,?_⟩
    exact hv.cancel hb.call.shares_pos.1.le hb.releases.shares_le hb.releases.bTokens_le
      (hb.call.price hr hb.releases)
  | move hm => exact ⟨v₀,hm.vaultData.trans hv₀,hbacked⟩
  | compound hc =>
    obtain ⟨m,hcall⟩ := hc.call
    have hS := Env.refreshed_totalShares hc.rate hv₀
    have hle := hreports m _ _ _ _ hcall hc.serves hv₀ hc.reported
    refine ⟨_,hc.vaultData,?_,?_⟩
    · exact hS ▸ hbacked.1
    · exact hS ▸ hbacked.2.trans hle
  | idle hi => exact ⟨v₀,hi.vaultData.trans hv₀,hbacked⟩

omit [FixedPoint] in
theorem Deployed.vaultData (h : Deployed w) :
    ∃ t r, w.storage.vaultData = some ⟨t,r,0,0⟩ := by
  obtain ⟨e,admin,pool,asset,blndToken,found,auths,-,hcreate⟩ := h.created
  obtain ⟨r,-,-,hg⟩ := EntryPoints.returns_constructor.mp hcreate
  rw [show w.storage = _ from congrArg Frame.storage hg]
  exact ⟨_,_,rfl⟩

omit [FixedPoint] in
theorem Deployed.sharesOf (h : Deployed w) (a : Address) : w.storage.sharesOf a = 0 := by
  obtain ⟨e,admin,pool,asset,blndToken,found,auths,-,hcreate⟩ := h.created
  obtain ⟨r,-,-,hg⟩ := EntryPoints.returns_constructor.mp hcreate
  rw [show w.storage = _ from congrArg Frame.storage hg]
  rfl

/-- In every state reached there are at least as many bTokens as shares; in particular there
are never shares without bTokens. -/
theorem shares_backed {w₀ : World Address W} {ls : List (Label Address W)} (h₀ : Deployed w₀)
    (hrun : Run SoundStep w₀ ls w) :
    ∃ v, w.storage.vaultData = some v ∧ 0 ≤ v.totalShares ∧ v.totalShares ≤ v.totalBTokens ∧
      ¬ (0 < v.totalShares ∧ v.totalBTokens = 0) := by
  obtain ⟨t,r,hv₀⟩ := h₀.vaultData
  obtain ⟨v,hv,h0,hle⟩ := hrun.invariant Backed ⟨_,hv₀,le_rfl,le_rfl⟩
    fun _ _ _ hstep hw => hstep.backed hw
  exact ⟨v,hv,h0,hle,fun h => absurd (h.2 ▸ hle) (not_le.mpr h.1)⟩

omit [DecidableEq Address] in
theorem Exits.bTokens_eq_shares {held : ℤ} {receiver owner operator : Address}
    {c : Call Address} (h : Exits v held receiver owner operator u b n c)
    (hv : v.Releases b n) (hr : 0 < v.bRate) (hpar : v.totalShares = v.totalBTokens)
    (hround : RoundTrips v.bRate n) : b = n := by
  have hS : 0 < v.totalShares := h.shares_pos.1.trans_le hv.shares_le
  cases h with
  | withdraw _ out =>
    cases out with
    | plain cost _ => exact (cost.shares_eq_bTokens hpar hS).symm
    | clamped _ _ _ value => exact value.bTokens_eq_shares hpar hr hS hround
  | redeem _ _ value _ => exact value.bTokens_eq_shares hpar hr hS hround

/-- A deposit into a vault at par mints as many shares as bTokens and leaves it at par. -/
theorem Mint.atPar {pool asset receiver from_ operator : Address} {assets : ℤ}
    (h : Mint w l w' pool asset receiver from_ operator v assets moved b n) (hw : AtPar w) :
    n = b ∧ AtPar w' := by
  obtain ⟨v₀,hv₀,h0,hpar⟩ := hw
  have hS := Env.refreshed_totalShares h.rate hv₀
  have hB := Env.refreshed_totalBTokens h.rate hv₀
  have hn := h.mints.shares_pos
  have heq : n = b := h.mints.shares_eq_bTokens (by omega) (by omega)
  refine ⟨heq,_,h.vaultData,?_,?_⟩
  · rw [VaultData.minted_totalShares]
    omega
  · rw [VaultData.minted_totalShares,VaultData.minted_totalBTokens]
    omega

/-- An exit that burns as many shares as bTokens leaves a vault at par. -/
theorem Burn.atPar {pool asset receiver owner operator : Address}
    (h : Burn w l w' pool asset receiver owner operator v u moved b n) (hw : AtPar w)
    (heq : b = n) : AtPar w' := by
  obtain ⟨v₀,hv₀,h0,hpar⟩ := hw
  have hS := Env.refreshed_totalShares h.rate hv₀
  have hB := Env.refreshed_totalBTokens h.rate hv₀
  have hle := h.releases.shares_le
  refine ⟨_,h.vaultData,?_,?_⟩
  · rw [VaultData.burnt_totalShares]
    omega
  · rw [VaultData.burnt_totalShares,VaultData.burnt_totalBTokens]
    omega

omit [DecidableEq Address] [FixedPoint] in
/-- The totals a call reads are at par when the stored ones are. -/
theorem AtPar.refreshed (hw : AtPar w) {e : Env Address W} {pool asset : Address} {ext : W}
    (hv : e.refreshed pool asset ext w.storage = some v) : v.totalShares = v.totalBTokens := by
  obtain ⟨v₀,hv₀,-,hpar⟩ := hw
  rw [Env.refreshed_totalShares hv hv₀,Env.refreshed_totalBTokens hv hv₀,hpar]

/-- A step at a rate of at least one in which no claim pays out. -/
structure PremiumStep (w : World Address W) (l : Label Address W) (w' : World Address W) :
    Prop where
  step : Step w l w'
  rates : l.Rates w.storage (scalar12 ≤ ·)
  unclaimed : ∀ m, l.call = .claimEmissions m → l.flows = []

/-- The parity of shares and bTokens survives, and a deposit mints as many of either. -/
theorem PremiumStep.atPar (h : PremiumStep w l w') (hw : AtPar w) : AtPar w' ∧
    ∀ assets receiver from_ operator, l.call = .deposit assets receiver from_ operator →
      ∃ pool asset n, l.result = some n ∧
        l.events = [.vaultDeposit pool asset from_ assets n n] := by
  obtain ⟨hstep,hrates,hunclaimed⟩ := h
  cases hstep.accounts with
  | @mint pool asset receiver from_ operator v assets moved b n hm =>
    obtain ⟨rfl,hpar⟩ := hm.atPar hw
    refine ⟨hpar,?_⟩
    intro _ _ _ _ hcall
    cases hm.call.symm.trans hcall
    exact ⟨pool,asset,n,hm.result,hm.events⟩
  | burn hb =>
    have hr := hrates.of_refreshed hb.serves hb.rate
    have heq := hb.call.bTokens_eq_shares hb.releases (scalar12_pos.trans_le hr)
      (hw.refreshed hb.rate) (roundTrips_of_scalar12_le hr _)
    refine ⟨hb.atPar hw heq,?_⟩
    intro _ _ _ _ hcall
    exact absurd hcall hb.call.ne_deposit
  | move hm =>
    obtain ⟨v₀,hv₀,hpar⟩ := hw
    refine ⟨⟨v₀,hm.vaultData.trans hv₀,hpar⟩,?_⟩
    intro _ _ _ _ hcall
    rcases hm.call with hc | ⟨_,hc⟩ <;> cases hc.symm.trans hcall
  | compound hc =>
    obtain ⟨m,hcall⟩ := hc.call
    have hnone := hunclaimed m hcall
    rw [hc.flows] at hnone
    cases hnone
  | idle hi =>
    obtain ⟨v₀,hv₀,hpar⟩ := hw
    refine ⟨⟨v₀,hi.vaultData.trans hv₀,hpar⟩,?_⟩
    intro _ _ _ _ hcall
    have hnone := hi.call
    rw [hcall] at hnone
    exact hnone.elim

/-- Until emissions come in, at rates of at least one, a share is a bToken: the totals agree
after every call and every deposit mints as many of one as of the other. -/
theorem share_is_bToken {w₀ : World Address W} {ls : List (Label Address W)} (h₀ : Deployed w₀)
    (hrun : Run PremiumStep w₀ ls w) (hstep : PremiumStep w l w') :
    (∃ v, w'.storage.vaultData = some v ∧ v.totalShares = v.totalBTokens) ∧
      ∀ assets receiver from_ operator, l.call = .deposit assets receiver from_ operator →
        ∃ pool asset n, l.result = some n ∧
          l.events = [.vaultDeposit pool asset from_ assets n n] := by
  obtain ⟨t,r,hv₀⟩ := h₀.vaultData
  have hpar : AtPar w := hrun.invariant AtPar ⟨_,hv₀,le_rfl,rfl⟩
    fun _ _ _ hstep hw => (hstep.atPar hw).1
  obtain ⟨⟨v,hv,-,heq⟩,hmint⟩ := hstep.atPar hpar
  exact ⟨⟨v,hv,heq⟩,hmint⟩

end Backing

section Sample
attribute [local instance] FixedPoint.documented

/-- At rates below one: a deposit that mints seven bTokens, and a redemption of part of it. -/
theorem shares_backed_sample : ∃ (ls : List (Label ℕ ℤ)) (w : World ℕ ℤ) (v : VaultData),
    ls.map Label.call = [.deposit 3 7 7 7,.redeem 4 7 7 7] ∧ w.storage.vaultData = some v ∧
      0 ≤ v.totalShares ∧ v.totalShares ≤ v.totalBTokens := by
  have hsound : ∀ (t : World ℕ ℤ) l u, Step t l u → l.found = t.outside → (l.env,l.call) ∈
      referenceCalls [((400000000000,0,1),.deposit 3 7 7 7),((500000000000,0,2),.redeem 4 7 7 7)] →
      SoundStep t l u := by
    intro t l u hstep _ hmem
    have hcall := call_of_referenceCalls (P := fun c => ∀ m, c ≠ .claimEmissions m) (by simp) hmem
    exact ⟨hstep,rates_of_referenceCalls (by decide) hmem,fun m _ _ _ _ hc => absurd hc (hcall m)⟩
  obtain ⟨w₀,ls,w,hdeploy,hrun,hcalls⟩ := exists_run (e := referenceEnv 400000000000 0 0) hsound
    (fun ls _ => ls.map Label.call = [.deposit 3 7 7 7,.redeem 4 7 7 7])
    (show (simulate _ 1 2 3 4 0 _).any _ = true by decide)
  obtain ⟨v,hv,h0,hle,-⟩ := shares_backed (deploy_deployed hdeploy) hrun
  exact ⟨ls,w,v,of_decide_eq_true hcalls,hv,h0,hle⟩

/-- At varying rates above one: a deposit, a redemption, and another deposit. -/
theorem share_is_bToken_sample : ∃ (l : Label ℕ ℤ) (w : World ℕ ℤ) (v : VaultData),
    l.call = .deposit 9 8 8 8 ∧ w.storage.vaultData = some v ∧ v.totalShares = v.totalBTokens ∧
      ∃ pool asset n, l.result = some n ∧ l.events = [.vaultDeposit pool asset 8 9 n n] := by
  have hpremium : ∀ (t : World ℕ ℤ) l u, Step t l u → l.found = t.outside → (l.env,l.call) ∈
      referenceCalls [((1100000000000,0,1),.deposit 20 7 7 7),
        ((1300000000000,0,2),.redeem 4 7 7 7),((1700000000000,0,3),.deposit 9 8 8 8)] →
      PremiumStep t l u := by
    intro t l u hstep _ hmem
    have hcall := call_of_referenceCalls (P := fun c => ∀ m, c ≠ .claimEmissions m) (by simp) hmem
    exact ⟨hstep,rates_of_referenceCalls (by decide) hmem,fun m hc => absurd hc (hcall m)⟩
  obtain ⟨w₀,ls,w,hdeploy,hrun,hcalls⟩ := exists_run (e := referenceEnv 1100000000000 0 0) hpremium
    (fun ls _ => ls.map Label.call =
      [.deposit 20 7 7 7,.redeem 4 7 7 7,.deposit 9 8 8 8])
    (show (simulate _ 1 2 3 4 0 _).any _ = true by decide)
  have hcalls := of_decide_eq_true hcalls
  cases hrun with
  | nil => cases hcalls
  | @snoc ls l t u hrun hlast =>
    have hcall : l.call = .deposit 9 8 8 8 := by
      simpa using congrArg List.getLast? hcalls
    obtain ⟨⟨v,hv,hpar⟩,hmint⟩ := share_is_bToken (deploy_deployed hdeploy) hrun hlast
    exact ⟨l,w,v,hcall,hv,hpar,hmint 9 8 8 8 hcall⟩

end Sample
end BlendVault
