import BlendVault.System.Backing

/-! What may trap on the way out. Whatever a run of deposits and exits leads to, valuing all of
a holder's shares takes two products, and the redemption traps exactly when one of them does
not fit. -/
namespace BlendVault
open FailStop RoundedDivision ProRata

/-- The highest bRate considered, ten underlying for a bToken. -/
def maxBRate : ℤ := 10000000000000

theorem i128Max_nonneg : 0 ≤ i128Max := by decide

namespace VaultData
variable {v : VaultData} {r n : ℤ}

/-- The two products taken to value `n` shares fit. -/
def Valuable (v : VaultData) (r n : ℤ) : Prop :=
  n*v.totalBTokens ≤ i128Max ∧ v.exactBTokens n*r ≤ i128Max

instance (v : VaultData) (r n : ℤ) : Decidable (v.Valuable r n) :=
  inferInstanceAs (Decidable (_ ∧ _))

/-- A vault that keeps its bTokens below the square root of `i128::MAX` can value any holding. -/
theorem valuable_of_sq_le (hv : v.fund.Backed) (hr : 0 < r) (hmax : r ≤ maxBRate) (hn : 0 < n)
    (hle : n ≤ v.totalShares) (hsq : v.totalBTokens*v.totalBTokens ≤ i128Max) :
    v.Valuable r n := by
  have hSB : v.totalShares ≤ v.totalBTokens := hv.2
  have hS : 0 < v.totalShares := hn.trans_le hle
  have hB : 0 < v.totalBTokens := hS.trans_le hSB
  have hq : v.exactBTokens n ≤ v.totalBTokens := by
    rw [exactBTokens_eq_quote hn hS]
    exact quote_le_assets hS hB.le hle
  refine ⟨?_,?_⟩
  · calc
      n*v.totalBTokens ≤ v.totalBTokens*v.totalBTokens :=
        mul_le_mul_of_nonneg_right (hle.trans hSB) hB.le
      _ ≤ i128Max := hsq
  · have hroot : v.totalBTokens < 2^64 := by
      by_contra h
      have hbig : (2^64 : ℤ)*2^64 ≤ v.totalBTokens*v.totalBTokens :=
        mul_le_mul (not_lt.mp h) (not_lt.mp h) (by norm_num) hB.le
      exact absurd (hbig.trans hsq) (by decide)
    calc
      v.exactBTokens n*r ≤ 2^64*maxBRate :=
        mul_le_mul (hq.trans hroot.le) hmax hr.le (by norm_num)
      _ ≤ i128Max := by decide

/-- Where one product does not fit, a conversion has no result. -/
theorem unvalued_of_not_valuable [FixedPoint] (hn : 0 < n) (hle : n ≤ v.totalShares)
    (h : ¬ v.Valuable v.bRate n) :
    v.sharesToBTokensDown n = none ∨
      ∃ d, v.sharesToBTokensDown n = some d ∧ v.bTokensToUnderlyingDown d = none := by
  have hS : 0 < v.totalShares := hn.trans_le hle
  cases hd : v.sharesToBTokensDown n with
  | none => exact .inl rfl
  | some d =>
    obtain ⟨hfit,hdq⟩ := (sharesToBTokensDown_eq_some hS).mp hd
    refine .inr ⟨d,rfl,?_⟩
    cases hu : v.bTokensToUnderlyingDown d with
    | none => rfl
    | some u =>
      have hfit' := (bTokensToUnderlyingDown_eq_some.mp hu).1
      rw [hdq] at hfit'
      rw [Valuable,exactBTokens_eq_quote hn hS] at h
      exact absurd ⟨hfit.2,hfit'.2⟩ h

/-- Where both fit, the holding has its exact value. -/
theorem Valuable.values [FixedPoint] (h : v.Valuable v.bRate n) (hr : 0 < v.bRate)
    (hS : 0 < v.totalShares) (hB : 0 ≤ v.totalBTokens) (hn : 0 < n) :
    v.Values n (v.exactUnderlying v.bRate n)
      (ceilDiv (v.exactUnderlying v.bRate n*scalar12) v.bRate) := by
  have hq : 0 ≤ quote v.fund n := quote_nonneg hS.le hB hn.le
  rw [Valuable,exactBTokens_eq_quote hn hS] at h
  rw [exactUnderlying,exactBTokens_eq_quote hn hS]
  exact v.values_of_fits hr hS hB hn.le (inI128_of_nonneg (mul_nonneg hn.le hB) h.1)
    (inI128_of_nonneg (mul_nonneg hq hr.le) h.2)

end VaultData

section Run
variable {Address W : Type} [DecidableEq Address] [FixedPoint] {w w' : World Address W}
  {l : Label Address W} {v : VaultData}

/-- A deposit or an exit at a positive rate of at most `maxBRate`. -/
structure TradeStep (w : World Address W) (l : Label Address W) (w' : World Address W) : Prop where
  step : Step w l w'
  trades : l.call.Trades
  rates : l.Rates w.storage fun r => 0 < r ∧ r ≤ maxBRate

/-- Both totals fit. -/
def Fits (w : World Address W) : Prop :=
  ∃ v, w.storage.vaultData = some v ∧ v.totalShares ≤ i128Max ∧ v.totalBTokens ≤ i128Max

/-- Any call at a positive rate but a transfer to oneself or a claim of emissions. -/
structure OrdinaryStep (w : World Address W) (l : Label Address W) (w' : World Address W) :
    Prop where
  step : Step w l w'
  apart : ¬ l.call.SelfTransfer
  unclaimed : ∀ m, l.call ≠ .claimEmissions m
  rates : l.Rates w.storage (0 < ·)

theorem OrdinaryStep.sound (h : OrdinaryStep w l w') : SoundStep w l w' :=
  ⟨h.step,h.rates,fun m _ _ _ _ hcall => absurd hcall (h.unclaimed m)⟩

theorem OrdinaryStep.fits (h : OrdinaryStep w l w') (hw : Fits w) : Fits w' := by
  obtain ⟨v,hv,hfit⟩ := hw
  cases h.step.accounts with
  | mint hm => exact ⟨_,hm.vaultData,hm.shares_fit.2,hm.bTokens_fit.2⟩
  | burn hb => exact ⟨_,hb.vaultData,hb.releases.shares_fit.2,hb.releases.bTokens_fit.2⟩
  | move hm => exact ⟨v,hm.vaultData.trans hv,hfit⟩
  | compound hc =>
    obtain ⟨m,hcall⟩ := hc.call
    exact absurd hcall (h.unclaimed m)
  | idle hi => exact ⟨v,hi.vaultData.trans hv,hfit⟩

theorem TradeStep.ordinary (h : TradeStep w l w') : OrdinaryStep w l w' := by
  have htrades := h.trades
  refine ⟨h.step,?_,?_,fun pool asset ext r hs hr => (h.rates pool asset ext r hs hr).1⟩
  · intro hself
    cases hc : l.call <;> simp_all [Call.Trades,Call.SelfTransfer]
  · intro m hm
    rw [hm] at htrades
    exact htrades.elim

/-- What an ordinary run keeps of the books. -/
structure Sound (w : World Address W) : Prop where
  balanced : Balanced 0 w.storage
  backed : Backed w
  fits : Fits w

omit [FixedPoint] in
theorem Deployed.sound (h : Deployed w) : Sound w := by
  obtain ⟨t,r,hv⟩ := h.vaultData
  exact ⟨h.balanced,⟨_,hv,le_rfl,le_rfl⟩,⟨_,hv,i128Max_nonneg,i128Max_nonneg⟩⟩

theorem OrdinaryStep.keeps_sound (h : OrdinaryStep w l w') (hw : Sound w) : Sound w' := by
  have hbalanced := h.step.balanced hw.balanced
  obtain ⟨h0,hself⟩ := h.step.selfTransferred_pos
  have hzero : l.call.selfTransferred = 0 := le_antisymm (not_lt.mp (mt hself.mpr h.apart)) h0
  rw [hzero,add_zero] at hbalanced
  exact ⟨hbalanced,h.sound.backed hw.backed,h.fits hw.fits⟩

section Exit
variable {e : Env Address W} {pool asset holder receiver : Address} {ext : W} {r : ℤ}

/-- With sound books the redemption of a whole holding returns its exact value as soon as both
products fit. -/
theorem Sound.returns_redeem (hw : Sound w) (hserves : w.storage.Serves pool asset)
    (hv : w.storage.vaultData = some v) (hrate : e.bRate pool asset ext = some r) (hr : 0 < r)
    (hsigned : e.signed holder = true) (hpos : 0 < w.storage.sharesOf holder)
    (hle : w.storage.sharesOf holder ≤ v.totalShares)
    (hvalue : 0 < v.exactUnderlying r (w.storage.sharesOf holder))
    (hpay : ∃ moved ext', (e.pool pool).submit ext e.currentContractAddress
      e.currentContractAddress receiver
      [⟨asset,v.exactUnderlying r (w.storage.sharesOf holder),1⟩] = some (moved,ext'))
    (hvaluable : v.Valuable r (w.storage.sharesOf holder)) :
    ∃ f, Returns (EntryPoints.redeem e (w.storage.sharesOf holder) receiver holder holder)
      (.fresh w.storage ext) (v.exactUnderlying r (w.storage.sharesOf holder)) f := by
  obtain ⟨-,⟨v',hv',hbacked⟩,⟨v'',hv'',hSfit,hBfit⟩⟩ := hw
  cases hv.symm.trans hv'
  cases hv.symm.trans hv''
  set n := w.storage.sharesOf holder with hn
  -- the totals as the redemption reads them
  set v₁ : VaultData := {v with lastUpdateTimestamp := e.timestamp, bRate := r} with hv₁
  have hrefreshed : e.refreshed pool asset ext w.storage = some v₁ := Env.refreshed_of_rate hv hrate
  have hS : 0 < v.totalShares := hpos.trans_le hle
  have hvalues := VaultData.Valuable.values (v := v₁) hvaluable hr hS (hS.le.trans hbacked.2) hpos
  have hq : quote v₁.fund n ≤ v.totalBTokens :=
    quote_le_assets (f := v₁.fund) hS (hS.le.trans hbacked.2) hle
  have hb₀ : 0 ≤ ceilDiv (v₁.exactUnderlying v₁.bRate n*scalar12) v₁.bRate :=
    ceilDiv_nonneg hr (mul_nonneg hvalue.le scalar12_pos.le)
  have hrel := VaultData.releases_of_le (v := v₁) hpos.le hle hb₀
    ((hvalues.bTokens_le hr hS).trans hq) hSfit hBfit
  have hfit : InI128 (n-n) := by
    rw [sub_self]
    decide
  obtain ⟨moved,ext',hsubmit⟩ := hpay
  exact ⟨_,EntryPoints.returns_redeem.mpr ⟨pool,asset,v₁,_,w.storage,moved,ext',
    ⟨by simp [Frame.fresh],hsigned,trivial⟩,hpos,hserves.pool_eq,hserves.asset_eq,hrefreshed,le_rfl,
    hvalues,hvalue,hrel,hfit,.self rfl,hsubmit,rfl⟩⟩

/-- A holder whose shares are worth something gets their exact value out, or the redemption
traps, which it does exactly when one of the two products does not fit. -/
theorem exit_traps_iff {w₀ : World Address W} {ls : List (Label Address W)} (h₀ : Deployed w₀)
    (hrun : Run TradeStep w₀ ls w) (hserves : w.storage.Serves pool asset)
    (hv : w.storage.vaultData = some v) (hrate : e.bRate pool asset ext = some r) (hr : 0 < r)
    (hmax : r ≤ maxBRate) (hsigned : e.signed holder = true)
    (hpos : 0 < w.storage.sharesOf holder)
    (hvalue : 0 < v.exactUnderlying r (w.storage.sharesOf holder))
    (hpay : ∃ moved ext', (e.pool pool).submit ext e.currentContractAddress
      e.currentContractAddress receiver
      [⟨asset,v.exactUnderlying r (w.storage.sharesOf holder),1⟩] = some (moved,ext')) :
    (Fails (EntryPoints.redeem e (w.storage.sharesOf holder) receiver holder holder)
        (.fresh w.storage ext) .trap ↔ ¬ v.Valuable r (w.storage.sharesOf holder)) ∧
      (v.Valuable r (w.storage.sharesOf holder) → ∃ f,
        Returns (EntryPoints.redeem e (w.storage.sharesOf holder) receiver holder holder)
          (.fresh w.storage ext) (v.exactUnderlying r (w.storage.sharesOf holder)) f) ∧
      (v.totalBTokens*v.totalBTokens ≤ i128Max → v.Valuable r (w.storage.sharesOf holder)) := by
  have hsound : Sound w := hrun.invariant Sound h₀.sound fun _ _ _ hstep =>
    hstep.ordinary.keeps_sound
  obtain ⟨v',hv',hbacked⟩ := hsound.backed
  cases hv.symm.trans hv'
  have hle : w.storage.sharesOf holder ≤ v.totalShares := by
    obtain ⟨hnonneg,v'',hv'',htotal⟩ := hsound.balanced
    cases hv.symm.trans hv''
    have hread := FiniteStore.read_le_total w.storage.shares hnonneg holder
    rwa [htotal,add_zero] at hread
  have hreturns := hsound.returns_redeem hserves hv hrate hr hsigned hpos hle hvalue hpay
  refine ⟨⟨?_,?_⟩,hreturns,VaultData.valuable_of_sq_le hbacked hr hmax hpos hle⟩
  · intro htrap hvaluable
    obtain ⟨f,hf⟩ := hreturns hvaluable
    exact htrap.not_returns hf
  · intro hnot
    have hnone := VaultData.unvalued_of_not_valuable
      (v := {v with lastUpdateTimestamp := e.timestamp, bRate := r}) hpos hle hnot
    exact EntryPoints.redeem_fails ⟨by simp [Frame.fresh],hsigned,trivial⟩ hpos hserves.pool_eq
      hserves.asset_eq
      (Vault.redeem_fails_of_overflow (Env.refreshed_of_rate hv hrate) hpos le_rfl hnone)

end Exit

end Run

section Sample
attribute [local instance] FixedPoint.documented

theorem tradeStep_of_referenceCalls (cs : List ((ℤ × ℤ × ℕ) × Call ℕ))
    (hcalls : ∀ c ∈ cs, c.2.Trades) (hrates : ∀ c ∈ cs, 0 < c.1.1 ∧ c.1.1 ≤ maxBRate)
    (t : World ℕ ℤ) (l : Label ℕ ℤ) (u : World ℕ ℤ) (hstep : Step t l u)
    (_ : l.found = t.outside) (hmem : (l.env,l.call) ∈ referenceCalls cs) : TradeStep t l u :=
  ⟨hstep,call_of_referenceCalls hcalls hmem,rates_of_referenceCalls hrates hmem⟩

theorem ordinaryStep_of_referenceCalls (cs : List ((ℤ × ℤ × ℕ) × Call ℕ))
    (hcalls : ∀ c ∈ cs, c.2.Trades) (hrates : ∀ c ∈ cs, 0 < c.1.1 ∧ c.1.1 ≤ maxBRate)
    (t : World ℕ ℤ) (l : Label ℕ ℤ) (u : World ℕ ℤ) (hstep : Step t l u)
    (hfound : l.found = t.outside) (hmem : (l.env,l.call) ∈ referenceCalls cs) :
    OrdinaryStep t l u :=
  (tradeStep_of_referenceCalls cs hcalls hrates t l u hstep hfound hmem).ordinary

/-- A single deposit of 2·10^19 at a rate of one, which the empty vault takes without a product
of shares and bTokens, and whose redemption needs one of 4·10^38. -/
theorem large_deposit_traps : ∃ (w₀ : World ℕ ℤ) (ls : List (Label ℕ ℤ)) (w : World ℕ ℤ)
    (v : VaultData), Deployed w₀ ∧ Run TradeStep w₀ ls w ∧ w.storage.Serves 2 3 ∧
      w.storage.vaultData = some v ∧ (referenceEnv scalar12 0 2).bRate 2 3 w.outside = some scalar12 ∧
      0 < w.storage.sharesOf 7 ∧ 0 < v.exactUnderlying scalar12 (w.storage.sharesOf 7) ∧
      (((referenceEnv scalar12 0 2).pool 2).submit w.outside 0 0 7
        [⟨3,v.exactUnderlying scalar12 (w.storage.sharesOf 7),1⟩]).isSome = true ∧
      Fails (EntryPoints.redeem (referenceEnv scalar12 0 2) (w.storage.sharesOf 7) 7 7 7)
        (.fresh w.storage w.outside) .trap := by
  obtain ⟨w₀,ls,w,hdeploy,hrun,hq⟩ := exists_run (e := referenceEnv scalar12 0 0)
    (tradeStep_of_referenceCalls [((scalar12,0,1),.deposit 20000000000000000000 7 7 7)]
      (by simp [Call.Trades]) (by decide))
    (fun _ w => w.storage.pool = some 2 ∧ w.storage.asset = some 3 ∧
      w.storage.vaultData = some ⟨0,scalar12,20000000000000000000,20000000000000000000⟩ ∧
      w.storage.sharesOf 7 = 20000000000000000000 ∧ w.outside = 20000000000000000000 ∧
      failure (EntryPoints.redeem (referenceEnv scalar12 0 2) (w.storage.sharesOf 7) 7 7 7)
        (.fresh w.storage w.outside) = some .trap)
    (show (simulate _ 1 2 3 4 0 _).any _ = true by decide)
  obtain ⟨hpool,hasset,hv,hshares,hout,hfails⟩ := of_decide_eq_true hq
  refine ⟨w₀,ls,w,_,deploy_deployed hdeploy,hrun,⟨hpool,hasset⟩,hv,rfl,?_,?_,?_,
    failure_eq_some.mp hfails⟩
  · rw [hshares]
    decide
  · rw [hshares]
    decide
  · rw [hshares,hout]
    decide

/-- With 1.3·10^19 bTokens in the vault every holding can still be valued. -/
theorem exit_traps_iff_sample : ∃ (ls : List (Label ℕ ℤ)) (w : World ℕ ℤ) (f : Frame ℕ ℤ),
    ls.map Label.call =
      [.deposit 10000000000000000000 7 7 7,.deposit 3000000000000000000 8 8 8] ∧
    Returns (EntryPoints.redeem (referenceEnv scalar12 0 3) 10000000000000000000 7 7 7)
      (.fresh w.storage w.outside) 10000000000000000000 f := by
  obtain ⟨w₀,ls,w,hdeploy,hrun,hq⟩ := exists_run (e := referenceEnv scalar12 0 0)
    (tradeStep_of_referenceCalls [((scalar12,0,1),.deposit 10000000000000000000 7 7 7),
      ((scalar12,0,2),.deposit 3000000000000000000 8 8 8)] (by simp [Call.Trades]) (by decide))
    (fun ls w => ls.map Label.call =
        [.deposit 10000000000000000000 7 7 7,.deposit 3000000000000000000 8 8 8] ∧
      w.storage.pool = some 2 ∧ w.storage.asset = some 3 ∧
      w.storage.vaultData = some ⟨0,scalar12,13000000000000000000,13000000000000000000⟩ ∧
      w.storage.sharesOf 7 = 10000000000000000000 ∧ w.outside = 13000000000000000000)
    (show (simulate _ 1 2 3 4 0 _).any _ = true by decide)
  obtain ⟨hcalls,hpool,hasset,hv,hshares,hout⟩ := of_decide_eq_true hq
  have hrate : (referenceEnv scalar12 0 3).bRate 2 3 w.outside = some scalar12 := rfl
  have hpay : ∃ moved ext', ((referenceEnv scalar12 0 3).pool 2).submit w.outside 0 0 7
      [⟨3,VaultData.exactUnderlying ⟨0,scalar12,13000000000000000000,13000000000000000000⟩ scalar12
        (w.storage.sharesOf 7),1⟩] = some (moved,ext') := by
    rw [hshares,hout]
    exact ⟨_,_,rfl⟩
  obtain ⟨-,hreturns,hvaluable⟩ := exit_traps_iff (deploy_deployed hdeploy) hrun ⟨hpool,hasset⟩ hv
    hrate scalar12_pos (by decide) (show _ = true from rfl) (by rw [hshares]; decide)
    (by rw [hshares]; decide) hpay
  obtain ⟨f,hf⟩ := hreturns (hvaluable (by decide))
  rw [hshares] at hf
  exact ⟨ls,w,f,hcalls,hf⟩

end Sample
end BlendVault
