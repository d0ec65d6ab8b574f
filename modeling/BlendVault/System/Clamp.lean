import BlendVault.System.Requests

/-! Requests beyond the holding. They are meant to pay the whole holding out, whatever was asked
for; but the request is priced before it is cut down, and the value it is cut down to is not
checked again. -/
namespace BlendVault
open FailStop RoundedDivision ProRata

section Clamp
variable {Address W : Type} [DecidableEq Address] [FixedPoint] {e : Env Address W}
  {pool asset user : Address} {f : Frame Address W} {v : VaultData} {amount u b s : ℤ}

omit [FixedPoint] in
/-- With sound books, whoever has shares is a holder at every positive rate. -/
theorem Sound.holder {w : World Address W} {ext : W} (hw : Sound w)
    (hv : e.refreshed pool asset ext w.storage = some v) (hr : 0 < v.bRate)
    (hheld : 0 < w.storage.sharesOf user) :
    Holder e pool asset user (.fresh w.storage ext) v := by
  obtain ⟨⟨hnonneg,v₀,hv₀,htotal⟩,⟨v₁,hv₁,hbacked⟩,v₂,hv₂,hfit⟩ := hw
  cases hv₀.symm.trans hv₁
  cases hv₀.symm.trans hv₂
  have hS := Env.refreshed_totalShares hv hv₀
  have hB := Env.refreshed_totalBTokens hv hv₀
  have hle : w.storage.sharesOf user ≤ v.totalShares := by
    have hread := FiniteStore.read_le_total w.storage.shares hnonneg user
    rw [htotal,add_zero,← hS] at hread
    exact hread
  have hSB : v.totalShares ≤ v.totalBTokens := by
    rw [hS,hB]
    exact hbacked.2
  exact ⟨hv,hr,(hheld.trans_le hle).trans_le hSB,hheld,hle,hS ▸ hfit.1,hB ▸ hfit.2⟩

/-- A withdrawal pays nothing exactly when the holding it is cut down to is worth nothing. -/
theorem Holder.withdraw_pays_iff (h : Holder e pool asset user f v) (ha : 0 < amount) :
    (∀ paid burnt s g, Returns (Vault.withdraw e pool asset user amount) f (paid,burnt,s) g →
      0 < paid ∧ 0 < burnt ∧ 0 < s) ↔
    0 < v.exactUnderlying v.bRate (f.storage.sharesOf user) ∨
      ¬ v.Computes (f.storage.sharesOf user) amount := by
  have hworth := VaultData.exactUnderlying_nonneg h.shares_pos.le h.bTokens_pos.le h.rate_pos.le
    (f.storage.sharesOf user)
  constructor
  · intro hpays
    by_contra hno
    rw [not_or,not_lt,not_not] at hno
    have hret := h.returns_withdraw_of_lt hno.2 (hno.1.trans_lt ha)
    exact absurd (hpays _ _ _ _ hret).1 (not_lt.mpr hno.1)
  · intro hcond paid burnt s g hret
    obtain ⟨v',u,b,s',hp,hv',hw,-⟩ := Vault.returns_withdraw.mp hret
    cases h.refreshed.symm.trans hv'
    cases hp
    have hcomputes := hw.computes h.rate_pos h.shares_pos h.bTokens_pos
    have hpos : 0 < v.exactUnderlying v.bRate (f.storage.sharesOf user) :=
      hcond.resolve_right (not_not.mpr hcomputes)
    cases hw with
    | plain cost enough => exact ⟨ha,cost.bTokens_pos,cost.shares_pos⟩
    | clamped cost short held_pos value =>
      have hpaid : paid = v.exactUnderlying v.bRate (f.storage.sharesOf user) := by
        rw [value.underlying_eq h.shares_pos,VaultData.exactUnderlying,
          VaultData.exactBTokens_eq_quote held_pos h.shares_pos]
      have hburnt := value.bTokens_eq h.rate_pos
      rw [hpaid] at hburnt ⊢
      exact ⟨hpos,hburnt ▸ ceilDiv_pos h.rate_pos (mul_pos hpos scalar12_pos),held_pos⟩

/-- Wherever an ordinary run leads, a redemption that returns has paid and burnt something, and
one of worthless shares is refused; a withdrawal that returns has done so exactly when the owner
has no shares, or shares worth something, or the request cannot be computed. -/
theorem exits_pay_iff {w₀ w : World Address W} {ls : List (Label Address W)} {ext : W}
    (h₀ : Deployed w₀) (hrun : Run OrdinaryStep w₀ ls w)
    (hv : e.refreshed pool asset ext w.storage = some v) (hr : 0 < v.bRate) (user : Address)
    (ha : 0 < amount) :
    (∀ paid burnt g, Returns (Vault.redeem e pool asset user amount) (.fresh w.storage ext)
      (paid,burnt) g → 0 < paid ∧ 0 < burnt) ∧
    (amount ≤ w.storage.sharesOf user → v.Valuable v.bRate amount →
      v.exactUnderlying v.bRate amount = 0 →
      Fails (Vault.redeem e pool asset user amount) (.fresh w.storage ext)
        (.contract .invalidBTokensBurnt)) ∧
    ((∀ paid burnt s g, Returns (Vault.withdraw e pool asset user amount) (.fresh w.storage ext)
      (paid,burnt,s) g → 0 < paid ∧ 0 < burnt ∧ 0 < s) ↔
      w.storage.sharesOf user ≤ 0 ∨ 0 < v.exactUnderlying v.bRate (w.storage.sharesOf user) ∨
        ¬ v.Computes (w.storage.sharesOf user) amount) := by
  have hsound : Sound w := hrun.invariant Sound h₀.sound fun _ _ _ hstep => hstep.keeps_sound
  refine ⟨?_,?_,?_⟩
  · intro paid burnt g hret
    obtain ⟨v',u,b,hp,hv',-,-,hvalue,hu,-⟩ := Vault.returns_redeem.mp hret
    cases hv.symm.trans hv'
    cases hp
    have hb := hvalue.bTokens_eq hr
    exact ⟨hu,hb ▸ ceilDiv_pos hr (mul_pos hu scalar12_pos)⟩
  · intro hle hfits hworth
    have h := hsound.holder hv hr (ha.trans_le hle)
    have hvalue := hfits.values hr h.shares_pos h.bTokens_pos.le ha
    obtain ⟨d,hd,hu⟩ := hvalue.underlying
    exact Vault.redeem_fails_of_worthless hv ha hle hd hu (by omega)
  · by_cases hheld : 0 < w.storage.sharesOf user
    · have hiff := (hsound.holder hv hr hheld).withdraw_pays_iff ha
      rw [or_iff_right (not_le.mpr hheld)]
      exact hiff
    · refine iff_of_true ?_ (.inl (not_lt.mp hheld))
      intro paid burnt s g hret
      obtain ⟨v',u,b,s',hp,hv',hw,-⟩ := Vault.returns_withdraw.mp hret
      have hs := hw.shares_pos
      exact absurd (hs.1.trans_le hs.2) hheld

end Clamp

section Sample
attribute [local instance] FixedPoint.documented

/-- At a rate that has fallen to one half, a withdrawal burns the only share and pays nothing. -/
theorem withdraw_pays_nothing : ∃ (w₀ : World ℕ ℤ) (ls : List (Label ℕ ℤ)) (w : World ℕ ℤ)
    (g : Frame ℕ ℤ), Deployed w₀ ∧ Run OrdinaryStep w₀ ls w ∧
      ls.map Label.call = [.deposit 1 7 7 7] ∧
      Returns (Vault.withdraw (referenceEnv 500000000000 0 2) 2 3 7 1)
        (.fresh w.storage w.outside) (0,0,1) g := by
  obtain ⟨w₀,ls,w,hdeploy,hrun,hq⟩ := exists_run (e := referenceEnv scalar12 0 0)
    (ordinaryStep_of_referenceCalls [((scalar12,0,1),.deposit 1 7 7 7)] (by simp [Call.Trades])
      (by decide))
    (fun ls w => ls.map Label.call = [.deposit 1 7 7 7] ∧
      value (Vault.withdraw (referenceEnv 500000000000 0 2) 2 3 7 1) (.fresh w.storage w.outside) =
        some (0,0,1))
    (show (simulate _ 1 2 3 4 0 _).any _ = true by decide)
  obtain ⟨hcalls,hvalue⟩ := of_decide_eq_true hq
  obtain ⟨g,hret⟩ := value_eq_some.mp hvalue
  exact ⟨w₀,ls,w,g,deploy_deployed hdeploy,hrun,hcalls,hret⟩

/-- After a deposit of ten, withdrawing four at a rate of two burns something for them. -/
theorem exits_pay_iff_sample : ∃ (ls : List (Label ℕ ℤ)) (w : World ℕ ℤ) (burnt s : ℤ)
    (g : Frame ℕ ℤ), ls.map Label.call = [.deposit 10 7 7 7] ∧
      Returns (Vault.withdraw (referenceEnv 2000000000000 0 2) 2 3 7 4)
        (.fresh w.storage w.outside) (4,burnt,s) g ∧ 0 < burnt ∧ 0 < s := by
  obtain ⟨w₀,ls,w,hdeploy,hrun,hq⟩ := exists_run (e := referenceEnv scalar12 0 0)
    (ordinaryStep_of_referenceCalls [((scalar12,0,1),.deposit 10 7 7 7)] (by simp [Call.Trades])
      (by decide))
    (fun ls w => ls.map Label.call = [.deposit 10 7 7 7] ∧
      w.storage.vaultData = some ⟨0,scalar12,10,10⟩ ∧ w.storage.sharesOf 7 = 10 ∧
      value (Vault.withdraw (referenceEnv 2000000000000 0 2) 2 3 7 4)
        (.fresh w.storage w.outside) = some (4,2,2))
    (show (simulate _ 1 2 3 4 0 _).any _ = true by decide)
  obtain ⟨hcalls,hv,hshares,hvalue⟩ := of_decide_eq_true hq
  obtain ⟨g,hret⟩ := value_eq_some.mp hvalue
  have hrefreshed : (referenceEnv 2000000000000 0 2).refreshed 2 3 w.outside w.storage =
      some ⟨0,2000000000000,10,10⟩ := Env.refreshed_of_rate hv rfl
  obtain ⟨-,-,hiff⟩ := exits_pay_iff (deploy_deployed hdeploy) hrun hrefreshed (by decide) 7
    (show (0 : ℤ) < 4 by decide)
  obtain ⟨-,hburnt,hs⟩ := hiff.mpr (.inr (.inl (by rw [hshares]; decide))) _ _ _ _ hret
  exact ⟨ls,w,2,2,g,hcalls,hret,hburnt,hs⟩

end Sample
end BlendVault
