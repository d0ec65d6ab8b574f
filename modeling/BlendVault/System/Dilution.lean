import BlendVault.System.Balances

/-! No step dilutes the holders it does not debit: bTokens per share never fall, and neither
do their shares or what these are quoted at. -/
namespace BlendVault
open FailStop ProRata

/-- The account whose shares a call burns or sends away. -/
def Call.debited {Address : Type} : Call Address → Option Address
  | .withdraw _ _ owner _ => some owner
  | .redeem _ _ owner _ => some owner
  | .transfer from_ _ _ => some from_
  | .transferFrom _ from_ _ _ => some from_
  | _ => none

section Price
variable {Address W : Type} [FixedPoint] {v₀ v : VaultData} {u moved b n : ℤ}

theorem Exits.price {held : ℤ} {receiver owner operator : Address} {c : Call Address}
    (h : Exits v held receiver owner operator u b n c) (hr : 0 < v.bRate)
    (hv : v.Releases b n) : b*v.totalShares ≤ n*v.totalBTokens := by
  have hS : 0 < v.totalShares := h.shares_pos.1.trans_le hv.shares_le
  cases h with
  | withdraw _ out => exact out.price hr hS hv.bTokens_le
  | redeem _ _ value _ => exact value.price hr hS

theorem Exits.debited {held : ℤ} {receiver owner operator : Address} {c : Call Address}
    (h : Exits v held receiver owner operator u b n c) : c.debited = some owner := by
  cases h <;> rfl

variable [DecidableEq Address] {w w' : World Address W} {l : Label Address W}

/-- What a step that keeps the price also says about the accounts it does not debit. -/
structure Undiluted (w : World Address W) (l : Label Address W) (w' : World Address W)
    (v v' : VaultData) : Prop where
  vaultData : w'.storage.vaultData = some v'
  price : v.fund.PriceLe v'.fund
  shares_nonneg : 0 ≤ v'.totalShares
  bTokens_nonneg : 0 ≤ v'.totalBTokens
  others : ∀ a, l.call.debited ≠ some a → w.storage.sharesOf a ≤ w'.storage.sharesOf a
  emptied : v'.totalShares = 0 → ∀ a, l.call.debited ≠ some a → w.storage.sharesOf a = 0

variable (hv₀ : w.storage.vaultData = some v₀) (hS : 0 < v₀.totalShares)
  (hB : 0 ≤ v₀.totalBTokens)
include hv₀ hS hB

theorem Mint.undiluted {pool asset receiver from_ operator : Address} {assets : ℤ}
    (h : Mint w l w' pool asset receiver from_ operator v assets moved b n) :
    Undiluted w l w' v₀ (v.minted b n) := by
  have hfund := Env.refreshed_fund h.rate hv₀
  have htS := Env.refreshed_totalShares h.rate hv₀
  have htB := Env.refreshed_totalBTokens h.rate hv₀
  have hb := h.mints.bTokens_pos
  have hn := h.mints.shares_pos
  refine ⟨h.vaultData,?_,?_,?_,?_,?_⟩
  · rw [← hfund,VaultData.fund_minted]
    exact v.fund.priceLe_issue (h.mints.price (htS ▸ hS) (htB ▸ hB))
  · rw [VaultData.minted_totalShares]; omega
  · rw [VaultData.minted_totalBTokens]; omega
  · intro a _
    rw [h.sharesOf]
    by_cases ha : a = receiver
    · subst ha; simp only [if_true]; omega
    · rw [if_neg ha]
  · rw [VaultData.minted_totalShares]
    intro h0
    omega

omit hS hB in
theorem Burn.undiluted {pool asset receiver owner operator : Address}
    (h : Burn w l w' pool asset receiver owner operator v u moved b n) (hr : 0 < v.bRate)
    (hnonneg : ∀ a, 0 ≤ w.storage.sharesOf a)
    (htotal : w.storage.shares.total = v₀.totalShares) :
    Undiluted w l w' v₀ (v.burnt b n) := by
  have hfund := Env.refreshed_fund h.rate hv₀
  have htS := Env.refreshed_totalShares h.rate hv₀
  refine ⟨h.vaultData,?_,?_,?_,?_,?_⟩
  · rw [← hfund,VaultData.fund_burnt]
    exact v.fund.priceLe_cancel (h.call.price hr h.releases)
  · exact sub_nonneg.mpr h.releases.shares_le
  · exact sub_nonneg.mpr h.releases.bTokens_le
  · intro a ha
    have hne : a ≠ owner := by
      intro h
      subst h
      exact ha h.call.debited
    rw [h.sharesOf,if_neg hne]
  · intro h0 a ha
    have hne : a ≠ owner := by
      intro h
      subst h
      exact ha h.call.debited
    -- the owner held every share there was
    have hle := FiniteStore.read_add_read_le_total w.storage.shares hnonneg hne
    have hheld := h.call.shares_pos.2
    have ha0 := hnonneg a
    change w.storage.sharesOf a+w.storage.sharesOf owner ≤ w.storage.shares.total at hle
    rw [VaultData.burnt_totalShares] at h0
    omega

omit [FixedPoint] in
theorem Move.undiluted {from_ to_ : Address} {amount : ℤ} (h : Move w l w' from_ to_ amount) :
    Undiluted w l w' v₀ v₀ := by
  refine ⟨h.vaultData.trans hv₀,.refl _,hS.le,hB,?_,?_⟩
  · intro a ha
    have hne : a ≠ from_ := by
      intro h
      subst h
      rcases h.call with hc | ⟨spender,hc⟩ <;> exact ha (by rw [hc]; rfl)
    have hpos := h.moves.amount_pos
    rw [h.sharesOf,Storage.sharesOf_moved,if_neg hne]
    by_cases hto : a = to_
    · subst hto; simp only [if_true]; omega
    · rw [if_neg hto]
  · intro h0
    omega

omit [FixedPoint] in
theorem Compound.undiluted {pool asset : Address} {received : ℤ}
    (h : Compound w l w' pool asset v received moved b) (hb : v₀.totalBTokens ≤ b) :
    Undiluted w l w' v₀ {v with totalBTokens := b} := by
  have htS := Env.refreshed_totalShares h.rate hv₀
  refine ⟨h.vaultData,?_,?_,?_,?_,?_⟩
  · change v₀.fund.PriceLe ⟨v.totalShares,b⟩
    rw [htS]
    exact v₀.fund.priceLe_gain hS.le hb
  · exact htS ▸ hS.le
  · exact hB.trans hb
  · intro a _
    exact (h.sharesOf a).ge
  · intro h0
    exact absurd (htS.symm.trans h0) hS.ne'

omit [FixedPoint] in
theorem Idle.undiluted (h : Idle w l w') : Undiluted w l w' v₀ v₀ := by
  refine ⟨h.vaultData.trans hv₀,.refl _,hS.le,hB,?_,?_⟩
  · intro a _
    exact (h.sharesOf a).ge
  · intro h0
    omega

/-- Whatever the step is, as long as rates are positive and a claim is not reported to have
cost bTokens. -/
theorem Step.undiluted (h : Step w l w') (hnonneg : ∀ a, 0 ≤ w.storage.sharesOf a)
    (htotal : w.storage.shares.total = v₀.totalShares) (hrate : l.Rates w.storage (0 < ·))
    (hreport : Label.ReportsNoLess w l w') : ∃ v', Undiluted w l w' v₀ v' := by
  cases h.accounts with
  | mint hm => exact ⟨_,hm.undiluted hv₀ hS hB⟩
  | burn hb =>
    exact ⟨_,hb.undiluted hv₀ (hrate.of_refreshed hb.serves hb.rate) hnonneg htotal⟩
  | move hm => exact ⟨_,hm.undiluted hv₀ hS hB⟩
  | compound hc =>
    obtain ⟨m,hcall⟩ := hc.call
    exact ⟨_,hc.undiluted hv₀ hS hB (hreport m _ _ _ _ hcall hc.serves hv₀ hc.reported)⟩
  | idle hi => exact ⟨_,hi.undiluted hv₀ hS hB⟩

omit [FixedPoint] hv₀ hB in
/-- Holders that are not debited keep their quotes. -/
theorem Undiluted.quotes {v' : VaultData} (h : Undiluted w l w' v₀ v') {a : Address}
    (ha : l.call.debited ≠ some a) :
    v₀.exactBTokens (w.storage.sharesOf a) ≤ v'.exactBTokens (w'.storage.sharesOf a) := by
  rcases h.shares_nonneg.eq_or_lt with h0 | hS'
  · rw [h.emptied h0.symm a ha,VaultData.exactBTokens_of_nonpos le_rfl]
    exact VaultData.exactBTokens_nonneg h.shares_nonneg h.bTokens_nonneg _
  · exact VaultData.exactBTokens_mono hS hS' h.bTokens_nonneg h.price (h.others a ha)

/-- A step takes nothing from a holder it does not debit: bTokens per share do not fall, and
the holder keeps its shares and both of its quotes. -/
theorem no_dilution (h : Step w l w') (hnonneg : ∀ a, 0 ≤ w.storage.sharesOf a)
    (hsum : ∑ᶠ a, w.storage.sharesOf a = v₀.totalShares) (hrate : l.Rates w.storage (0 < ·))
    (hreport : Label.ReportsNoLess w l w') :
    ∃ v', w'.storage.vaultData = some v' ∧
      (0 < v'.totalShares →
        v₀.totalBTokens*v'.totalShares ≤ v'.totalBTokens*v₀.totalShares) ∧
      ∀ a, l.call.debited ≠ some a →
        w.storage.sharesOf a ≤ w'.storage.sharesOf a ∧
        v₀.exactBTokens (w.storage.sharesOf a) ≤ v'.exactBTokens (w'.storage.sharesOf a) ∧
        ∀ r, 0 < r → v₀.exactUnderlying r (w.storage.sharesOf a) ≤
          v'.exactUnderlying r (w'.storage.sharesOf a) := by
  have htotal : w.storage.shares.total = v₀.totalShares :=
    (FiniteStore.finsum_read w.storage.shares).symm.trans hsum
  obtain ⟨v',hv'⟩ := h.undiluted hv₀ hS hB hnonneg htotal hrate hreport
  refine ⟨v',hv'.vaultData,fun _ => hv'.price,?_⟩
  intro a ha
  have hquote := hv'.quotes hS ha
  exact ⟨hv'.others a ha,hquote,fun r hr => VaultData.exactUnderlying_mono hr hquote⟩

end Price

section Sample
attribute [local instance] FixedPoint.documented

/-- At a rate of 1.5 account 8 takes seven units out beside the hundred shares of account 7. -/
theorem no_dilution_sample : ∃ (l : Label ℕ ℤ) (w' : World ℕ ℤ) (v' : VaultData),
    l.call = .withdraw 7 8 8 8 ∧ w'.storage.vaultData = some v' ∧
      (0 < v'.totalShares → 155*v'.totalShares ≤ v'.totalBTokens*150) ∧
      103 ≤ v'.exactBTokens (w'.storage.sharesOf 7) := by
  obtain ⟨l,w',hstep,henv,hcall,-,-⟩ := exists_step
    (referenceWorld ⟨0,1500000000000,150,155⟩ [(7,100),(8,50)] 155)
    (referenceEnv 1500000000000 0 0) (.withdraw 7 8 8 8) (fun _ _ => true) (by decide)
  have hrate : l.Rates (referenceWorld ⟨0,1500000000000,150,155⟩ [(7,100),(8,50)] 155).storage
      (0 < ·) := by
    intro pool asset ext r _ hr
    rw [henv] at hr
    cases hr
    decide
  obtain ⟨v',hv',hprice,hothers⟩ := no_dilution
    (show _ = some (VaultData.mk 0 1500000000000 150 155) from rfl) (by decide) (by decide) hstep
    (referenceWorld_nonneg (by decide)) ((FiniteStore.finsum_read _).trans (by decide)) hrate
    fun m pool asset v b hclaim => by
      rw [hcall] at hclaim
      cases hclaim
  refine ⟨l,w',v',hcall,hv',hprice,?_⟩
  obtain ⟨-,hquote,-⟩ := hothers 7 (by rw [hcall]; decide)
  exact le_trans (by decide) hquote

end Sample
end BlendVault
