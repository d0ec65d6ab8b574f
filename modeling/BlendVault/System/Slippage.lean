import BlendVault.System.Deposits
import BlendVault.System.Staying

/-! What is left of a deposit. However skewed the price has become before it, and whatever the others
do after it, at least half of the bTokens stay quoted to whom the shares were minted. -/
namespace BlendVault
open FailStop ProRata RoundedDivision

section Slippage
variable {Address W : Type} [DecidableEq Address] [FixedPoint] {w₀ w w' t : World Address W}
  {l : Label Address W} {ls ms : List (Label Address W)} {v : VaultData}
  {pool asset receiver from_ operator : Address} {assets moved b n : ℤ}

/-- Shares are minted for no less than their part of the bTokens rounded down. -/
theorem VaultData.Mints.half_le {v : VaultData} (h : v.Mints assets b n) (hv : v.fund.Backed) :
    b/2 ≤ quote (v.fund.issue n b) n := by
  have hb := h.bTokens_pos
  have hB : 0 ≤ v.totalBTokens := hv.1.trans hv.2
  apply half_le_quote_issue hv.1 hB h.shares_pos hb.le
  change b*v.totalShares ≤ (n+1)*v.totalBTokens
  rcases hv.1.eq_or_lt with h0 | hS
  · have h0 : v.totalShares = 0 := h0.symm
    rw [h0,mul_zero]
    exact mul_nonneg (by have := h.shares_pos; omega) hB
  · exact (h.shares_lt hS (hS.trans_le hv.2)).le

/-- Right after a deposit the receiver is quoted at half of it more, at least. -/
theorem Mint.quote_le (h : Mint w l w' pool asset receiver from_ operator v assets moved b n)
    (hw : Orderly w) {v₀ : VaultData} (hv₀ : w.storage.vaultData = some v₀) :
    v₀.exactBTokens (w.storage.sharesOf receiver)+b/2 ≤
      (v.minted b n).exactBTokens (w.storage.sharesOf receiver+n) := by
  have hn := h.mints.shares_pos
  have hheld := hw.balanced.nonneg receiver
  have hfund : v.fund = v₀.fund := Env.refreshed_fund h.rate hv₀
  have hbacked : v.fund.Backed := hfund ▸ hw.backed_of hv₀
  have hS' : 0 < (v.minted b n).totalShares := add_pos_of_nonneg_of_pos hbacked.1 hn
  have hhalf := h.mints.half_le hbacked
  rw [← VaultData.fund_minted] at hhalf
  rw [VaultData.exactBTokens_eq_quote (by omega) hS']
  rcases hheld.eq_or_lt with h0 | hpos
  · rw [← h0,VaultData.exactBTokens_of_nonpos le_rfl,zero_add,zero_add]
    exact hhalf
  · have hS₀ : 0 < v₀.totalShares := hpos.trans_le (hw.sharesOf_le hv₀ receiver)
    have hS : 0 < v.totalShares := hS₀.trans_eq (Env.refreshed_totalShares h.rate hv₀).symm
    have hprice : v₀.fund.PriceLe (v.minted b n).fund := by
      rw [← hfund]
      exact v.fund.priceLe_issue (h.mints.price hS (hbacked.1.trans hbacked.2))
    rw [VaultData.exactBTokens_eq_quote hpos hS₀]
    calc
      quote v₀.fund (w.storage.sharesOf receiver)+b/2 ≤
          quote (v.minted b n).fund (w.storage.sharesOf receiver)+quote (v.minted b n).fund n :=
        add_le_add (quote_mono hS₀ hS' hprice hheld) hhalf
      _ ≤ quote (v.minted b n).fund (w.storage.sharesOf receiver+n) := quote_add_le hS' _ _

/-- A deposit never loses more than half. Whatever has been done to the price before, and whatever
the others do later, the receiver stays quoted at what it was before the deposit and half of the
bTokens that the deposit brought. -/
theorem deposits_keep_half (h₀ : Deployed w₀) (hbefore : Run FairStep w₀ ls w)
    (hv : w.storage.vaultData = some v) (hdeposit : FairStep w l w')
    (hcall : l.call = .deposit assets receiver from_ operator) (hafter : Run FairStep w' ms t)
    (hquiet : ∀ m ∈ ms, m.call.debited ≠ some receiver) :
    ∃ pool asset b n v', l.result = some n ∧ l.events = [.vaultDeposit pool asset from_ assets n b] ∧
      t.storage.vaultData = some v' ∧ w.storage.sharesOf receiver+n ≤ t.storage.sharesOf receiver ∧
      v.exactBTokens (w.storage.sharesOf receiver)+b/2 ≤
        v'.exactBTokens (t.storage.sharesOf receiver) := by
  have hw := orderly_of_run h₀ hbefore
  have hw' := hdeposit.orderly hw
  cases hdeposit.sound.step.accounts with
  | @mint pool asset receiver' from' operator' v₁ assets' moved b n hm =>
    cases hm.call.symm.trans hcall
    have hstored := hm.vaultData
    have hstayed : Stayed {receiver} w' (v₁.minted b n) t := by
      refine Stayed.of_run hw' hstored hafter fun m hmem a ha => ?_
      rw [Finset.mem_singleton.mp ha]
      exact hquiet m hmem
    obtain ⟨v',hv',-⟩ := hstayed.orderly.backed
    have hmem := Finset.mem_singleton_self receiver
    have hkept := hstayed.kept receiver hmem
    have hquote := hstayed.quotes hw' hstored hv' hmem
    have hheld : w'.storage.sharesOf receiver = w.storage.sharesOf receiver+n := by
      rw [hm.sharesOf,if_pos rfl]
    rw [hheld] at hkept hquote
    exact ⟨pool,asset,b,n,v',hm.result,hm.events,hv',hkept,(hm.quote_le hw hv).trans hquote⟩
  | burn hb => exact absurd hcall hb.call.ne_deposit
  | move hm => rcases hm.call with hc | ⟨_,hc⟩ <;> cases hc.symm.trans hcall
  | compound hc =>
    obtain ⟨_,hc⟩ := hc.call
    cases hc.symm.trans hcall
  | idle hi =>
    have hbookless := hi.call
    rw [hcall] at hbookless
    exact hbookless.elim

end Slippage

section Sample
attribute [local instance] FixedPoint.documented

/-- Eight bTokens have come to stand behind seven shares when account 8 deposits three and account 7
leaves. -/
theorem deposits_keep_half_sample : ∃ (w t : World ℕ ℤ) (v v' : VaultData),
    w.storage.vaultData = some v ∧ v.totalShares = 7 ∧ v.totalBTokens = 8 ∧
      t.storage.vaultData = some v' ∧ 2 ≤ t.storage.sharesOf 8 ∧
      v.exactBTokens 0+3/2 ≤ v'.exactBTokens (t.storage.sharesOf 8) := by
  obtain ⟨w₀,ls,w,ms,t,h₀,hbefore,hrun,hq⟩ := exists_fair_runs
    [((scalar12,0,1),.deposit 10 7 7 7),((500000000000,0,2),.redeem 3 7 7 7)]
    [((scalar12,0,3),.deposit 3 8 8 8),((scalar12,0,3),.redeem 7 7 7 7)] (by simp [Call.Trades])
    (by decide)
    (fun w ms _ => w.storage.vaultData = some ⟨0,500000000000,7,8⟩ ∧ w.storage.sharesOf 8 = 0 ∧
      ms.map Label.call = [.deposit 3 8 8 8,.redeem 7 7 7 7] ∧
      (∀ m ∈ ms.take 1, m.events = [.vaultDeposit 2 3 8 3 2 3]) ∧
      ∀ m ∈ ms.drop 1, m.call.debited ≠ some 8) (by decide)
  obtain ⟨hv,hheld,hcalls,hevents,hquiet⟩ := of_decide_eq_true hq
  obtain ⟨l,ms,rfl,hcall,-⟩ := List.map_eq_cons_iff.mp hcalls
  obtain ⟨w',hdeposit,hafter⟩ := hrun.of_cons
  obtain ⟨pool,asset,b,n,v',-,hlog,hv',hkept,hquote⟩ := deposits_keep_half h₀ hbefore hv hdeposit
    hcall hafter hquiet
  have hsame := (hevents l (by simp)).symm.trans hlog
  simp only [List.cons.injEq,Event.vaultDeposit.injEq] at hsame
  obtain ⟨⟨-,-,-,-,rfl,rfl⟩,-⟩ := hsame
  rw [hheld] at hquote hkept
  exact ⟨w,t,_,v',hv,rfl,rfl,hv',by omega,hquote⟩

end Sample
end BlendVault
