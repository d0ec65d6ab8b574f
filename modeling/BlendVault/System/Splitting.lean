import BlendVault.System.Solo

/-! One operation cut into pieces that are carried out one after another. Every piece leaves the
price of a share where it was or higher, which helps the pieces after it when they are sold and
hurts them when they are bought, and its own rounding is to its disadvantage: all the pieces
together never do better than the whole. -/
namespace BlendVault
open FailStop RoundedDivision ProRata

section Sums

def amountAsked (ls : List Deal) : ℤ := (ls.map Deal.amount).sum

def underlyingMoved (ls : List Deal) : ℤ := (ls.map Deal.underlying).sum

def bTokensMoved (ls : List Deal) : ℤ := (ls.map Deal.bTokens).sum

def sharesMoved (ls : List Deal) : ℤ := (ls.map Deal.shares).sum

variable {ls : List Deal}

theorem totalUnits_lots : totalUnits (ls.map Deal.lot) = sharesMoved ls := by
  rw [totalUnits,List.map_map]
  rfl

theorem totalAssets_lots : totalAssets (ls.map Deal.lot) = bTokensMoved ls := by
  rw [totalAssets,List.map_map]
  rfl

theorem sum_mul_le {f g : Deal → ℤ} {c d : ℤ} (h : ∀ l ∈ ls, f l*c ≤ g l*d) :
    (ls.map f).sum*c ≤ (ls.map g).sum*d := by
  rw [← List.sum_map_mul_right,← List.sum_map_mul_right]
  exact List.sum_le_sum h

theorem sum_pos {f : Deal → ℤ} (h : ∀ l ∈ ls, 0 < f l) (hne : ls ≠ []) : 0 < (ls.map f).sum := by
  refine List.sum_pos _ ?_ (by simpa using hne)
  simpa using h

end Sums

section Pieces
variable {Address W : Type} [DecidableEq Address] [FixedPoint] {r : ℤ} {user : Address}
  {s t : Storage Address} {l : Deal} {v : VaultData} {p : Position ℤ} {ls : List Deal}

/-- What the figures of an operation have to do with each other. -/
theorem SoloStep.figures (hr : 0 < r) (h : SoloStep W r user s l t) : 0 < l.shares ∧
    (l.way = .deposit → l.amount = l.underlying ∧ 0 < l.bTokens) ∧
    (l.way = .withdraw → 0 < l.amount) ∧
    (l.way = .redeem → l.amount = l.shares ∧ 0 < l.underlying) := by
  obtain ⟨v,v',held',rfl,-,-,heffect⟩ := h.effect
  cases heffect with
  | deposit mints => simpa using ⟨mints.shares_pos,mints.bTokens_pos⟩
  | withdraw out _ => simpa using ⟨out.shares_pos.1,out.amount_pos hr⟩
  | redeem shares_pos _ _ underlying_pos _ => simpa using ⟨shares_pos,underlying_pos⟩

theorem labels_of_run {P : Deal → Prop} (hrun : Run (SoloStep W r user) s ls t)
    (h : ∀ s l t, SoloStep W r user s l t → P l) : ∀ l ∈ ls, P l :=
  hrun.forall_labels (fun _ => True) P trivial fun _ _ _ hstep _ => ⟨trivial,h _ _ _ hstep⟩

section Sums
variable (hr : 0 < r) (hs : s.Shows user p) (hrun : Run (SoloStep W r user) s ls t)
include hr hs hrun

/-- Deposits one after another mint no more than their share. -/
theorem bought (hp : 0 < p.fund.units) (hways : ∀ l ∈ ls, l.way = .deposit) :
    sharesMoved ls*p.fund.assets ≤ bTokensMoved ls*p.fund.units ∧
      bTokensMoved ls*r ≤ underlyingMoved ls*scalar12 := by
  have hlabelled := hrun.with_labels hways
  obtain ⟨q,hbuys,-⟩ := hlabelled.simulate (Storage.Shows user) Deal.lot hs
    fun _ _ _ _ hstep hshows => hstep.1.buys hr hshows hstep.2
  have hprice := (Position.buys_price hp hbuys).2
  rw [totalUnits_lots,totalAssets_lots] at hprice
  refine ⟨hprice,sum_mul_le fun l hl => ?_⟩
  exact labels_of_run hrun (fun _ _ _ hstep => (hstep.worth hr).1) l hl (hways l hl)

/-- Withdrawals and redemptions one after another release no more than their share. -/
theorem sold (hp : 0 ≤ p.fund.units) (hways : ∀ l ∈ ls, l.way ≠ .deposit) :
    bTokensMoved ls*p.fund.units ≤ sharesMoved ls*p.fund.assets ∧ sharesMoved ls ≤ p.fund.units ∧
      bTokensMoved ls ≤ p.fund.assets ∧ (ls ≠ [] → sharesMoved ls ≤ p.held) ∧
      underlyingMoved ls*scalar12 ≤ bTokensMoved ls*r := by
  have hlabelled := hrun.with_labels hways
  obtain ⟨q,hsells,-⟩ := hlabelled.simulate (Storage.Shows user) Deal.lot hs
    fun _ _ _ _ hstep hshows => hstep.1.sells hr hshows hstep.2
  obtain ⟨hprice,hunits,hassets,hheld⟩ := Position.sells_price hp hs.2 hsells
  rw [totalUnits_lots] at hunits hprice hheld
  rw [totalAssets_lots] at hassets hprice
  refine ⟨hprice,hunits,hassets,fun hne => hheld (by simpa using hne),sum_mul_le fun l hl => ?_⟩
  exact labels_of_run hrun (fun _ _ _ hstep => (hstep.worth hr).2) l hl (hways l hl)

end Sums

end Pieces

/-- The products and the sums a deposit takes fit. -/
structure VaultData.Accepts (v : VaultData) (held amount : ℤ) : Prop where
  bTokens : amount*scalar12 ≤ i128Max
  shares : amount*scalar12/v.bRate*v.totalShares ≤ i128Max
  totalShares :
    v.totalShares+amount*scalar12/v.bRate*v.totalShares/v.totalBTokens ≤ i128Max
  totalBTokens : v.totalBTokens+amount*scalar12/v.bRate ≤ i128Max
  userShares : held+amount*scalar12/v.bRate*v.totalShares/v.totalBTokens ≤ i128Max

theorem VaultData.Accepts.mints [FixedPoint] {v : VaultData} {held amount : ℤ}
    (h : v.Accepts held amount) (hr : 0 < v.bRate) (hS : 0 < v.totalShares)
    (hB : 0 < v.totalBTokens) (hb : 0 < amount*scalar12/v.bRate)
    (hn : 0 < amount*scalar12/v.bRate*v.totalShares/v.totalBTokens) :
    v.Mints amount (amount*scalar12/v.bRate)
      (amount*scalar12/v.bRate*v.totalShares/v.totalBTokens) := by
  have ha : 0 ≤ amount*scalar12 := (Int.ediv_nonneg_iff_of_pos hr).mp hb.le
  refine ⟨?_,hb,?_,hn⟩
  · exact (underlyingToBTokensDown_eq_some hr).mpr ⟨inI128_of_nonneg ha h.bTokens,rfl⟩
  · exact (bTokensToSharesDown_eq_some hS hB).mpr
      ⟨inI128_of_nonneg (mul_nonneg hb.le hS.le) h.shares,rfl⟩

section Whole
variable {Address W : Type} [DecidableEq Address]

namespace Ready
variable [FixedPoint] {e : Env Address W} {pool asset user : Address} {f : Frame Address W}
  {v : VaultData} {t : Storage Address} {ls : List Deal} (h : Ready e pool asset user f v)
include h

omit [FixedPoint] in
theorem shows : f.storage.Shows user ⟨v.fund,f.storage.sharesOf user⟩ :=
  ⟨Env.holds_of_refreshed user h.refreshed,h.bTokens_pos.le⟩

variable (hrun : Run (SoloStep W v.bRate user) f.storage ls t)
include hrun

/-- Deposits in pieces mint no more than one deposit of their sum. -/
theorem deposit_pieces (hways : ∀ l ∈ ls, l.way = .deposit) :
    (∀ b n g, Returns (Vault.deposit e pool asset user (amountAsked ls)) f (b,n) g →
      sharesMoved ls ≤ n) ∧
    (ls ≠ [] → v.Accepts (f.storage.sharesOf user) (amountAsked ls) →
      ∃ b n g, Returns (Vault.deposit e pool asset user (amountAsked ls)) f (b,n) g) := by
  obtain ⟨hprice,hworth⟩ := bought h.rate_pos h.shows hrun h.shares_pos hways
  have hfigures := labels_of_run hrun fun _ _ _ hstep => hstep.figures h.rate_pos
  have hasked : amountAsked ls = underlyingMoved ls := by
    refine congrArg List.sum (List.map_congr_left fun l hl => ?_)
    exact ((hfigures l hl).2.1 (hways l hl)).1
  rw [← hasked,← Int.le_ediv_iff_mul_le h.rate_pos] at hworth
  have hshares : sharesMoved ls ≤
      amountAsked ls*scalar12/v.bRate*v.totalShares/v.totalBTokens := by
    refine (Int.le_ediv_iff_mul_le h.bTokens_pos).mpr (hprice.trans ?_)
    exact mul_le_mul_of_nonneg_right hworth h.shares_pos.le
  constructor
  · intro b n g hret
    obtain ⟨v',b',n',hp,hv',hm,-⟩ := Vault.returns_deposit.mp hret
    cases h.refreshed.symm.trans hv'
    cases hp
    rw [hm.shares_eq h.shares_pos h.bTokens_pos,hm.bTokens_eq h.rate_pos]
    exact hshares
  · intro hne hfits
    have hb : 0 < amountAsked ls*scalar12/v.bRate :=
      (sum_pos (fun l hl => ((hfigures l hl).2.1 (hways l hl)).2) hne).trans_le hworth
    have hn := (sum_pos (fun l hl => (hfigures l hl).1) hne).trans_le hshares
    have hmints := hfits.mints h.rate_pos h.shares_pos h.bTokens_pos hb hn
    have hS := add_pos h.shares_pos hn
    have hB := add_pos h.bTokens_pos hb
    refine ⟨_,_,_,Vault.returns_deposit.mpr ⟨v,_,_,rfl,h.refreshed,hmints,
      inI128_of_nonneg hS.le hfits.totalShares,inI128_of_nonneg hB.le hfits.totalBTokens,?_,rfl⟩⟩
    exact ⟨h.held_fit.1.trans (le_add_of_nonneg_right hn.le),hfits.userShares⟩

/-- Unclamped withdrawals in pieces burn no fewer shares than one withdrawal of their sum, which
is not clamped either. -/
theorem withdraw_pieces (hways : ∀ l ∈ ls, l.way = .withdraw ∧ l.underlying = l.amount) :
    (∀ paid b n g, Returns (Vault.withdraw e pool asset user (amountAsked ls)) f (paid,b,n) g →
      paid = amountAsked ls ∧ n ≤ sharesMoved ls ∧
        v.Affords (f.storage.sharesOf user) (amountAsked ls)) ∧
    (ls ≠ [] → amountAsked ls*scalar12 ≤ i128Max →
      burnFor (amountAsked ls) v.bRate*v.totalShares ≤ i128Max →
      ∃ b n g, Returns (Vault.withdraw e pool asset user (amountAsked ls)) f
        (amountAsked ls,b,n) g) := by
  obtain ⟨hprice,hunits,hassets,hheld,hworth⟩ := sold h.rate_pos h.shows hrun h.shares_pos.le
    fun l hl hd => (nomatch (hways l hl).1.symm.trans hd)
  have hasked : amountAsked ls = underlyingMoved ls :=
    congrArg List.sum (List.map_congr_left fun l hl => (hways l hl).2.symm)
  rw [← hasked,← ceilDiv_le_iff h.rate_pos] at hworth
  have hshares : v.sharesFor (burnFor (amountAsked ls) v.bRate) ≤ sharesMoved ls := by
    refine (ceilDiv_le_iff h.bTokens_pos).mpr (le_trans ?_ hprice)
    exact mul_le_mul_of_nonneg_right hworth h.shares_pos.le
  constructor
  · intro paid b n g hret
    obtain ⟨v',u,b',n',hp,hv',hw,-⟩ := Vault.returns_withdraw.mp hret
    cases h.refreshed.symm.trans hv'
    cases hp
    have hne : ls ≠ [] := by
      rintro rfl
      exact absurd (hw.amount_pos h.rate_pos) (lt_irrefl 0)
    have hcosts : ∀ b s, v.Costs (amountAsked ls) b s → s ≤ sharesMoved ls := by
      intro b s hcost
      obtain ⟨-,-,hs⟩ := hcost.fits h.rate_pos h.shares_pos h.bTokens_pos
      exact hs ▸ hshares
    have hafford : v.Affords (f.storage.sharesOf user) (amountAsked ls) := fun b s hcost =>
      (hcosts b s hcost).trans (hheld hne)
    refine ⟨hw.paid_of_affords hafford,?_,hafford⟩
    cases hw with
    | plain cost _ => exact hcosts _ _ cost
    | clamped cost short _ _ => exact short.le.trans (hcosts _ _ cost)
  · intro hne hscaled hproduct
    have hfigures := labels_of_run hrun fun _ _ _ hstep => hstep.figures h.rate_pos
    have ha : 0 < amountAsked ls :=
      sum_pos (fun l hl => (hfigures l hl).2.2.1 (hways l hl).1) hne
    exact ⟨_,_,_,h.returns_withdraw ha hscaled hproduct (hshares.trans (hheld hne))
      (hshares.trans hunits) (hworth.trans hassets)⟩

/-- Redemptions in pieces are paid no more than one redemption of their sum. -/
theorem redeem_pieces (hways : ∀ l ∈ ls, l.way = .redeem) :
    (∀ u b g, Returns (Vault.redeem e pool asset user (amountAsked ls)) f (u,b) g →
      underlyingMoved ls ≤ u) ∧
    (ls ≠ [] → v.Valuable v.bRate (amountAsked ls) →
      ∃ u b g, Returns (Vault.redeem e pool asset user (amountAsked ls)) f (u,b) g) := by
  obtain ⟨hprice,hunits,hassets,hheld,hworth⟩ := sold h.rate_pos h.shows hrun h.shares_pos.le
    fun l hl hd => (nomatch (hways l hl).symm.trans hd)
  have hfigures := labels_of_run hrun fun _ _ _ hstep => hstep.figures h.rate_pos
  have hasked : amountAsked ls = sharesMoved ls := by
    refine congrArg List.sum (List.map_congr_left fun l hl => ?_)
    exact ((hfigures l hl).2.2.2 (hways l hl)).1
  rw [← hasked] at hprice hheld hunits
  have hquote : bTokensMoved ls ≤ quote v.fund (amountAsked ls) :=
    (Int.le_ediv_iff_mul_le h.shares_pos).mpr hprice
  have hpaid : underlyingMoved ls ≤ quote v.fund (amountAsked ls)*v.bRate/scalar12 := by
    refine (Int.le_ediv_iff_mul_le scalar12_pos).mpr (hworth.trans ?_)
    exact mul_le_mul_of_nonneg_right hquote h.rate_pos.le
  constructor
  · intro u b g hret
    obtain ⟨v',u',b',hp,hv',-,-,hvalue,-⟩ := Vault.returns_redeem.mp hret
    cases h.refreshed.symm.trans hv'
    cases hp
    rw [hvalue.underlying_eq h.shares_pos]
    exact hpaid
  · intro hne hfits
    have ha : 0 < amountAsked ls := hasked ▸ sum_pos (fun l hl => (hfigures l hl).1) hne
    have hu := (sum_pos (fun l hl => ((hfigures l hl).2.2.2 (hways l hl)).2) hne).trans_le hpaid
    rw [← VaultData.exactBTokens_eq_quote ha h.shares_pos] at hu
    exact ⟨_,_,_,h.returns_redeem ha (hheld hne) hunits hfits hu⟩

/-- Cutting an operation into pieces never beats carrying it out at once. -/
theorem pieces_never_beat :
    ((∀ l ∈ ls, l.way = .deposit) →
      (∀ b n g, Returns (Vault.deposit e pool asset user (amountAsked ls)) f (b,n) g →
        sharesMoved ls ≤ n) ∧
      (ls ≠ [] → v.Accepts (f.storage.sharesOf user) (amountAsked ls) →
        ∃ b n g, Returns (Vault.deposit e pool asset user (amountAsked ls)) f (b,n) g)) ∧
    ((∀ l ∈ ls, l.way = .withdraw ∧ l.underlying = l.amount) →
      (∀ paid b n g, Returns (Vault.withdraw e pool asset user (amountAsked ls)) f (paid,b,n) g →
        paid = amountAsked ls ∧ n ≤ sharesMoved ls ∧
          v.Affords (f.storage.sharesOf user) (amountAsked ls)) ∧
      (ls ≠ [] → amountAsked ls*scalar12 ≤ i128Max →
        burnFor (amountAsked ls) v.bRate*v.totalShares ≤ i128Max →
        ∃ b n g, Returns (Vault.withdraw e pool asset user (amountAsked ls)) f
          (amountAsked ls,b,n) g)) ∧
    ((∀ l ∈ ls, l.way = .redeem) →
      (∀ u b g, Returns (Vault.redeem e pool asset user (amountAsked ls)) f (u,b) g →
        underlyingMoved ls ≤ u) ∧
      (ls ≠ [] → v.Valuable v.bRate (amountAsked ls) →
        ∃ u b g, Returns (Vault.redeem e pool asset user (amountAsked ls)) f (u,b) g)) :=
  ⟨h.deposit_pieces hrun,h.withdraw_pieces hrun,h.redeem_pieces hrun⟩

end Ready
end Whole

section Sample
attribute [local instance] FixedPoint.documented

/-- Two withdrawals of three burn six shares; one of six burns no more, and returns. -/
theorem pieces_never_beat_sample : ∃ (f g : Frame ℕ ℤ) (t : Storage ℕ) (b n : ℤ),
    Run (SoloStep ℤ 1100000000000 7) f.storage
      [⟨.withdraw,3,3,3,3⟩,⟨.withdraw,3,3,3,3⟩] t ∧
    Returns (Vault.withdraw (referenceEnv 1100000000000 0 1) 2 3 7 6) f (6,b,n) g ∧ n ≤ 6 := by
  have hready : Ready (referenceEnv 1100000000000 0 1) 2 3 7
      (.fresh (referenceWorld ⟨0,scalar12,30,40⟩ [(7,20),(8,10)] 40).storage 40)
      ⟨0,1100000000000,30,40⟩ :=
    ⟨rfl,by decide,by decide,by decide,by decide,by decide,by decide⟩
  have hrun : Run (SoloStep ℤ 1100000000000 7)
      (referenceWorld ⟨0,scalar12,30,40⟩ [(7,20),(8,10)] 40).storage
      [⟨.withdraw,3,3,3,3⟩,⟨.withdraw,3,3,3,3⟩] _ :=
    .cons (.withdraw (referenceEnv 1100000000000 0 1) 2 3 (.fresh _ 40) rfl rfl)
      (.cons (.withdraw (referenceEnv 1100000000000 0 1) 2 3 (.fresh _ 40) rfl rfl) .nil)
  obtain ⟨-,hpieces,-⟩ := hready.pieces_never_beat hrun
  obtain ⟨hless,hreturns⟩ := hpieces (by decide)
  obtain ⟨b,n,g,hret⟩ := hreturns (by decide) (by decide) (by decide)
  obtain ⟨-,hle,-⟩ := hless _ _ _ _ hret
  exact ⟨_,g,_,b,n,hrun,hret,hle⟩

end Sample
end BlendVault
