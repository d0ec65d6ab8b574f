import BlendVault.System.Emissions
import BlendVault.System.Indexer

/-! Everybody's account. An account is owed the bTokens its deposits brought in and its exits took
out, its part of every claim, and the worth of what it was sent; whoever deposits into a vault without
shares is owed what is left in it. Its shares are worth just that, give or take the price of a share:
its own deposits and exits may cost it one each, those of the others may bring it one each. -/
namespace BlendVault
open FailStop ProRata RoundedDivision

section Postings
variable {Address W : Type}

/-- Whose shares a call mints or burns. -/
def Call.dealer : Call Address → Option Address
  | .deposit _ receiver _ _ => some receiver
  | .withdraw _ _ owner _ => some owner
  | .redeem _ _ owner _ => some owner
  | _ => none

variable [DecidableEq Address]

/-- The shares `a` is sent by a transfer, less those it sends. -/
def Call.sent (a : Address) : Call Address → ℤ
  | .transfer from_ to_ amount => (if a = to_ then amount else 0)-if a = from_ then amount else 0
  | .transferFrom _ from_ to_ amount =>
    (if a = to_ then amount else 0)-if a = from_ then amount else 0
  | _ => 0

/-- What a call owes an account, and the price of a share before it. What is `inherited` is what a
deposit finds in a vault without shares. -/
structure Posting where
  dealt : ℚ
  inherited : ℚ
  emission : ℚ
  transferred : ℚ
  price : ℚ

def Posting.due (p : Posting) : ℚ := p.dealt+p.inherited+p.emission+p.transferred

/-- A dealing of `a` brings bTokens in or takes some out, and falls heir to a vault without shares. -/
def Label.posting (a : Address) (w : World Address W) (l : Label Address W)
    (w' : World Address W) : Posting where
  dealt := if l.call.dealer = some a then ((w'.fund.assets-w.fund.assets : ℤ) : ℚ) else 0
  inherited := if l.call.dealer = some a ∧ w.fund.units = 0 then (w.fund.assets : ℚ) else 0
  emission := w.storage.sharesOf a*l.emitted w w'
  transferred := w.fund.valueOf (l.call.sent a)
  price := w.fund.price

/-- What rounding may cost the account in a call of its own. -/
def charge (a : Address) (p : Label Address W × Posting) : ℚ :=
  if p.1.call.dealer = some a then p.2.price else 0

/-- What rounding may bring it in a call of the others. -/
def windfall (a : Address) (p : Label Address W × Posting) : ℚ :=
  if p.1.call.dealer = some a then 0 else p.1.call.roundings*p.2.price

/-- What the shares of `a` are worth. -/
def World.worth (w : World Address W) (a : Address) : ℚ := w.fund.valueOf (w.storage.sharesOf a)

variable [FixedPoint]

/-- A step at a rate of at least one, along with what it owes `a`. -/
structure SettledStep (a : Address) (w : World Address W) (p : Label Address W × Posting)
    (w' : World Address W) : Prop where
  fair : FairStep w p.1 w'
  rates : p.1.Rates w.storage (scalar12 ≤ ·)
  posting : p.2 = p.1.posting a w w'

/-- The call has settled what it owes `a`. -/
structure Settles (a : Address) (w : World Address W) (p : Label Address W × Posting)
    (w' : World Address W) : Prop where
  ge : w.worth a+p.2.due-charge a p ≤ w'.worth a
  le : w'.worth a ≤ w.worth a+p.2.due+windfall a p

variable {w w' w₀ t : World Address W} {l : Label Address W} {p : Label Address W × Posting}
  {ps : List (Label Address W × Posting)} {v v₀ : VaultData} {a : Address}
  {pool asset receiver from_ owner operator to_ : Address} {assets u moved b n amount : ℤ}

omit [FixedPoint] in
@[simp] theorem Label.posting_price : (l.posting a w w').price = w.fund.price := rfl

omit [FixedPoint] in
/-- A call that mints and burns nothing owes exactly what it brings. -/
theorem settles_of_exact (hdealer : l.call.dealer = none) (hroundings : l.call.roundings = 0)
    (h : w'.worth a = w.worth a+(w.storage.sharesOf a*l.emitted w w'+w.fund.valueOf (l.call.sent a))) :
    Settles a w (l,l.posting a w w') w' := by
  have hdue : (l.posting a w w').due =
      w.storage.sharesOf a*l.emitted w w'+w.fund.valueOf (l.call.sent a) := by
    simp [Posting.due,Label.posting,hdealer]
  constructor <;> simp [charge,windfall,hdealer,hroundings,hdue,h]

omit [FixedPoint] in
/-- A call that mints or burns for somebody else leaves the holding with a rounding at most. -/
theorem settles_of_others (hdealer : l.call.dealer ≠ some a) (hroundings : l.call.roundings = 1)
    (hemitted : l.emitted w w' = 0) (hsent : l.call.sent a = 0)
    (h : w.worth a ≤ w'.worth a ∧ w'.worth a ≤ w.worth a+w.fund.price) :
    Settles a w (l,l.posting a w w') w' := by
  have hdue : (l.posting a w w').due = 0 := by
    simp [Posting.due,Label.posting,hdealer,hemitted,hsent]
  refine ⟨?_,?_⟩
  · simpa [charge,hdealer,hdue] using h.1
  · simpa [windfall,hdealer,hroundings,hdue] using h.2

omit [FixedPoint] in
/-- A call that mints or burns for the account may cost it a rounding. -/
theorem settles_of_dealing (hdealer : l.call.dealer = some a) (hemitted : l.emitted w w' = 0)
    (hsent : l.call.sent a = 0)
    (h : w.worth a+((w'.fund.assets-w.fund.owned : ℤ) : ℚ)-w.fund.price ≤ w'.worth a ∧
      w'.worth a ≤ w.worth a+((w'.fund.assets-w.fund.owned : ℤ) : ℚ)) :
    Settles a w (l,l.posting a w w') w' := by
  have hdue : (l.posting a w w').due = ((w'.fund.assets-w.fund.owned : ℤ) : ℚ) := by
    by_cases h0 : w.fund.units = 0 <;>
      simp [Posting.due,Label.posting,Fund.owned,hdealer,hemitted,hsent,h0]
  refine ⟨?_,?_⟩
  · simpa only [charge,hdealer,hdue,Label.posting_price,if_true] using h.1
  · simpa only [windfall,hdealer,hdue,if_true,add_zero] using h.2

omit [DecidableEq Address] in
/-- An exit is for its owner, and neither a claim nor a transfer. -/
theorem Exits.dealer {held : ℤ} {c : Call Address}
    (h : Exits v held receiver owner operator u b n c) : c.dealer = some owner := by
  cases h <;> rfl

theorem Exits.sent {held : ℤ} {c : Call Address}
    (h : Exits v held receiver owner operator u b n c) (a : Address) : c.sent a = 0 := by
  cases h <;> rfl

omit [FixedPoint] in
/-- A call that mints or burns shares of `dealer` at a price that does not fall, and by no more
than one rounding off it. -/
theorem settles_of_rounding {dealer : Address} (hw : Orderly w) (hw' : Orderly w')
    (hv : w.storage.vaultData = some v₀) (hv' : w'.storage.vaultData = some v)
    (hdealer : l.call.dealer = some dealer) (hroundings : l.call.roundings = 1)
    (hemitted : l.emitted w w' = 0) (hsent : l.call.sent a = 0)
    (hdealt : a = dealer →
      w'.storage.sharesOf a = w.storage.sharesOf a+(v.totalShares-v₀.totalShares))
    (hkept : a ≠ dealer → w'.storage.sharesOf a = w.storage.sharesOf a)
    (hsome : 0 < v₀.totalShares ∨ 0 < v.totalShares)
    (hprice : 0 < v₀.totalShares → v₀.fund.PriceLe v.fund)
    (hwithin : 0 < v₀.totalShares → v₀.fund.PriceWithin v.fund) : Settles a w (l,l.posting a w w') w' := by
  have hle := hw.sharesOf_le hv a
  have hle' := hw'.sharesOf_le hv' a
  have hheld := hw.balanced.nonneg a
  have hheld' := hw'.balanced.nonneg a
  have hB : 0 ≤ v₀.totalBTokens := (hw.backed_of hv).1.trans (hw.backed_of hv).2
  have hB' : 0 ≤ v.totalBTokens := (hw'.backed_of hv').1.trans (hw'.backed_of hv').2
  by_cases ha : a = dealer
  · have hholds := hdealt ha
    apply settles_of_dealing (ha ▸ hdealer) hemitted hsent
    rw [World.worth,World.worth,World.fund_of hv,World.fund_of hv']
    refine Fund.valueOf_dealer hB hB' hle hheld hheld' ?_ hsome hprice hwithin
    change v₀.totalShares-w.storage.sharesOf a = v.totalShares-w'.storage.sharesOf a
    omega
  · have hholds := hkept ha
    have hother : l.call.dealer ≠ some a := by
      rw [hdealer]
      exact fun h => ha (Option.some.inj h).symm
    apply settles_of_others hother hroundings hemitted hsent
    rw [World.worth,World.worth,World.fund_of hv,World.fund_of hv',hholds]
    rw [hholds] at hle'
    exact Fund.valueOf_others hB hheld hle hle' hprice hwithin

omit [FixedPoint] in
theorem Move.dealer (h : Move w l w' from_ to_ amount) : l.call.dealer = none := by
  rcases h.call with hc | ⟨_,hc⟩ <;> rw [hc] <;> rfl

omit [FixedPoint] in
/-- A transfer to another changes balances by what is sent. -/
theorem Move.sharesOf_eq (h : Move w l w' from_ to_ amount) (hapart : ¬ l.call.SelfTransfer)
    (a : Address) : w'.storage.sharesOf a = w.storage.sharesOf a+l.call.sent a := by
  have hcall : from_ ≠ to_ ∧
      l.call.sent a = (if a = to_ then amount else 0)-if a = from_ then amount else 0 := by
    rcases h.call with hc | ⟨_,hc⟩ <;> rw [hc] at hapart ⊢ <;> exact ⟨hapart,rfl⟩
  obtain ⟨hne,hsent⟩ := hcall
  have hself : selfCredit a from_ to_ amount = 0 := if_neg fun h => hne h.1
  rw [h.sharesOf,Storage.sharesOf_moved_eq,hself,hsent,add_zero]

omit [FixedPoint] in
/-- A transfer to another moves the worth of what is sent. -/
theorem Move.settles (h : Move w l w' from_ to_ amount) (hapart : ¬ l.call.SelfTransfer)
    (a : Address) : Settles a w (l,l.posting a w w') w' := by
  have hfund : w'.fund = w.fund := by
    rw [World.fund,World.fund,h.vaultData]
  have hroundings : l.call.roundings = 0 := by
    rcases h.call with hc | ⟨_,hc⟩ <;> rw [hc] <;> rfl
  apply settles_of_exact h.dealer hroundings
  rw [Label.emitted_of_same hfund,mul_zero,zero_add,World.worth,World.worth,hfund,
    ← Fund.valueOf_add,h.sharesOf_eq hapart]

omit [FixedPoint] in
/-- A claim gives every holding its part. -/
theorem Compound.settles {received : ℤ} (h : Compound w l w' pool asset v received moved b)
    (hv₀ : w.storage.vaultData = some v₀) (a : Address) :
    Settles a w (l,l.posting a w w') w' := by
  obtain ⟨m,hcall⟩ := h.call
  have hunits : v.totalShares = v₀.totalShares := Env.refreshed_totalShares h.rate hv₀
  have hfund : w'.fund = ⟨w.fund.units,b⟩ := by
    rw [World.fund_of h.vaultData,World.fund_of hv₀]
    exact congrArg (Fund.mk · b) hunits
  have hemitted : l.emitted w w' = ((b-w.fund.assets : ℤ) : ℚ)/w.fund.units := by
    rw [Label.emitted,hcall,hfund]
  have hsent : l.call.sent a = 0 := by
    rw [hcall]
    rfl
  apply settles_of_exact (by rw [hcall]; rfl) (by rw [hcall]; rfl)
  rw [hsent,Fund.valueOf_zero,add_zero,hemitted,World.worth,World.worth,h.sharesOf a,hfund,
    Fund.valueOf,Fund.valueOf,Fund.price_gain,mul_add]

omit [FixedPoint] in
/-- A call that leaves the books alone deals with nobody and sends nothing. -/
theorem Idle.aside (h : Idle w l w') :
    l.call.dealer = none ∧ l.call.roundings = 0 ∧ ∀ a, l.call.sent a = 0 := by
  have hbookless := h.call
  cases hc : l.call <;> rw [hc] at hbookless <;>
    first | exact ⟨rfl,rfl,fun _ => rfl⟩ | exact hbookless.elim

omit [FixedPoint] in
theorem Idle.settles (h : Idle w l w') (a : Address) : Settles a w (l,l.posting a w w') w' := by
  have hfund : w'.fund = w.fund := by
    rw [World.fund,World.fund,h.vaultData]
  obtain ⟨hdealer,hroundings,hsent⟩ := h.aside
  apply settles_of_exact hdealer hroundings
  rw [Label.emitted_of_same hfund,hsent,Fund.valueOf_zero,mul_zero,add_zero,add_zero,World.worth,
    World.worth,h.sharesOf a,hfund]

/-- A deposit settles with its receiver, at a rounding in favour of the others. -/
theorem Mint.settles (h : Mint w l w' pool asset receiver from_ operator v assets moved b n)
    (hw : Orderly w) (hw' : Orderly w') (hv₀ : w.storage.vaultData = some v₀) (a : Address) :
    Settles a w (l,l.posting a w w') w' := by
  have hfund : v.fund = v₀.fund := Env.refreshed_fund h.rate hv₀
  have hunits : v.totalShares = v₀.totalShares := Env.refreshed_totalShares h.rate hv₀
  have hbacked : v.fund.Backed := hfund ▸ hw.backed_of hv₀
  have hn := h.mints.shares_pos
  have hS₀ : 0 ≤ v.totalShares := hbacked.1
  have hB : 0 < v.totalShares → 0 < v.totalBTokens := fun hS => hS.trans_le hbacked.2
  have hdealer : l.call.dealer = some receiver := by
    rw [h.call]
    rfl
  apply settles_of_rounding hw hw' hv₀ h.vaultData hdealer
  · rw [h.call]
    rfl
  · rw [Label.emitted,h.call]
  · rw [h.call]
    rfl
  · intro ha
    rw [h.sharesOf,if_pos ha,VaultData.minted_totalShares,hunits,add_sub_cancel_left,ha]
  · intro ha
    rw [h.sharesOf,if_neg ha]
  · right
    rw [VaultData.minted_totalShares]
    omega
  · intro hS
    rw [← hunits] at hS
    rw [VaultData.fund_minted,← hfund]
    exact v.fund.priceLe_issue (h.mints.price hS (hB hS).le)
  · intro hS
    rw [← hunits] at hS
    rw [VaultData.fund_minted,← hfund]
    exact Fund.priceWithin_issue (h.mints.shares_lt hS (hB hS)).le

/-- An exit settles with its owner, at a rounding in favour of the others. -/
theorem Burn.settles (h : Burn w l w' pool asset receiver owner operator v u moved b n)
    (hr : scalar12 ≤ v.bRate) (hw : Orderly w) (hw' : Orderly w')
    (hv₀ : w.storage.vaultData = some v₀) (a : Address) :
    Settles a w (l,l.posting a w w') w' := by
  have hfund : v.fund = v₀.fund := Env.refreshed_fund h.rate hv₀
  have hunits : v.totalShares = v₀.totalShares := Env.refreshed_totalShares h.rate hv₀
  have hbacked : v.fund.Backed := hfund ▸ hw.backed_of hv₀
  have hS : 0 < v.totalShares := h.call.shares_pos.1.trans_le h.releases.shares_le
  apply settles_of_rounding hw hw' hv₀ h.vaultData h.call.dealer
  · exact h.call.roundings
  · exact h.call.emitted w w'
  · exact h.call.sent a
  · intro ha
    rw [h.sharesOf,if_pos ha,VaultData.burnt_totalShares,hunits,ha]
    ring
  · intro ha
    rw [h.sharesOf,if_neg ha]
  · exact .inl (hunits ▸ hS)
  · intro _
    rw [VaultData.fund_burnt,← hfund]
    exact v.fund.priceLe_cancel (h.call.price (scalar12_pos.trans_le hr) h.releases)
  · intro _
    rw [VaultData.fund_burnt,← hfund]
    exact Fund.priceWithin_cancel (h.call.shares_lt hr hbacked hS).le

/-- Whatever the step is, it settles what it owes `a`. -/
theorem SettledStep.settles (h : SettledStep a w p w') (hw : Orderly w) : Settles a w p w' := by
  obtain ⟨l,posting⟩ := p
  obtain ⟨hfair,hrates,hposting⟩ := h
  dsimp only at hfair hrates hposting
  rw [hposting]
  obtain ⟨v₀,hv₀,-⟩ := hw.backed
  have hw' := hfair.orderly hw
  cases hfair.sound.step.accounts with
  | mint hm => exact hm.settles hw hw' hv₀ a
  | burn hb => exact hb.settles (hrates.of_refreshed hb.serves hb.rate) hw hw' hv₀ a
  | move hm => exact hm.settles hfair.apart a
  | compound hc => exact hc.settles hv₀ a
  | idle hi => exact hi.settles a

theorem settled_of_run (h₀ : Deployed w₀) (hrun : Run (SettledStep a) w₀ ps w) : Orderly w ∧
    (ps.map fun p => p.2.due).sum-(ps.map (charge a)).sum ≤ w.worth a ∧
      w.worth a ≤ (ps.map fun p => p.2.due).sum+(ps.map (windfall a)).sum := by
  refine hrun.history (fun ps w => Orderly w ∧
    (ps.map fun p => p.2.due).sum-(ps.map (charge a)).sum ≤ w.worth a ∧
      w.worth a ≤ (ps.map fun p => p.2.due).sum+(ps.map (windfall a)).sum) ⟨h₀.orderly,?_⟩ ?_
  · simp [World.worth,h₀.sharesOf a]
  · rintro ps t p u hstep ⟨ht,hge,hle⟩
    obtain ⟨hsettles,hsettles'⟩ := hstep.settles ht
    refine ⟨hstep.fair.orderly ht,?_⟩
    simp only [List.map_append,List.sum_append,List.map_singleton,List.sum_singleton]
    constructor <;> linarith

/-- Every account is settled. Over any run from the constructor at rates of at least one, in which
the others do what they like, an account's shares are worth what it is owed: the bTokens its deposits
brought in, less those its exits took out, with what its deposits found in a vault without shares, its
part of every claim and the worth of what it was sent. Its own deposits and exits cost it no more than the price of a share each, those of the others
bring it no more than that, and its quote is that worth rounded down. -/
theorem every_account_is_settled (h₀ : Deployed w₀) (hrun : Run (SettledStep a) w₀ ps w) :
    ∃ v, w.storage.vaultData = some v ∧
      v.exactBTokens (w.storage.sharesOf a) = ⌊w.worth a⌋ ∧
      (ps.map fun p => p.2.due).sum-(ps.map (charge a)).sum ≤ w.worth a ∧
      w.worth a ≤ (ps.map fun p => p.2.due).sum+(ps.map (windfall a)).sum := by
  obtain ⟨hw,hsettled⟩ := settled_of_run h₀ hrun
  obtain ⟨v,hv,-⟩ := hw.backed
  refine ⟨v,hv,?_,hsettled⟩
  rw [World.worth,World.fund_of hv]
  rcases (hw.balanced.nonneg a).eq_or_lt with h0 | hpos
  · rw [← h0,Fund.valueOf_zero,Int.floor_zero,VaultData.exactBTokens_of_nonpos le_rfl]
  · have hS : 0 < v.totalShares := hpos.trans_le (hw.sharesOf_le hv a)
    rw [VaultData.exactBTokens_eq_quote hpos hS]
    exact (Fund.floor_valueOf hS _).symm

end Postings

section Sample
attribute [local instance] FixedPoint.documented

/-- Account 7 deposits, is sent shares, takes its part of a claim and leaves with half. -/
theorem every_account_is_settled_sample :
    ∃ (ps : List (Label ℕ ℤ × Posting)) (w : World ℕ ℤ) (v : VaultData),
      ps.map (fun p => p.1.call) = [.setRouter 5,.deposit 100 7 7 7,.deposit 50 8 8 8,
        .transfer 8 7 10,.claimEmissions 0,.withdraw 60 7 7 7] ∧
      w.storage.vaultData = some v ∧ v.exactBTokens (w.storage.sharesOf 7) = ⌊w.worth 7⌋ ∧
      (ps.map fun p => p.2.due).sum-(ps.map (charge 7)).sum ≤ w.worth 7 := by
  obtain ⟨w₀,ls,w,hdeploy,hrun,hq⟩ := exists_run (e := referenceEnv scalar12 0 0)
    (exactEmissionStep_of_referenceCalls [((scalar12,0,1),.setRouter 5),
      ((scalar12,0,1),.deposit 100 7 7 7),((1100000000000,0,1),.deposit 50 8 8 8),
      ((1100000000000,0,2),.transfer 8 7 10),((1200000000000,40,2),.claimEmissions 0),
      ((1500000000000,0,3),.withdraw 60 7 7 7)] (by decide) (by simp [Call.SelfTransfer]))
    (fun (ls : List (Label ℕ ℤ)) _ => ls.map Label.call = [.setRouter 5,.deposit 100 7 7 7,
      .deposit 50 8 8 8,.transfer 8 7 10,.claimEmissions 0,.withdraw 60 7 7 7] ∧
      ∀ l ∈ ls, l.SuppliesNonneg)
    (show (simulate _ 1 2 3 4 0 _).any _ = true by decide)
  obtain ⟨hcalls,hnonneg⟩ := of_decide_eq_true hq
  obtain ⟨ps,rfl,hannotated⟩ := (fair_of_exact (exactDeployed_of_deploy hdeploy).tracks hrun
    hnonneg).2.annotate fun w l w' => l.posting 7 w w'
  have hsettled : Run (SettledStep 7) w₀ ps w := hannotated.mono fun _ _ _ h => ⟨h.1.1,h.1.2,h.2⟩
  obtain ⟨v,hv,hquote,hge,-⟩ := every_account_is_settled (deploy_deployed hdeploy) hsettled
  rw [List.map_map] at hcalls
  exact ⟨ps,w,v,hcalls,hv,hquote,hge⟩

end Sample
end BlendVault
