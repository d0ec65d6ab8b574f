import BlendVault.System.Interest
import BlendVault.System.Purse
import BlendVault.System.Settlement

/-! What a group of accounts earns. Until emissions come in, at rates of at least one, its shares are
an account that bears interest: what was deposited for its members went in, what was paid out for them
went out, and what others sent them came as it was. What everybody else does, and what the members do
among themselves, brings them nothing and costs them nothing. -/
namespace BlendVault
open FailStop RoundedDivision Accrual

section Earnings
variable {Address W : Type} [DecidableEq Address] (P : Finset Address)

/-- The shares a group holds. -/
def Storage.heldBy (s : Storage Address) : ℤ := ∑ a ∈ P, s.sharesOf a

/-- A call and its rate as an entry of the group's account: the request made for one of them, or the
shares the others have sent them. -/
def entryFor (p : Label Address W × ℤ) : Entry :=
  match p.1.call.dealer with
  | some a => if a ∈ P then p.1.entry (fun _ => p.2) else ⟨p.2,.rest⟩
  | none => ⟨p.2,.receive (∑ a ∈ P, p.1.call.sent a)⟩

/-- The group's account after the calls. -/
def groupAccount (ps : List (Label Address W × ℤ)) : Account :=
  Account.close scalar12 ⟨0,0⟩ (ps.map (entryFor P))

/-- The interest that the group's own shares have earned over the calls. -/
def interestFor (ps : List (Label Address W × ℤ)) : ℤ :=
  Account.interest scalar12 ⟨0,0⟩ (ps.map (entryFor P))

variable [FixedPoint] {P} {w w' w₀ t : World Address W} {l : Label Address W} {r : ℤ}
  {p : Label Address W × ℤ} {ps : List (Label Address W × ℤ)} {v : VaultData}
  {pool asset receiver from_ owner operator to_ : Address} {assets u moved b n amount : ℤ}

/-- A step at a known rate of at least one, in which nothing is claimed and nobody transfers to
himself. -/
structure TradedStep (w : World Address W) (p : Label Address W × ℤ) (w' : World Address W) :
    Prop where
  priced : PricedStep w p w'
  apart : ¬ p.1.call.SelfTransfer
  rate_pos : 0 < p.2

omit [FixedPoint] in
@[simp] theorem entryFor_rate : (entryFor P p).rate = p.2 := by
  unfold entryFor
  split
  · split <;> rfl
  · rfl

omit [FixedPoint] in
@[simp] theorem groupAccount_concat :
    groupAccount P (ps ++ [p]) = (groupAccount P ps).after scalar12 (entryFor P p) := by
  simp [groupAccount]

omit [FixedPoint] in
theorem entryFor_of_dealer {a : Address} (hdealer : l.call.dealer = some a) :
    entryFor P (l,r) = if a ∈ P then l.entry (fun _ => r) else ⟨r,.rest⟩ := by
  simp only [entryFor,hdealer]

omit [FixedPoint] in
theorem entryFor_of_none (hdealer : l.call.dealer = none) :
    entryFor P (l,r) = ⟨r,.receive (∑ a ∈ P, l.call.sent a)⟩ := by
  simp only [entryFor,hdealer]

omit [FixedPoint] in
/-- Minting or burning for one account changes what the group holds if it is one of them. -/
theorem Storage.heldBy_of_dealing {s s' : Storage Address} {dealer : Address} {d : ℤ}
    (h : ∀ a, s'.sharesOf a = if a = dealer then s.sharesOf dealer+d else s.sharesOf a) :
    s'.heldBy P = s.heldBy P+if dealer ∈ P then d else 0 := by
  have hsplit : ∀ a, s'.sharesOf a = s.sharesOf a+if a = dealer then d else 0 := by
    intro a
    rw [h a]
    by_cases ha : a = dealer
    · rw [if_pos ha,if_pos ha,ha]
    · rw [if_neg ha,if_neg ha,add_zero]
  simp only [Storage.heldBy,hsplit,Finset.sum_add_distrib,Finset.sum_ite_eq']

/-- The call's entry does to the units of the account what the call does to the group's shares. -/
def EntersFor (P : Finset Address) (w : World Address W) (p : Label Address W × ℤ)
    (w' : World Address W) : Prop :=
  ∀ c : Account, c.units = w.storage.heldBy P →
    (c.after scalar12 (entryFor P p)).units = w'.storage.heldBy P

theorem Mint.entersFor (h : Mint w l w' pool asset receiver from_ operator v assets moved b n)
    (hr : 0 < v.bRate) (hw : AtPar w) : EntersFor P w (l,v.bRate) w' := by
  have hdealer : l.call.dealer = some receiver := by
    rw [h.call]
    rfl
  have hn : n = assets*scalar12/v.bRate := by
    rw [(h.atPar hw).1,h.mints.bTokens_eq hr]
  intro c hc
  rw [Storage.heldBy_of_dealing h.sharesOf,entryFor_of_dealer hdealer,Label.entry,h.flows,hn,← hc]
  by_cases ha : receiver ∈ P
  · rw [if_pos ha,if_pos ha]
    rfl
  · rw [if_neg ha,if_neg ha,add_zero]
    rfl

theorem Burn.entersFor (h : Burn w l w' pool asset receiver owner operator v u moved b n)
    (hr : scalar12 ≤ v.bRate) (hw : AtPar w) : EntersFor P w (l,v.bRate) w' := by
  have hpos := scalar12_pos.trans_le hr
  have hn : n = ceilDiv (u*scalar12) v.bRate := by
    rw [← h.call.bTokens_eq_shares h.releases hpos (hw.refreshed h.rate)
      (roundTrips_of_scalar12_le hr _),h.call.bTokens_eq hpos]
  intro c hc
  rw [Storage.heldBy_of_dealing h.sharesOf,entryFor_of_dealer h.call.dealer,Label.entry,h.flows,hn,
    ← hc]
  by_cases ha : owner ∈ P
  · rw [if_pos ha,if_pos ha]
    rfl
  · rw [if_neg ha,if_neg ha,add_zero]
    rfl

omit [FixedPoint] in
/-- What the members are sent adds up, what they send each other cancels out. -/
theorem entersFor_of_sent (hdealer : l.call.dealer = none)
    (h : ∀ a, w'.storage.sharesOf a = w.storage.sharesOf a+l.call.sent a) :
    EntersFor P w (l,r) w' := by
  intro c hc
  rw [entryFor_of_none hdealer]
  change c.units+∑ a ∈ P, l.call.sent a = ∑ a ∈ P, w'.storage.sharesOf a
  simp only [h,Finset.sum_add_distrib,hc,Storage.heldBy]

theorem TradedStep.entersFor (h : TradedStep w p w') (hw : AtPar w) : EntersFor P w p w' := by
  obtain ⟨l,r⟩ := p
  obtain ⟨⟨⟨hstep,hpremium,hunclaimed⟩,hprice⟩,hapart,-⟩ := h
  dsimp only at hstep hpremium hunclaimed hprice hapart
  cases hstep.accounts with
  | mint hm =>
    have hr := hpremium.of_refreshed hm.serves hm.rate
    exact hprice.of_refreshed hm.serves hm.rate ▸ hm.entersFor (scalar12_pos.trans_le hr) hw
  | burn hb =>
    have hr := hpremium.of_refreshed hb.serves hb.rate
    exact hprice.of_refreshed hb.serves hb.rate ▸ hb.entersFor hr hw
  | move hm => exact entersFor_of_sent hm.dealer (hm.sharesOf_eq hapart)
  | compound hc =>
    obtain ⟨m,hcall⟩ := hc.call
    cases hc.flows.symm.trans (hunclaimed m hcall)
  | idle hi =>
    obtain ⟨hdealer,-,hsent⟩ := hi.aside
    exact entersFor_of_sent hdealer fun a => by rw [hi.sharesOf a,hsent,add_zero]

/-- The group's shares are the units of its account. -/
structure KeepsGroup (P : Finset Address) (ps : List (Label Address W × ℤ)) (w : World Address W) :
    Prop where
  atPar : AtPar w
  units : (groupAccount P ps).units = w.storage.heldBy P
  rates : ∀ e ∈ ps.map (entryFor P), 0 < e.rate

theorem keepsGroup_of_run (h₀ : Deployed w₀) (hrun : Run TradedStep w₀ ps w) : KeepsGroup P ps w := by
  obtain ⟨t,r,hv₀⟩ := h₀.vaultData
  refine hrun.history (KeepsGroup P) ⟨⟨_,hv₀,le_rfl,rfl⟩,?_,by simp⟩ ?_
  · exact (Finset.sum_eq_zero fun a _ => h₀.sharesOf a).symm
  · intro ps t p u hstep ht
    refine ⟨(hstep.priced.premium.atPar ht.atPar).1,?_,?_⟩
    · rw [groupAccount_concat]
      exact hstep.entersFor ht.atPar _ ht.units
    · intro e he
      rw [List.map_append,List.mem_append,List.map_singleton,List.mem_singleton] at he
      rcases he with he | rfl
      · exact ht.rates e he
      · rw [entryFor_rate]
        exact hstep.rate_pos

/-- A group earns the interest on its own shares. Until emissions come in, at rates of at least one,
the shares of any group are worth what was deposited for its members, less what was paid out for them,
with the worth of what others sent them and the interest; less than the worth of one bToken is lost
for each deposit and exit of theirs, and nothing is gained, whatever they and the others do. -/
theorem groups_earn_their_interest (h₀ : Deployed w₀) (hrun : Run TradedStep w₀ ps t)
    (hlast : TradedStep t p w) (P : Finset Address) :
    w.storage.heldBy P*p.2 ≤ scalar12*(((ps ++ [p]).map (entryFor P)).map Entry.net).sum+
        (((ps ++ [p]).map (entryFor P)).map Entry.gift).sum+interestFor P (ps ++ [p]) ∧
      scalar12*(((ps ++ [p]).map (entryFor P)).map Entry.net).sum+
          (((ps ++ [p]).map (entryFor P)).map Entry.gift).sum+interestFor P (ps ++ [p]) ≤
        w.storage.heldBy P*p.2+(((ps ++ [p]).map (entryFor P)).map Entry.slack).sum := by
  obtain ⟨-,hunits,hrates⟩ := keepsGroup_of_run (P := P) h₀ (.snoc hrun hlast)
  have hrate : (groupAccount P (ps ++ [p])).rate = p.2 := by
    rw [groupAccount_concat,Account.after_rate,entryFor_rate]
  have hworth : (groupAccount P (ps ++ [p])).worth = w.storage.heldBy P*p.2 := by
    rw [Account.worth,hunits,hrate]
  obtain ⟨hle,hge⟩ := Account.close_worth (k := scalar12) (c := ⟨0,0⟩) hrates
  change (groupAccount P (ps ++ [p])).worth ≤ _+_+interestFor P (ps ++ [p])+0*0 at hle
  change _+_+interestFor P (ps ++ [p])+0*0 ≤ (groupAccount P (ps ++ [p])).worth+_ at hge
  rw [hworth,zero_mul,add_zero] at hle hge
  exact ⟨hle,hge⟩

end Earnings

section Sample
attribute [local instance] FixedPoint.documented

theorem tradedStep_of_referenceCalls (cs : List ((ℤ × ℤ × ℕ) × Call ℕ))
    (hr : ∀ c ∈ cs, scalar12 ≤ c.1.1)
    (hcs : ∀ c ∈ cs, (∀ m, c.2 ≠ .claimEmissions m) ∧ ¬ c.2.SelfTransfer)
    {t u : World ℕ ℤ} {l : Label ℕ ℤ} (hstep : Step t l u)
    (hmem : (l.env,l.call) ∈ referenceCalls cs) : TradedStep t l.priced u := by
  refine ⟨pricedStep_of_referenceCalls cs hr (fun c hc => (hcs c hc).1) hstep hmem,
    call_of_referenceCalls (P := fun c => ¬ c.SelfTransfer) (fun c hc => (hcs c hc).2) hmem,?_⟩
  obtain ⟨c,hc,hcall⟩ := List.mem_map.mp hmem
  have henv : referenceEnv c.1.1 c.1.2.1 c.1.2.2 = l.env := congrArg Prod.fst hcall
  rw [Label.priced,← henv]
  exact scalar12_pos.trans_le (hr c hc)

/-- Accounts 7 and 9 share what 7 has put in, and account 8 sends 7 three of its own shares. -/
theorem groups_earn_their_interest_sample : ∃ (ps : List (Label ℕ ℤ × ℤ)) (w : World ℕ ℤ),
    ps.map (fun p => p.1.call) = [.deposit 20 7 7 7,.deposit 9 8 8 8,.transfer 7 9 5,.transfer 8 7 3,
      .redeem 4 9 9 9] ∧
    ((ps.map (entryFor {7,9})).map Entry.net).sum = 20-6 ∧
    ((ps.map (entryFor {7,9})).map Entry.gift).sum = 3*1300000000000 ∧
    interestFor {7,9} ps = 7800000000000 ∧
    w.storage.heldBy {7,9}*1500000000000 ≤ scalar12*(20-6)+3*1300000000000+7800000000000 := by
  have htraded := fun (t : World ℕ ℤ) l u hstep (_ : l.found = t.outside) hmem =>
    tradedStep_of_referenceCalls (t := t) (u := u) (l := l)
      [((1100000000000,0,1),.deposit 20 7 7 7),((1200000000000,0,2),.deposit 9 8 8 8),
        ((1200000000000,0,2),.transfer 7 9 5),((1300000000000,0,3),.transfer 8 7 3),
        ((1500000000000,0,4),.redeem 4 9 9 9)]
      (by decide) (by simp [Call.SelfTransfer]) hstep hmem
  obtain ⟨w₀,ls,w,hdeploy,hrun,hq⟩ := exists_run (e := referenceEnv 1100000000000 0 0) htraded
    (fun ls _ => (ls.map Label.priced).map (fun p => p.1.call) = [.deposit 20 7 7 7,
        .deposit 9 8 8 8,.transfer 7 9 5,.transfer 8 7 3,.redeem 4 9 9 9] ∧
      (ls.map Label.priced).map Prod.snd =
        [1100000000000,1200000000000,1200000000000,1300000000000,1500000000000] ∧
      (((ls.map Label.priced).map (entryFor {7,9})).map Entry.net).sum = 20-6 ∧
      (((ls.map Label.priced).map (entryFor {7,9})).map Entry.gift).sum = 3*1300000000000 ∧
      interestFor {7,9} (ls.map Label.priced) = 7800000000000)
    (show (simulate _ 1 2 3 4 0 _).any _ = true by decide)
  obtain ⟨hcalls,hrates,hnet,hgift,hinterest⟩ := of_decide_eq_true hq
  cases hrun with
  | nil => cases hcalls
  | @snoc ls l t u hrun hlast =>
    have hrate : l.priced.2 = 1500000000000 := by
      simpa using congrArg List.getLast? hrates
    obtain ⟨hle,-⟩ := groups_earn_their_interest (deploy_deployed hdeploy)
      (hrun.relabel Label.priced) hlast {7,9}
    rw [List.map_append,List.map_singleton] at hcalls hnet hgift hinterest
    rw [hnet,hgift,hinterest,hrate] at hle
    exact ⟨_,_,hcalls,hnet,hgift,hinterest,hle⟩

end Sample
end BlendVault
