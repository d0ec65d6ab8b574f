import BlendVault.System.Dust

/-! What an address gets out of the vault against what it put in, at a constant rate. While
every exit comes back whole, shares stay at par and nobody who acts for themselves alone can
profit from what the others do. -/
namespace BlendVault
open FailStop RoundedDivision ProRata

section OwnAccount
variable {Address : Type} {a : Address}

/-- A deposit or an exit in which `a` plays both the paying and the receiving part or neither. -/
def Call.OwnAccount (a : Address) : Call Address → Prop
  | .deposit _ receiver from_ _ => receiver = a ↔ from_ = a
  | .withdraw _ receiver owner _ => receiver = a ↔ owner = a
  | .redeem _ receiver owner _ => receiver = a ↔ owner = a
  | _ => False

instance [DecidableEq Address] (a : Address) : DecidablePred (Call.OwnAccount a) := fun c =>
  match c with
  | .deposit _ receiver from_ _ => inferInstanceAs (Decidable (receiver = a ↔ from_ = a))
  | .withdraw _ receiver owner _ => inferInstanceAs (Decidable (receiver = a ↔ owner = a))
  | .redeem _ receiver owner _ => inferInstanceAs (Decidable (receiver = a ↔ owner = a))
  | .transfer _ _ _ => .isFalse not_false
  | .transferFrom _ _ _ _ => .isFalse not_false
  | .approve _ _ _ _ => .isFalse not_false
  | .claimEmissions _ => .isFalse not_false
  | .setAdmin _ => .isFalse not_false
  | .setSigner _ => .isFalse not_false
  | .setRouter _ => .isFalse not_false

theorem Call.Bookless.not_ownAccount {c : Call Address} (h : c.Bookless) :
    ¬ c.OwnAccount a := by
  cases c <;> first | exact not_false | exact h.elim

theorem Exits.ownAccount [FixedPoint] {v : VaultData} {held u b n : ℤ}
    {receiver owner operator : Address} {c : Call Address} (h : Exits v held receiver owner operator u b n c)
    (hown : c.OwnAccount a) : receiver = a ↔ owner = a := by
  cases h <;> exact hown

end OwnAccount

section Flows
variable {Address W : Type} [DecidableEq Address]

/-- The underlying a flow takes from `a`. -/
def Flow.depositedBy (a : Address) : Flow Address → ℤ
  | .supplied from_ _ moved => if from_ = a then moved else 0
  | .withdrawn _ _ _ => 0

/-- The underlying a flow pays to `a`. -/
def Flow.paidTo (a : Address) : Flow Address → ℤ
  | .supplied _ _ _ => 0
  | .withdrawn to_ _ moved => if to_ = a then moved else 0

/-- All the underlying taken from `a` in a run. -/
def depositedBy (a : Address) (ls : List (Label Address W)) : ℤ :=
  (ls.map fun l => (l.flows.map (Flow.depositedBy a)).sum).sum

/-- All the underlying paid to `a` in a run. -/
def paidTo (a : Address) (ls : List (Label Address W)) : ℤ :=
  (ls.map fun l => (l.flows.map (Flow.paidTo a)).sum).sum

theorem depositedBy_concat (a : Address) (ls : List (Label Address W)) (l : Label Address W) :
    depositedBy a (ls ++ [l]) = depositedBy a ls+(l.flows.map (Flow.depositedBy a)).sum := by
  simp [depositedBy]

theorem paidTo_concat (a : Address) (ls : List (Label Address W)) (l : Label Address W) :
    paidTo a (ls ++ [l]) = paidTo a ls+(l.flows.map (Flow.paidTo a)).sum := by
  simp [paidTo]

/-- The shares a redemption or a clamped withdrawal burns come back whole from underlying. -/
structure ExitsWhole (r : ℤ) (w : World Address W) (l : Label Address W) : Prop where
  redeem : ∀ {shares receiver owner operator},
    l.call = .redeem shares receiver owner operator → RoundTrips r shares
  withdraw : ∀ {assets receiver owner operator},
    l.call = .withdraw assets receiver owner operator →
    w.storage.sharesOf owner < burnFor assets r → RoundTrips r (w.storage.sharesOf owner)

variable [FixedPoint]

/-- A deposit or an exit on an exact pool at the rate `r`, in which `a` acts for itself. -/
structure OwnStep (position : W → ℤ) (r : ℤ) (a : Address) (w : World Address W)
    (l : Label Address W) (w' : World Address W) : Prop where
  exact : ExactStep position w l w'
  rates : l.Rates w.storage (· = r)
  own : l.call.OwnAccount a

end Flows

section Profit
variable {Address W : Type} [DecidableEq Address] [FixedPoint] {position : W → ℤ}
  {w w' : World Address W} {l : Label Address W} {v v₀ : VaultData} {u moved b n r : ℤ}
  {a : Address}

/-- What `a` has been paid and what its shares are worth come to no more than it put in. -/
def Covered (r : ℤ) (a : Address) (ls : List (Label Address W)) (w : World Address W) : Prop :=
  scalar12*paidTo a ls+r*w.storage.sharesOf a ≤ scalar12*depositedBy a ls

theorem Mint.covered {pool asset receiver from_ operator : Address} {assets : ℤ}
    {ls : List (Label Address W)}
    (h : Mint w l w' pool asset receiver from_ operator v assets moved b n) (hr : 0 < r)
    (hrate : v.bRate = r) (hmoved : moved = assets) (hpar : n = b) (hown : l.call.OwnAccount a)
    (hw : Covered r a ls w) : Covered r a (ls ++ [l]) w' := by
  have hb := h.mints.bTokens_eq (hrate ▸ hr)
  rw [hrate] at hb
  rw [h.call] at hown
  rw [Covered,paidTo_concat,depositedBy_concat,h.flows,h.sharesOf]
  simp only [List.map_cons,List.map_nil,List.sum_cons,List.sum_nil,Flow.paidTo,Flow.depositedBy,
    add_zero]
  unfold Covered at hw
  by_cases ha : from_ = a
  · have hreceiver : receiver = a := hown.mpr ha
    subst hreceiver
    have hle : b*r ≤ assets*scalar12 := hb ▸ ediv_mul_le _ hr
    rw [if_pos rfl,if_pos ha,hmoved,hpar]
    linarith
  · have hne : a ≠ receiver := fun h' => ha (hown.mp h'.symm)
    rw [if_neg hne,if_neg ha,add_zero]
    exact hw

theorem Burn.covered {pool asset receiver owner operator : Address}
    {ls : List (Label Address W)}
    (h : Burn w l w' pool asset receiver owner operator v u moved b n)
    (hmoved : moved = u) (hworth : u*scalar12 ≤ n*r) (hown : receiver = a ↔ owner = a)
    (hw : Covered r a ls w) : Covered r a (ls ++ [l]) w' := by
  rw [Covered,paidTo_concat,depositedBy_concat,h.flows,h.sharesOf]
  simp only [List.map_cons,List.map_nil,List.sum_cons,List.sum_nil,Flow.paidTo,Flow.depositedBy,
    add_zero]
  unfold Covered at hw
  by_cases ha : receiver = a
  · have howner : owner = a := hown.mp ha
    subst howner
    rw [if_pos rfl,if_pos ha,hmoved]
    linarith
  · have hne : a ≠ owner := fun h' => ha (hown.mpr h'.symm)
    rw [if_neg hne,if_neg ha,add_zero]
    exact hw

/-- At par, an exit that comes back whole burns as many bTokens as shares, and pays no more
than the shares are worth. -/
theorem Exits.whole {receiver owner operator : Address}
    (h : Exits v (w.storage.sharesOf owner) receiver owner operator u b n l.call)
    (hrel : v.Releases b n) (hr : 0 < v.bRate) (hpar : v.totalShares = v.totalBTokens)
    (hwhole : ExitsWhole v.bRate w l) : b = n ∧ u*scalar12 ≤ n*v.bRate := by
  have hS : 0 < v.totalShares := h.shares_pos.1.trans_le hrel.shares_le
  generalize hc : l.call = c at h
  cases h with
  | withdraw assets_pos out =>
    cases out with
    | plain cost enough =>
      have hb := cost.bTokens_eq hr
      have heq := cost.shares_eq_bTokens hpar hS
      refine ⟨heq.symm,?_⟩
      rw [heq,hb]
      exact le_ceilDiv_mul _ hr
    | clamped cost short held_pos value =>
      have hb := cost.bTokens_eq hr
      have heq := cost.shares_eq_bTokens hpar hS
      have hround := hwhole.withdraw hc (by rw [burnFor,← hb,← heq]; exact short)
      refine ⟨value.bTokens_eq_shares hpar hr hS hround,?_⟩
      rw [value.underlying_eq_of_par hpar hS]
      exact ediv_mul_le _ scalar12_pos
  | redeem shares_pos enough value underlying_pos =>
    refine ⟨value.bTokens_eq_shares hpar hr hS (hwhole.redeem hc),?_⟩
    rw [value.underlying_eq_of_par hpar hS]
    exact ediv_mul_le _ scalar12_pos

/-- One step keeps shares at par and `a` covered. -/
theorem OwnStep.covered {ls : List (Label Address W)} (h : OwnStep position r a w l w')
    (hr : 0 < r) (hwhole : ExitsWhole r w l) (htracks : Tracks position w) (hpar : AtPar w)
    (hw : Covered r a ls w) : AtPar w' ∧ Covered r a (ls ++ [l]) w' := by
  cases h.exact.step.accounts with
  | mint hm =>
    obtain ⟨r',hr',hpool⟩ := h.exact.exact _ _ hm.serves
    have hrate : _ = r := h.rates.of_refreshed hm.serves hm.rate
    obtain ⟨hnb,hpar'⟩ := hm.atPar hpar
    exact ⟨hpar',hm.covered hr hrate (hpool.supply hm.supplied).1 hnb h.own hw⟩
  | @burn pool asset receiver owner operator v u moved b n hb =>
    obtain ⟨r',hr',hpool⟩ := h.exact.exact _ _ hb.serves
    obtain ⟨v₀,hv₀,hp⟩ := htracks
    rw [← h.exact.untouched] at hp
    have hrate : v.bRate = r := h.rates.of_refreshed hb.serves hb.rate
    obtain ⟨hbn,hworth⟩ :=
      hb.call.whole hb.releases (hrate.symm ▸ hr) (hpar.refreshed hb.rate) (hrate.symm ▸ hwhole)
    have hmoved := (hb.tracks hpool hr' hv₀ hp).2.1
    have hown : receiver = a ↔ owner = a := hb.call.ownAccount h.own
    exact ⟨hb.atPar hpar hbn,hb.covered hmoved (hrate ▸ hworth) hown hw⟩
  | move hm =>
    have hown := h.own
    rcases hm.call with hc | ⟨_,hc⟩ <;> rw [hc] at hown <;> exact hown.elim
  | compound hc =>
    obtain ⟨m,hcall⟩ := hc.call
    have hown := h.own
    rw [hcall] at hown
    exact hown.elim
  | idle hi => exact (hi.call.not_ownAccount h.own).elim

/-- At a constant rate, along a run whose exits all come back whole, an address that acts for
itself alone is never paid more than it put in. -/
theorem never_profits {w₀ : World Address W} {ls : List (Label Address W)} (hr : 0 < r)
    (h₀ : ExactDeployed position w₀)
    (hrun : Run (fun w l w' => OwnStep position r a w l w' ∧ ExitsWhole r w l) w₀ ls w) :
    paidTo a ls ≤ depositedBy a ls := by
  have hstart : AtPar w₀ ∧ Covered r a [] w₀ := by
    obtain ⟨t,q,hv₀⟩ := h₀.deployed.vaultData
    refine ⟨⟨_,hv₀,le_rfl,rfl⟩,?_⟩
    have hzero := h₀.deployed.sharesOf a
    simp [Covered,paidTo,depositedBy,hzero]
  have hall : Tracks position w ∧ AtPar w ∧ Covered r a ls w := by
    apply hrun.history (fun ls w => Tracks position w ∧ AtPar w ∧ Covered r a ls w)
      ⟨h₀.tracks,hstart⟩
    intro ls t l u h₁ h₂
    obtain ⟨hown,hwhole⟩ := h₁
    obtain ⟨htracks,hpar,hcovered⟩ := h₂
    exact ⟨(hown.exact.tracks htracks).1,hown.covered hr hwhole htracks hpar hcovered⟩
  have hreach : Reaches ls w := ⟨w₀,h₀.deployed,hrun.mono fun _ _ _ h => h.1.exact.step⟩
  have hcovered : scalar12*paidTo a ls+r*w.storage.sharesOf a ≤ scalar12*depositedBy a ls :=
    hall.2.2
  have hworth := mul_nonneg hr.le (hreach.balanced.nonneg a)
  refine le_of_mul_le_mul_left ?_ scalar12_pos
  linarith

end Profit

section Sample
attribute [local instance] FixedPoint.documented

/-- Account 7 makes the vault one share worth many bTokens, then lets account 8 deposit. -/
def inflationAttack : List (Call ℕ) :=
  [.deposit 6 7 7 7,.redeem 6 7 7 7,.deposit 3 7 7 7,.redeem 1 7 7 7,.deposit 4 7 7 7,
    .redeem 1 7 7 7,.deposit 6 7 7 7,.redeem 1 7 7 7,.deposit 9 7 7 7,.redeem 1 7 7 7,
    .deposit 14 7 7 7,.redeem 1 7 7 7,.deposit 20 8 8 8,.redeem 1 7 7 7]

/-- At a rate of 0.8 the attack pays: 42 go in and 43 come out. -/
theorem inflation_attack_profits : ∃ (w₀ : World ℕ ℤ) (ls : List (Label ℕ ℤ)) (w : World ℕ ℤ),
    ExactDeployed id w₀ ∧ Run (OwnStep id 800000000000 7) w₀ ls w ∧
      ls.map Label.call = inflationAttack ∧ depositedBy 7 ls = 42 ∧ paidTo 7 ls = 43 := by
  have hown : ∀ (t : World ℕ ℤ) l u, Step t l u → l.found = t.outside → (l.env,l.call) ∈
      referenceCalls (inflationAttack.map fun c => ((800000000000,0,0),c)) →
      OwnStep id 800000000000 7 t l u := by
    intro t l u hstep hfound hmem
    exact ⟨exactStep_of_referenceCalls (by decide) hstep hfound hmem,
      rates_of_referenceCalls (by decide) hmem,call_of_referenceCalls (by decide) hmem⟩
  obtain ⟨w₀,ls,w,hdeploy,hrun,hend⟩ := exists_run (e := referenceEnv 800000000000 0 0) hown
    (fun ls _ => ls.map Label.call = inflationAttack ∧ depositedBy 7 ls = 42 ∧ paidTo 7 ls = 43)
    (show (simulate _ 1 2 3 4 0 _).any _ = true by decide)
  obtain ⟨hcalls,hin,hout⟩ := of_decide_eq_true hend
  exact ⟨w₀,ls,w,exactDeployed_of_deploy hdeploy,hrun,hcalls,hin,hout⟩

/-- A run of the same kind at a rate of 1.25. -/
theorem never_profits_sample : ∃ ls : List (Label ℕ ℤ),
    ls.map Label.call = [.deposit 60 7 7 7,.redeem 47 7 7 7,.deposit 20 8 8 8,.redeem 1 7 7 7] ∧
      paidTo 7 ls ≤ depositedBy 7 ls := by
  have hown : ∀ (t : World ℕ ℤ) l u, Step t l u → l.found = t.outside → (l.env,l.call) ∈
      referenceCalls [((1250000000000,0,0),.deposit 60 7 7 7),
        ((1250000000000,0,0),.redeem 47 7 7 7),((1250000000000,0,0),.deposit 20 8 8 8),
        ((1250000000000,0,0),.redeem 1 7 7 7)] →
      OwnStep id 1250000000000 7 t l u ∧ ExitsWhole 1250000000000 t l := by
    intro t l u hstep hfound hmem
    refine ⟨⟨exactStep_of_referenceCalls (by decide) hstep hfound hmem,
      rates_of_referenceCalls (by decide) hmem,call_of_referenceCalls (by decide) hmem⟩,?_,?_⟩
    · intro _ _ _ _ _
      exact roundTrips_of_scalar12_le (by decide) _
    · intro _ _ _ _ _ _
      exact roundTrips_of_scalar12_le (by decide) _
  obtain ⟨w₀,ls,w,hdeploy,hrun,hcalls⟩ := exists_run (e := referenceEnv 1250000000000 0 0) hown
    (fun ls _ => ls.map Label.call =
      [.deposit 60 7 7 7,.redeem 47 7 7 7,.deposit 20 8 8 8,.redeem 1 7 7 7])
    (show (simulate _ 1 2 3 4 0 _).any _ = true by decide)
  exact ⟨ls,of_decide_eq_true hcalls,
    never_profits (by decide) (exactDeployed_of_deploy hdeploy) hrun⟩

end Sample
end BlendVault
