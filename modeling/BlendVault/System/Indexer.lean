import BlendVault.System.Backing

/-! An observer who keeps everybody's balance by replaying the events. A deposit's event names who
paid, not who got the shares, and a transfer to oneself shows no change; those two calls are all
that the events leave out. -/
namespace BlendVault
open FailStop

section Log
variable {Address W : Type} [DecidableEq Address]

/-- The shares an event says `a` has gained. -/
def Event.credit (a : Address) : Event Address → ℤ
  | .vaultDeposit _ _ from_ _ shares _ => if a = from_ then shares else 0
  | .vaultWithdraw _ _ from_ _ shares _ => if a = from_ then -shares else 0
  | .vaultEmissionsClaim _ _ _ => 0
  | .transfer from_ to_ amount => (if a = to_ then amount else 0)-if a = from_ then amount else 0
  | .approve _ _ _ _ => 0

/-- The shares the events of a call say `a` has gained. -/
def Label.credit (a : Address) (l : Label Address W) : ℤ := (l.events.map (Event.credit a)).sum

/-- What a transfer to oneself adds to the balance of `a`. -/
def selfCredit (a from_ to_ : Address) (amount : ℤ) : ℤ :=
  if from_ = to_ ∧ a = to_ then amount else 0

/-- The shares `a` has gained in a call without an event that says so. -/
def Label.unlogged (a : Address) (l : Label Address W) : ℤ :=
  match l.call with
  | .deposit _ receiver from_ _ =>
    (if a = receiver then l.result.getD 0 else 0)-if a = from_ then l.result.getD 0 else 0
  | .transfer from_ to_ amount => selfCredit a from_ to_ amount
  | .transferFrom _ from_ to_ amount => selfCredit a from_ to_ amount
  | _ => 0

/-- Shares deposited are credited to who pays, and shares sent go to somebody else. -/
def Call.Logged : Call Address → Prop
  | .deposit _ receiver from_ _ => receiver = from_
  | .transfer from_ to_ _ => from_ ≠ to_
  | .transferFrom _ from_ to_ _ => from_ ≠ to_
  | _ => True

variable {w w' : World Address W} {l : Label Address W} {ls : List (Label Address W)}
  {s : Storage Address} {from_ to_ : Address} {amount : ℤ}

theorem Storage.sharesOf_moved_eq (a : Address) : (s.moved from_ to_ amount).sharesOf a =
    s.sharesOf a+((if a = to_ then amount else 0)-if a = from_ then amount else 0)+
      selfCredit a from_ to_ amount := by
  rw [Storage.sharesOf_moved,selfCredit]
  by_cases hto : a = to_
  · subst hto
    by_cases hfrom : from_ = a
    · subst hfrom
      simp
    · simp [hfrom,Ne.symm hfrom]
  · by_cases hfrom : a = from_
    · subst hfrom
      simp [hto,sub_eq_add_neg]
    · simp [hto,hfrom]

/-- Only a transfer to oneself earns the credit. -/
theorem selfCredit_eq_zero_iff (hpos : 0 < amount) :
    (∀ a, selfCredit a from_ to_ amount = 0) ↔ from_ ≠ to_ := by
  constructor
  · intro hzero hsame
    have hcredit := hzero to_
    rw [selfCredit,if_pos ⟨hsame,rfl⟩] at hcredit
    exact hpos.ne' hcredit
  · intro hne a
    exact if_neg fun h => hne h.1

variable [FixedPoint]

/-- Every step changes a balance by what its events say, and by what it does not log. -/
theorem Step.sharesOf_eq (h : Step w l w') (a : Address) :
    w'.storage.sharesOf a = w.storage.sharesOf a+l.credit a+l.unlogged a := by
  cases h.outcome with
  | @deposit e found ext assets moved b n receiver from_ =>
    change (Storage.settled _ _ _ _).sharesOf a = _
    rw [Storage.sharesOf_settled]
    by_cases ha : a = receiver
    · subst ha
      simp [Label.credit,Label.unlogged,Event.credit]
    · simp [Label.credit,Label.unlogged,Event.credit,ha]
  | @withdraw e found ext assets u moved b n receiver owner operator pool asset v t _ _ _ _ _ _
      delegates _ =>
    change (Storage.settled _ _ _ _).sharesOf a = _
    rw [Storage.sharesOf_settled,delegates.sharesOf]
    by_cases ha : a = owner
    · subst ha
      simp [Label.credit,Label.unlogged,Event.credit,sub_eq_add_neg]
    · simp [Label.credit,Label.unlogged,Event.credit,ha]
  | @redeem e found ext u moved b n receiver owner operator pool asset v t _ _ _ _ _ _ _ _
      delegates _ =>
    change (Storage.settled _ _ _ _).sharesOf a = _
    rw [Storage.sharesOf_settled,delegates.sharesOf]
    by_cases ha : a = owner
    · subst ha
      simp [Label.credit,Label.unlogged,Event.credit,sub_eq_add_neg]
    · simp [Label.credit,Label.unlogged,Event.credit,ha]
  | transfer =>
    rw [Storage.sharesOf_moved_eq]
    simp [Label.credit,Label.unlogged,Event.credit]
  | transferFrom =>
    rw [Storage.sharesOf_moved_eq]
    simp [Label.credit,Label.unlogged,Event.credit,Storage.spent,Storage.withAllowance,
      Storage.sharesOf]
  | approve | claimNothing | compound | setAdmin | setSigner | setRouter =>
    change w.storage.sharesOf a = _
    simp [Label.credit,Label.unlogged,Event.credit]

/-- Nothing is left out exactly when payer and receiver are one and sender and receiver two. -/
theorem Step.logged_iff (h : Step w l w') : (∀ a, l.unlogged a = 0) ↔ l.call.Logged := by
  cases h.outcome with
  | @deposit e found ext assets moved b n receiver from_ operator pool asset v _ _ _ _ _ mints =>
    have hn := mints.shares_pos
    change (∀ a, (if a = receiver then n else 0)-(if a = from_ then n else 0) = 0) ↔ receiver = from_
    constructor
    · intro hzero
      by_contra hne
      have hreceiver := hzero receiver
      rw [if_pos rfl,if_neg hne,sub_zero] at hreceiver
      exact hn.ne' hreceiver
    · intro hsame a
      rw [hsame,sub_self]
  | transfer _ moves => exact selfCredit_eq_zero_iff moves.amount_pos
  | transferFrom _ _ moves => exact selfCredit_eq_zero_iff moves.amount_pos
  | _ => exact ⟨fun _ => trivial,fun _ _ => rfl⟩

/-- Replaying the events gives every balance but for what the calls left out; and a call leaves
nothing out exactly if it is no deposit for somebody else and no transfer to oneself. -/
theorem balances_from_log (h : Reaches ls w) :
    (∀ a, w.storage.sharesOf a = (ls.map (Label.credit a)).sum+(ls.map (Label.unlogged a)).sum) ∧
      (∀ l ∈ ls, (∀ a, l.unlogged a = 0) ↔ l.call.Logged) ∧
      ((∀ l ∈ ls, l.call.Logged) → ∀ a, w.storage.sharesOf a = (ls.map (Label.credit a)).sum) := by
  obtain ⟨w₀,hdeployed,hrun⟩ := h
  have hsum : ∀ a, w.storage.sharesOf a =
      (ls.map (Label.credit a)).sum+(ls.map (Label.unlogged a)).sum := by
    intro a
    refine hrun.history (fun (ls : List (Label Address W)) w => w.storage.sharesOf a =
      (ls.map (Label.credit a)).sum+(ls.map (Label.unlogged a)).sum) ?_ ?_
    · rw [hdeployed.sharesOf]
      rfl
    · intro ls t l u hstep ht
      rw [hstep.sharesOf_eq a,ht]
      simp only [List.map_append,List.map_cons,List.map_nil,List.sum_append,List.sum_cons,
        List.sum_nil]
      ring
  have hlogged : ∀ l ∈ ls, (∀ a, l.unlogged a = 0) ↔ l.call.Logged :=
    hrun.forall_labels (fun _ => True) (fun l => (∀ a, l.unlogged a = 0) ↔ l.call.Logged) trivial
      fun _ _ _ hstep _ => ⟨trivial,hstep.logged_iff⟩
  refine ⟨hsum,hlogged,fun hall a => ?_⟩
  have hzero : (ls.map (Label.unlogged a)).sum = 0 := by
    apply List.sum_eq_zero
    simpa using fun l hl => (hlogged l hl).mpr (hall l hl) a
  rw [hsum a,hzero,add_zero]

end Log

section Sample
attribute [local instance] FixedPoint.documented

/-- Account 7 pays for the shares of account 8, which sends some on: the events alone put account 7
at ninety and account 8 in debt. -/
theorem balances_from_log_sample : ∃ (ls : List (Label ℕ ℤ)) (w : World ℕ ℤ),
    ls.map Label.call = [.deposit 90 8 7 7,.transfer 8 9 20] ∧
      (ls.map (Label.credit 8)).sum = -20 ∧ (ls.map (Label.unlogged 8)).sum = 90 ∧
      w.storage.sharesOf 8 = -20+90 := by
  obtain ⟨ls,w,hreaches,hq⟩ := exists_reaches (referenceEnv scalar12 0 0) 1 2 3 4 0
    (referenceCalls [((scalar12,0,1),.deposit 90 8 7 7),((scalar12,0,2),.transfer 8 9 20)])
    (fun ls _ => ls.map Label.call = [.deposit 90 8 7 7,.transfer 8 9 20] ∧
      (ls.map (Label.credit 8)).sum = -20 ∧ (ls.map (Label.unlogged 8)).sum = 90) (by decide)
  obtain ⟨hcalls,hcredit,hunlogged⟩ := of_decide_eq_true hq
  refine ⟨ls,w,hcalls,hcredit,hunlogged,?_⟩
  rw [(balances_from_log hreaches).1 8,hcredit,hunlogged]

end Sample
end BlendVault
