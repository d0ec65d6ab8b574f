import BlendVault.Foundations.Delegation
import BlendVault.System.Balances

/-! Allowances as delegations. Each approval is a grant, and whatever a spender moves or burns
is a draw on it; the stored entry always is what is left of the last grant. -/
namespace BlendVault
open FailStop Delegation

section Calls
variable {Address W : Type}

/-- The delegation a call acts on, and how. -/
def Label.dealing (l : Label Address W) : Option (AllowanceKey Address × Act ℕ ℤ) :=
  match l.call with
  | .approve from_ spender amount expirationLedger =>
    some (⟨from_,spender⟩,.grant ⟨amount,expirationLedger⟩)
  | .transferFrom spender from_ _ amount => some (⟨from_,spender⟩,.draw l.env.sequence amount)
  | .withdraw _ _ owner operator =>
    l.result.map fun burnt => (⟨owner,operator⟩,.draw l.env.sequence burnt)
  | .redeem shares _ owner operator => some (⟨owner,operator⟩,.draw l.env.sequence shares)
  | _ => none

variable [DecidableEq Address]

/-- What a call does to the delegation at `key`. -/
def Label.act (key : AllowanceKey Address) (l : Label Address W) : Option (Act ℕ ℤ) :=
  l.dealing.bind fun d => if d.1 = key then some d.2 else none

/-- The history of the delegation at `key`. -/
def acts (key : AllowanceKey Address) (ls : List (Label Address W)) : List (Act ℕ ℤ) :=
  ls.filterMap (Label.act key)

variable {key k : AllowanceKey Address} {l : Label Address W} {ls : List (Label Address W)}
  {a : Act ℕ ℤ}

theorem acts_snoc_of_dealing (h : l.dealing = some (key,a)) :
    acts key (ls ++ [l]) = acts key ls ++ [a] := by
  simp [acts,Label.act,h]

theorem acts_snoc_of_ne (h : l.dealing = some (k,a)) (hne : k ≠ key) :
    acts key (ls ++ [l]) = acts key ls := by
  simp [acts,Label.act,h,hne]

theorem acts_snoc_of_none (h : l.dealing = none) : acts key (ls ++ [l]) = acts key ls := by
  simp [acts,Label.act,h]

end Calls

namespace Storage
variable {Address W : Type} [DecidableEq Address] {s t : Storage Address} {e : Env Address W}
  {key : AllowanceKey Address} {n : ℤ}

/-- The entry at `key` holds `a` and is kept through its expiration. -/
def Entered (s : Storage Address) (key : AllowanceKey Address) (a : AllowanceValue) : Prop :=
  ∃ live, a.expirationLedger ≤ live ∧ s.allowances.lookup key = some ⟨a,live⟩

omit [DecidableEq Address] in
theorem Entered.congr [DecidableEq Address] {a : AllowanceValue} (h : s.Entered key a)
    (hsame : t.allowances.lookup key = s.allowances.lookup key) : t.Entered key a := by
  obtain ⟨live,hle,hlookup⟩ := h
  exact ⟨live,hle,hsame.trans hlookup⟩

theorem entered_withAllowance (s : Storage Address) (e : Env Address W) (key : AllowanceKey Address)
    (amount : ℤ) (expirationLedger : ℕ) :
    (s.withAllowance e key.from_ key.spender amount expirationLedger).Entered key
      ⟨amount,expirationLedger⟩ :=
  ⟨_,le_max_right _ _,AList.lookup_insert _⟩

theorem lookup_withAllowance_of_ne {k : AllowanceKey Address} (h : k ≠ key) (amount : ℤ)
    (expirationLedger : ℕ) :
    (s.withAllowance e key.from_ key.spender amount expirationLedger).allowances.lookup k =
      s.allowances.lookup k := AList.lookup_insert_ne h

/-- The host keeps the entry for as long as it counts, so only the expiration matters. -/
theorem Entered.allowanceAt {a : AllowanceValue} (h : s.Entered key a) (e : Env Address W) :
    s.allowanceAt e key.from_ key.spender =
      if e.sequence ≤ a.expirationLedger then (a.amount,a.expirationLedger) else (0,0) := by
  obtain ⟨live,hle,hlookup⟩ := h
  simp only [Storage.allowanceAt,readTemporary,hlookup]
  by_cases hexp : e.sequence ≤ a.expirationLedger
  · have hlive : ¬ (live < e.sequence ∧ e.evicted key = true) := by
      intro h
      omega
    simp [hexp,hlive]
  · by_cases hgone : live < e.sequence ∧ e.evicted key = true
    · simp [hexp,hgone]
    · simp [hexp,hgone]

theorem allowanceAt_of_lookup_eq_none (h : s.allowances.lookup key = none) (e : Env Address W) :
    s.allowanceAt e key.from_ key.spender = (0,0) := by
  simp only [Storage.allowanceAt,readTemporary,h]

/-- A positive allowance has not expired. -/
theorem unexpired_of_allowanceAt_pos (h : 0 < (s.allowanceAt e key.from_ key.spender).1) :
    e.sequence ≤ (s.allowanceAt e key.from_ key.spender).2 := by
  unfold Storage.allowanceAt at h ⊢
  cases hread : s.readTemporary e key with
  | none =>
    rw [hread] at h
    exact absurd h (lt_irrefl 0)
  | some a =>
    rw [hread] at h
    dsimp only at h ⊢
    by_cases hexp : e.sequence ≤ a.expirationLedger
    · rw [if_pos hexp]
      exact hexp
    · rw [if_neg hexp] at h
      exact absurd h (lt_irrefl 0)

/-- A draw of `n` at `key` leads from the allowances of `s` to those of `t`. An account's
own delegation to itself may or may not be touched. -/
structure Draws (s : Storage Address) (e : Env Address W) (key : AllowanceKey Address) (n : ℤ)
    (t : Storage Address) : Prop where
  others : ∀ k ≠ key, t.allowances.lookup k = s.allowances.lookup k
  covers : key.from_ ≠ key.spender → s.Covers e key.from_ key.spender n
  entered : key.from_ ≠ key.spender → t.Entered key
    ⟨(s.allowanceAt e key.from_ key.spender).1-n,(s.allowanceAt e key.from_ key.spender).2⟩

theorem draws_spent (key : AllowanceKey Address) (h : s.Covers e key.from_ key.spender n)
    (hsame : t.allowances = (s.spent e key.from_ key.spender n).allowances) :
    s.Draws e key n t := by
  refine ⟨?_,fun _ => h,fun _ => ?_⟩
  · intro k hk
    rw [hsame]
    exact lookup_withAllowance_of_ne hk _ _
  · exact (entered_withAllowance s e key _ _).congr (by rw [hsame]; rfl)

theorem Delegates.draws (key : AllowanceKey Address) {t' : Storage Address}
    (h : s.Delegates e key.from_ key.spender n t) (hsame : t'.allowances = t.allowances) :
    s.Draws e key n t' := by
  cases h with
  | self same => exact ⟨fun _ _ => by rw [hsame],fun hne => absurd same hne,
      fun hne => absurd same hne⟩
  | allowance other covers => exact draws_spent key covers hsame

/-- A draw on an allowance finds it unexpired, and takes off exactly what it draws. -/
theorem Draws.drop (h : s.Draws e key n t) (hpos : 0 < n) (hne : key.from_ ≠ key.spender) :
    e.sequence ≤ (s.allowanceAt e key.from_ key.spender).2 ∧
      (t.allowanceAt e key.from_ key.spender).1 =
        (s.allowanceAt e key.from_ key.spender).1-n := by
  have hle := unexpired_of_allowanceAt_pos (hpos.trans_le (h.covers hne).enough)
  refine ⟨hle,?_⟩
  rw [(h.entered hne).allowanceAt e,if_pos hle]

end Storage

section Steps
variable {Address W : Type} [DecidableEq Address] {w w' : World Address W} {l : Label Address W}

/-- What a step does to the allowances, and on whose authority balances fall in it. -/
inductive Authority (w : World Address W) (l : Label Address W) (w' : World Address W) : Prop
  | grant {key : AllowanceKey Address} {amount : ℤ} {expirationLedger : ℕ}
      (dealing : l.dealing = some (key,.grant ⟨amount,expirationLedger⟩))
      (entered : w'.storage.Entered key ⟨amount,expirationLedger⟩)
      (others : ∀ k ≠ key, w'.storage.allowances.lookup k = w.storage.allowances.lookup k)
      (shares : w'.storage.shares = w.storage.shares)
  | draw {key : AllowanceKey Address} {n : ℤ} (pos : 0 < n)
      (dealing : l.dealing = some (key,.draw l.env.sequence n)) (auths : l.auths = [key.spender])
      (draws : w.storage.Draws l.env key n w'.storage)
      (falls : ∀ a, w.storage.sharesOf a ≤
        w'.storage.sharesOf a+if a = key.from_ then n else 0)
  | none (dealing : l.dealing = none) (allowances : w'.storage.allowances = w.storage.allowances)
      (falls : ∀ a, w'.storage.sharesOf a < w.storage.sharesOf a → a ∈ l.auths)

/-- Only the sender's balance falls in a transfer, and by no more than is sent. -/
theorem Storage.Moves.falls {s : Storage Address} {from_ to_ : Address} {amount : ℤ}
    (h : s.Moves from_ to_ amount) (a : Address) :
    s.sharesOf a ≤ (s.moved from_ to_ amount).sharesOf a+if a = from_ then amount else 0 := by
  have hpos := h.amount_pos
  rw [Storage.moved,Storage.sharesOf_withShares,Storage.sharesOf_withShares]
  split <;> split <;> simp_all <;> omega

/-- Only the owner's balance falls when shares are burnt. -/
theorem Storage.settled_falls {s t : Storage Address} {v : VaultData} {owner : Address} {n : ℤ}
    (hsame : ∀ a, t.sharesOf a = s.sharesOf a) (a : Address) :
    s.sharesOf a ≤ (t.settled v owner (s.sharesOf owner-n)).sharesOf a+
      if a = owner then n else 0 := by
  rw [Storage.sharesOf_settled]
  by_cases ha : a = owner
  · subst ha
    simp
  · simp [ha,hsame]

variable [FixedPoint]

theorem Step.authority (h : Step w l w') : Authority w l w' := by
  cases h.outcome with
  | deposit _ _ _ _ _ mints =>
    refine .none rfl rfl ?_
    intro a ha
    have hpos := mints.shares_pos
    change (Storage.settled _ _ _ _).sharesOf a < w.storage.sharesOf a at ha
    rw [Storage.sharesOf_settled] at ha
    split at ha
    · subst_vars
      omega
    · exact absurd ha (lt_irrefl _)
  | withdraw _ _ _ _ out _ delegates _ =>
    exact .draw out.shares_pos.1 rfl rfl (Storage.Delegates.draws _ delegates rfl)
      (Storage.settled_falls delegates.sharesOf)
  | redeem _ shares_pos _ _ _ _ _ _ delegates _ =>
    exact .draw shares_pos rfl rfl (Storage.Delegates.draws _ delegates rfl)
      (Storage.settled_falls delegates.sharesOf)
  | @transfer _ _ from_ _ _ _ moves =>
    refine .none rfl rfl ?_
    intro a ha
    have hfall := moves.falls a
    by_cases heq : a = from_
    · simp [heq]
    · rw [if_neg heq,add_zero] at hfall
      exact absurd ha (not_lt.mpr hfall)
  | transferFrom _ covers moves =>
    exact .draw moves.amount_pos rfl rfl (Storage.draws_spent _ covers rfl) moves.falls
  | approve =>
    exact .grant rfl (Storage.entered_withAllowance w.storage _ _ _ _)
      (fun k hk => Storage.lookup_withAllowance_of_ne hk _ _) rfl
  | _ => exact .none rfl rfl fun a ha => absurd ha (lt_irrefl _)

end Steps

section History
variable {Address W : Type} [DecidableEq Address] {w w' : World Address W} {l : Label Address W}
  {ls : List (Label Address W)} {key : AllowanceKey Address} {s t : Storage Address}
  {history : List (Act ℕ ℤ)}

/-- The entry at `key` is what its history leaves of the last grant. -/
structure Recorded (s : Storage Address) (key : AllowanceKey Address)
    (history : List (Act ℕ ℤ)) : Prop where
  kept : Kept history
  absent : lastGrant history = none → s.allowances.lookup key = none
  entered : ∀ g, lastGrant history = some g →
    s.Entered key ⟨g.amount-drawn history,g.expires⟩

omit [DecidableEq Address] in
theorem Recorded.congr [DecidableEq Address] (h : Recorded s key history)
    (hsame : t.allowances.lookup key = s.allowances.lookup key) : Recorded t key history :=
  ⟨h.kept,fun hg => hsame.trans (h.absent hg),fun g hg => (h.entered g hg).congr hsame⟩

theorem Recorded.allowanceAt_of_lastGrant (h : Recorded s key history) {g : Grant ℕ ℤ}
    (hg : lastGrant history = some g) (e : Env Address W) :
    s.allowanceAt e key.from_ key.spender =
      if e.sequence ≤ g.expires then (g.amount-drawn history,g.expires) else (0,0) :=
  (h.entered g hg).allowanceAt e

/-- The readable allowance is what the history leaves. -/
theorem Recorded.allowanceAt (h : Recorded s key history) (e : Env Address W) :
    (s.allowanceAt e key.from_ key.spender).1 = left history e.sequence := by
  unfold left
  cases hlast : lastGrant history with
  | none => rw [Storage.allowanceAt_of_lookup_eq_none (h.absent hlast)]
  | some g =>
    rw [h.allowanceAt_of_lastGrant hlast]
    dsimp only
    split <;> rfl

/-- A step keeps the entry in line with the history. -/
theorem Authority.recorded (h : Authority w l w') (hne : key.from_ ≠ key.spender)
    (hrec : Recorded w.storage key (acts key ls)) :
    Recorded w'.storage key (acts key (ls ++ [l])) := by
  cases h with
  | @grant k amount expirationLedger hdealing hentered hothers =>
    by_cases hk : k = key
    · subst hk
      rw [acts_snoc_of_dealing hdealing]
      refine ⟨hrec.kept.grant _,by simp,?_⟩
      intro g hg
      rw [lastGrant_grant] at hg
      cases hg
      rw [drawn_grant,sub_zero]
      exact hentered
    · rw [acts_snoc_of_ne hdealing hk]
      exact hrec.congr (hothers key (Ne.symm hk))
  | @draw k n hpos hdealing hauths hdraws hfalls =>
    by_cases hk : k = key
    · subst hk
      rw [acts_snoc_of_dealing hdealing]
      have hcovered : n ≤ left (acts k ls) l.env.sequence := by
        rw [← hrec.allowanceAt]
        exact (hdraws.covers hne).enough
      obtain ⟨g,hg,hexp,-⟩ := grant_of_covered hpos hcovered
      refine ⟨hrec.kept.draw hpos hcovered,?_,?_⟩
      · intro hnone
        rw [lastGrant_draw,hg] at hnone
        cases hnone
      · intro g' hg'
        rw [lastGrant_draw] at hg'
        cases hg.symm.trans hg'
        have hentered := hdraws.entered hne
        rw [hrec.allowanceAt_of_lastGrant hg,if_pos hexp] at hentered
        have hleft : g.amount-drawn (acts k ls ++ [.draw l.env.sequence n]) =
            g.amount-drawn (acts k ls)-n := by
          rw [drawn_draw]
          omega
        rw [hleft]
        exact hentered
    · rw [acts_snoc_of_ne hdealing hk]
      exact hrec.congr (hdraws.others key (Ne.symm hk))
  | none hdealing hsame =>
    rw [acts_snoc_of_none hdealing]
    exact hrec.congr (by rw [hsame])

theorem Deployed.recorded (h : Deployed w) (key : AllowanceKey Address) :
    Recorded w.storage key [] := by
  obtain ⟨e,admin,pool,asset,blndToken,found,auths,-,hreturns⟩ := h.created
  obtain ⟨r,-,-,hg⟩ := EntryPoints.returns_constructor.mp hreturns
  have hallowances : w.storage.allowances = ∅ := congrArg (·.storage.allowances) hg
  refine ⟨.nil,?_,?_⟩
  · intro _
    rw [hallowances]
    rfl
  · intro g hg
    cases hg

/-- Whose balance falls has signed, or had let the spender who did take at least as much. -/
theorem Authority.falls (h : Authority w l w') {owner : Address}
    (hfall : w'.storage.sharesOf owner < w.storage.sharesOf owner) :
    owner ∈ l.auths ∨ ∃ spender n, owner ≠ spender ∧ l.auths = [spender] ∧
      l.dealing = some (⟨owner,spender⟩,.draw l.env.sequence n) ∧
      l.env.sequence ≤ (w.storage.allowanceAt l.env owner spender).2 ∧
      w.storage.sharesOf owner-w'.storage.sharesOf owner ≤ n ∧
      (w'.storage.allowanceAt l.env owner spender).1 =
        (w.storage.allowanceAt l.env owner spender).1-n := by
  cases h with
  | grant _ _ _ hshares =>
    rw [Storage.sharesOf,Storage.sharesOf,hshares] at hfall
    exact absurd hfall (lt_irrefl _)
  | @draw k n hpos hdealing hauths hdraws hfalls =>
    obtain ⟨from_,spender⟩ := k
    have hle := hfalls owner
    by_cases hk : owner = from_
    · subst hk
      rw [if_pos rfl] at hle
      by_cases hne : owner = spender
      · left
        rw [hauths,hne]
        exact List.mem_singleton_self _
      · right
        obtain ⟨hexp,hdrop⟩ := hdraws.drop hpos hne
        exact ⟨spender,n,hne,hauths,hdealing,hexp,by omega,hdrop⟩
    · rw [if_neg hk] at hle
      omega
  | none _ _ hsigned => exact .inl (hsigned owner hfall)

variable [FixedPoint]

theorem Reaches.recorded (h : Reaches ls w) (key : AllowanceKey Address)
    (hne : key.from_ ≠ key.spender) : Recorded w.storage key (acts key ls) := by
  obtain ⟨w₀,hdeployed,hrun⟩ := h
  exact hrun.history (fun ls w => Recorded w.storage key (acts key ls)) (hdeployed.recorded key)
    fun _ _ _ _ hstep hrec => hstep.authority.recorded hne hrec

/-- An allowance always reads as what is left of the last approval, no more than that is ever
drawn, nothing after it expired; and nobody's balance falls on any other authority. -/
theorem delegation_accounted {owner spender : Address} (h : Reaches ls w)
    (hne : owner ≠ spender) :
    (∀ (e : Env Address W) ext, Returns (EntryPoints.allowance e owner spender) (.fresh w.storage ext)
      (left (acts ⟨owner,spender⟩ ls) e.sequence) (.fresh w.storage ext)) ∧
    (∀ g, lastGrant (acts ⟨owner,spender⟩ ls) = some g →
      drawn (acts ⟨owner,spender⟩ ls) ≤ max 0 g.amount ∧
        ∀ t n, .draw t n ∈ since (acts ⟨owner,spender⟩ ls) → t ≤ g.expires) ∧
    (lastGrant (acts ⟨owner,spender⟩ ls) = none → since (acts ⟨owner,spender⟩ ls) = []) ∧
    ∀ l w' a, Step w l w' → w'.storage.sharesOf a < w.storage.sharesOf a →
      a ∈ l.auths ∨ ∃ spender n, a ≠ spender ∧ l.auths = [spender] ∧
        l.dealing = some (⟨a,spender⟩,.draw l.env.sequence n) ∧
        l.env.sequence ≤ (w.storage.allowanceAt l.env a spender).2 ∧
        w.storage.sharesOf a-w'.storage.sharesOf a ≤ n ∧
        (w'.storage.allowanceAt l.env a spender).1 =
          (w.storage.allowanceAt l.env a spender).1-n := by
  have hrec := h.recorded ⟨owner,spender⟩ hne
  refine ⟨?_,?_,hrec.kept.since_eq_nil,fun l w' a hstep => hstep.authority.falls⟩
  · intro e ext
    exact EntryPoints.returns_allowance.mpr ⟨(hrec.allowanceAt e).symm,rfl⟩
  · intro g hg
    exact ⟨hrec.kept.drawn_le hg,hrec.kept.unexpired hg⟩

end History

section Sample
attribute [local instance] FixedPoint.documented

/-- A second approval with an earlier expiration replaces what two draws had left of the first;
the entry is still stored once it has expired, and reads as zero. -/
theorem delegation_accounted_sample : ∃ (ls : List (Label ℕ ℤ)) (w : World ℕ ℤ),
    ls.map Label.call = [.deposit 100 7 7 7,.approve 7 8 50 10,.transferFrom 8 7 9 5,
      .withdraw 10 8 7 8,.approve 7 8 30 6,.redeem 12 8 7 8] ∧
    ∀ (e : Env ℕ ℤ) ext, Returns (EntryPoints.allowance e 7 8) (.fresh w.storage ext)
      (if e.sequence ≤ 6 then 18 else 0) (.fresh w.storage ext) := by
  obtain ⟨ls,w,hreaches,hq⟩ := exists_reaches (referenceEnv scalar12 0 0) 1 2 3 4 0
    (referenceCalls [((scalar12,0,1),.deposit 100 7 7 7),((scalar12,0,2),.approve 7 8 50 10),
      ((scalar12,0,3),.transferFrom 8 7 9 5),((scalar12,0,4),.withdraw 10 8 7 8),
      ((scalar12,0,5),.approve 7 8 30 6),((scalar12,0,6),.redeem 12 8 7 8)])
    (fun ls _ => ls.map Label.call = [.deposit 100 7 7 7,.approve 7 8 50 10,.transferFrom 8 7 9 5,
        .withdraw 10 8 7 8,.approve 7 8 30 6,.redeem 12 8 7 8] ∧
      acts ⟨7,8⟩ ls = [.grant ⟨50,10⟩,.draw 3 5,.draw 4 10,.grant ⟨30,6⟩,.draw 6 12])
    (by decide)
  obtain ⟨hcalls,hacts⟩ := of_decide_eq_true hq
  refine ⟨ls,w,hcalls,?_⟩
  intro e ext
  have hallowance := (delegation_accounted hreaches (show (7 : ℕ) ≠ 8 by decide)).1 e ext
  rw [hacts] at hallowance
  exact hallowance

end Sample
end BlendVault
