import BlendVault.Foundations.Token
import BlendVault.System.Allowances
import BlendVault.System.Errors

/-! The shares as a token. Seen through balances and allowances the vault is a token that mints and
burns, whatever happens to the bTokens behind it: every call is one of the token's operations or
none, and a transfer goes through exactly when the token allows it. -/
namespace BlendVault
open FailStop Delegation

section Calls
variable {Address W : Type} [DecidableEq Address]

/-- The owner burns freely, anybody else on a grant. -/
def burnOp (owner operator : Address) (n : ℤ) : Token.Op Address ℕ :=
  if owner = operator then .burn owner n else .burnFrom operator owner n

/-- What a call is to the token. -/
def Label.op (l : Label Address W) : Option (Token.Op Address ℕ) :=
  match l.call with
  | .deposit _ receiver _ _ => l.result.map (.mint receiver)
  | .withdraw _ _ owner operator => l.result.map (burnOp owner operator)
  | .redeem shares _ owner operator => some (burnOp owner operator shares)
  | .transfer from_ to_ amount => some (.transfer from_ to_ amount)
  | .transferFrom spender from_ to_ amount => some (.transferFrom spender from_ to_ amount)
  | .approve from_ spender amount expirationLedger =>
    some (.approve from_ spender ⟨amount,expirationLedger⟩)
  | _ => none

/-- The operations of the calls, each with its ledger. -/
def tokenOps (ls : List (Label Address W)) : List (ℕ × Token.Op Address ℕ) :=
  ls.filterMap fun l => l.op.map fun op => (l.env.sequence,op)

@[simp] theorem tokenOps_concat (ls : List (Label Address W)) (l : Label Address W) :
    tokenOps (ls ++ [l]) =
      tokenOps ls ++ (l.op.map fun op => (l.env.sequence,op)).toList := by
  cases hop : l.op <;> simp [tokenOps,hop]

end Calls

section Storage
variable {Address W : Type} [DecidableEq Address]

/-- The balances and allowances in storage are those of the token. -/
structure Storage.Tallies (s : Storage Address) (t : Token.State Address ℕ) : Prop where
  balance : ∀ a, s.sharesOf a = t.balance a
  absent : ∀ key : AllowanceKey Address, t.grant key.from_ key.spender = none →
    s.allowances.lookup key = none
  entered : ∀ (key : AllowanceKey Address) g, t.grant key.from_ key.spender = some g →
    s.Entered key ⟨g.amount,g.expires⟩

namespace Storage.Tallies
variable {s s' : Storage Address} {t : Token.State Address ℕ} {e : Env Address W}
  {from_ to_ spender : Address} {n : ℤ}

theorem congr (h : s.Tallies t) (hshares : s'.shares = s.shares)
    (hallowances : s'.allowances = s.allowances) : s'.Tallies t := by
  refine ⟨fun a => ?_,fun key hg => ?_,fun key g hg => ?_⟩
  · rw [Storage.sharesOf,hshares]
    exact h.balance a
  · rw [hallowances]
    exact h.absent key hg
  · exact (h.entered key g hg).congr (by rw [hallowances])

theorem allowanceAt (h : s.Tallies t) (e : Env Address W) (from_ spender : Address) :
    (s.allowanceAt e from_ spender).1 = t.allowed from_ spender e.sequence := by
  unfold Token.State.allowed
  cases hg : t.grant from_ spender with
  | none => rw [Storage.allowanceAt_of_lookup_eq_none (h.absent ⟨from_,spender⟩ hg) e]
  | some g =>
    rw [(h.entered ⟨from_,spender⟩ g hg).allowanceAt e]
    dsimp only
    split <;> rfl

/-- A balance that is written anew. -/
theorem add (h : s.Tallies t) (v : VaultData) (user : Address) (n : ℤ) :
    (s.settled v user (s.sharesOf user+n)).Tallies (t.add user n) := by
  refine ⟨fun a => ?_,h.absent,h.entered⟩
  rw [Storage.sharesOf_settled,h.balance user,h.balance a]
  rfl

/-- A transfer between two accounts. -/
theorem moved (h : s.Tallies t) (hne : from_ ≠ to_) (n : ℤ) :
    (s.moved from_ to_ n).Tallies ((t.add from_ (-n)).add to_ n) := by
  refine ⟨fun a => ?_,h.absent,h.entered⟩
  rw [Storage.sharesOf_moved,h.balance,h.balance,h.balance]
  simp only [Token.State.add,if_neg hne.symm,sub_eq_add_neg]

/-- A grant that is written anew. -/
theorem permit (h : s.Tallies t) (e : Env Address W) (from_ spender : Address) (amount : ℤ)
    (expirationLedger : ℕ) :
    (s.withAllowance e from_ spender amount expirationLedger).Tallies
      (t.permit from_ spender ⟨amount,expirationLedger⟩) := by
  refine ⟨h.balance,fun key hg => ?_,fun key g hg => ?_⟩
  · by_cases hkey : key.from_ = from_ ∧ key.spender = spender
    · rw [Token.State.permit_grant,if_pos hkey] at hg
      cases hg
    · have hne : key ≠ ⟨from_,spender⟩ := fun heq => hkey (by rw [heq]; exact ⟨rfl,rfl⟩)
      rw [Token.State.permit_grant,if_neg hkey] at hg
      exact (Storage.lookup_withAllowance_of_ne hne _ _).trans (h.absent key hg)
  · by_cases hkey : key.from_ = from_ ∧ key.spender = spender
    · obtain ⟨rfl,rfl⟩ := hkey
      rw [Token.State.permit_grant,if_pos ⟨rfl,rfl⟩] at hg
      cases hg
      exact Storage.entered_withAllowance s e key _ _
    · have hne : key ≠ ⟨from_,spender⟩ := fun heq => hkey (by rw [heq]; exact ⟨rfl,rfl⟩)
      rw [Token.State.permit_grant,if_neg hkey] at hg
      exact (h.entered key g hg).congr (Storage.lookup_withAllowance_of_ne hne _ _)

/-- A draw on a grant that covers it. -/
theorem spent (h : s.Tallies t) (hpos : 0 < n) (hcovers : s.Covers e from_ spender n) :
    (s.spent e from_ spender n).Tallies (t.spend from_ spender n) := by
  have henough := hcovers.enough
  rw [h.allowanceAt] at henough
  obtain ⟨g,hg,hnow,-⟩ := Token.State.grant_of_allowed hpos henough
  have hread := (h.entered ⟨from_,spender⟩ g hg).allowanceAt e
  rw [if_pos hnow] at hread
  rw [Token.State.spend_eq_permit hg,Storage.spent,hread]
  exact h.permit e from_ spender (g.amount-n) g.expires

end Storage.Tallies
end Storage

section Steps
variable {Address W : Type} [DecidableEq Address] [FixedPoint] {w w' w₀ : World Address W}
  {l : Label Address W} {ls : List (Label Address W)} {t : Token.State Address ℕ}
  {s : Storage Address} {owner operator : Address} {n : ℤ} {e : Env Address W}

omit [FixedPoint] in
/-- Shares are burnt as the token burns them. -/
theorem Storage.Tallies.burn {s' : Storage Address} (h : s.Tallies t) (hpos : 0 < n)
    (henough : n ≤ s.sharesOf owner) (hdelegates : s.Delegates e owner operator n s')
    (v : VaultData) : ∃ t', t.apply e.sequence (burnOp owner operator n) = some t' ∧
      (s'.settled v owner (s.sharesOf owner-n)).Tallies t' := by
  have hholds : t.Holds owner n := ⟨hpos,h.balance owner ▸ henough⟩
  cases hdelegates with
  | self same =>
    refine ⟨t.add owner (-n),?_,h.add v owner (-n)⟩
    rw [burnOp,if_pos same]
    exact if_pos hholds
  | allowance other covers =>
    have hspent := h.spent hpos covers
    have hallowed := covers.enough
    rw [h.allowanceAt] at hallowed
    refine ⟨(t.spend owner operator n).add owner (-n),?_,hspent.add v owner (-n)⟩
    rw [burnOp,if_neg other]
    exact if_pos ⟨hholds,hallowed⟩

/-- Every call but a transfer to oneself is one of the token's operations, or none. -/
theorem Step.token (h : Step w l w') (hapart : ¬ l.call.SelfTransfer) (ht : w.storage.Tallies t) :
    l.op = none ∧ w'.storage.Tallies t ∨ ∃ op t', l.op = some op ∧
      t.apply l.env.sequence op = some t' ∧ w'.storage.Tallies t' := by
  cases h.outcome with
  | deposit _ _ _ _ _ mints => exact .inr ⟨_,_,rfl,if_pos mints.shares_pos,ht.add _ _ _⟩
  | withdraw _ _ _ _ out _ delegates _ =>
    obtain ⟨t',happly,ht'⟩ := ht.burn out.shares_pos.1 out.shares_pos.2 delegates _
    exact .inr ⟨_,t',rfl,happly,ht'⟩
  | redeem _ shares_pos _ _ enough _ _ _ delegates _ =>
    obtain ⟨t',happly,ht'⟩ := ht.burn shares_pos enough delegates _
    exact .inr ⟨_,t',rfl,happly,ht'⟩
  | @transfer e found from_ to_ amount _ moves =>
    refine .inr ⟨_,_,rfl,?_,ht.moved hapart amount⟩
    exact if_pos ⟨moves.amount_pos,ht.balance from_ ▸ moves.enough⟩
  | @transferFrom e found spender from_ to_ amount _ covers moves =>
    have hallowed := covers.enough
    rw [ht.allowanceAt] at hallowed
    refine .inr ⟨_,_,rfl,?_,(ht.spent moves.amount_pos covers).moved hapart amount⟩
    exact if_pos ⟨⟨moves.amount_pos,ht.balance from_ ▸ moves.enough⟩,hallowed⟩
  | approve => exact .inr ⟨_,_,rfl,rfl,ht.permit _ _ _ _ _⟩
  | _ => exact .inl ⟨rfl,ht.congr rfl rfl⟩

omit [FixedPoint] in
theorem Deployed.tallies (h : Deployed w) : w.storage.Tallies .blank := by
  refine ⟨h.sharesOf,fun key _ => ?_,fun _ _ hg => ?_⟩
  · exact (h.recorded key).absent rfl
  · cases hg

/-- The amount a call approves is one the contract can be called with. -/
def Call.ApprovesI128 : Call Address → Prop
  | .approve _ _ amount _ => InI128 amount
  | _ => True

/-- What is granted is no more than `i128` holds. -/
def GrantsFit (t : Token.State Address ℕ) : Prop :=
  ∀ f p g, t.grant f p = some g → g.amount ≤ i128Max

omit [FixedPoint] in
theorem GrantsFit.apply {t' : Token.State Address ℕ} {op : Token.Op Address ℕ} {now : ℕ}
    (h : GrantsFit t) (hl : l.call.ApprovesI128) (hop : l.op = some op)
    (happly : t.apply now op = some t') : GrantsFit t' := by
  refine Token.State.grant_le_of_apply happly h ?_
  rintro f p g rfl
  obtain ⟨e,call,found,result,auths,events,flows⟩ := l
  cases call with
  | approve from_ spender amount expirationLedger =>
    cases hop
    exact hl.2
  | withdraw _ _ owner operator =>
    cases result with
    | none => cases hop
    | some n =>
      by_cases hsame : owner = operator <;> simp [Label.op,burnOp,hsame] at hop
  | redeem _ _ owner operator =>
    by_cases hsame : owner = operator <;> simp [Label.op,burnOp,hsame] at hop
  | deposit =>
    cases result <;> cases hop
  | _ => cases hop

/-- A run is the token's own. -/
theorem token_of_run (h₀ : Deployed w₀) (hrun : Run FairStep w₀ ls w)
    (hargs : ∀ l ∈ ls, l.call.ApprovesI128) :
    ∃ t, Token.State.blank.replay (tokenOps ls) = some t ∧ w.storage.Tallies t ∧ GrantsFit t := by
  refine (hrun.with_labels hargs).history (fun ls w => ∃ t,
    Token.State.blank.replay (tokenOps ls) = some t ∧ w.storage.Tallies t ∧ GrantsFit t)
    ⟨_,rfl,h₀.tallies,fun _ _ _ hg => by cases hg⟩ ?_
  rintro ls w l w' ⟨hstep,hl⟩ ⟨t,hreplay,ht,hfit⟩
  rw [tokenOps_concat]
  rcases hstep.sound.step.token hstep.apart ht with ⟨hop,ht'⟩ | ⟨op,t',hop,happly,ht'⟩
  · exact ⟨t,by simpa [hop] using hreplay,ht',hfit⟩
  · exact ⟨t',by simp [hop,hreplay,happly],ht',hfit.apply hl hop happly⟩

omit [FixedPoint] in
/-- Between two accounts nothing overflows. -/
theorem Standing.moves_iff (h : Standing w) (ht : w.storage.Tallies t) {from_ to_ : Address}
    (hne : from_ ≠ to_) : w.storage.Moves from_ to_ n ↔ t.Holds from_ n := by
  constructor
  · intro hmoves
    exact ⟨hmoves.amount_pos,ht.balance from_ ▸ hmoves.enough⟩
  · rintro ⟨hpos,henough⟩
    rw [← ht.balance] at henough
    obtain ⟨hdebit,hcredit⟩ := h.transfer_fits hne hpos.le henough
    exact ⟨hpos,henough,hdebit,hcredit⟩

omit [FixedPoint] in
/-- A grant that lasts covers what the token allows. -/
theorem Storage.Tallies.covers_iff (h : s.Tallies t) (hfit : GrantsFit t) (hpos : 0 < n)
    (from_ spender : Address) : s.Covers e from_ spender n ↔
      n ≤ t.allowed from_ spender e.sequence ∧
        ∀ g, t.grant from_ spender = some g → e.KeepsTo g.expires := by
  constructor
  · intro hcovers
    have henough := hcovers.enough
    rw [h.allowanceAt] at henough
    obtain ⟨g,hg,hnow,-⟩ := Token.State.grant_of_allowed hpos henough
    refine ⟨henough,fun g' hg' => ?_⟩
    cases hg.symm.trans hg'
    have hkeeps := hcovers.keeps
    rwa [(h.entered ⟨from_,spender⟩ g hg).allowanceAt e,if_pos hnow] at hkeeps
  · rintro ⟨henough,hkeeps⟩
    obtain ⟨g,hg,hnow,hle⟩ := Token.State.grant_of_allowed hpos henough
    have hread := (h.entered ⟨from_,spender⟩ g hg).allowanceAt e
    rw [if_pos hnow] at hread
    have hmax := hfit _ _ g hg
    refine ⟨?_,?_,?_⟩
    · rw [hread]
      exact hle
    · rw [hread]
      exact inI128_of_nonneg (by dsimp only; omega) (by dsimp only; omega)
    · rw [hread]
      exact hkeeps g hg

omit [DecidableEq Address] [FixedPoint] in
theorem grants_singleton {a : Address} (h : e.signed a = true) : e.Grants [] [a] :=
  ⟨fun hasked => absurd hasked List.not_mem_nil,h,trivial⟩

/-- The shares are a token. What the calls of any run have done to balances and allowances is what the
token makes of the operations they stand for; the vault answers queries as the token does, and lets a
transfer between two accounts through exactly when the one whose word it takes has signed and the
token allows it, a transfer on an allowance also only as long as the host would keep the entry. -/
theorem shares_are_a_token (h₀ : Deployed w₀) (hrun : Run FairStep w₀ ls w)
    (hargs : ∀ l ∈ ls, l.call.ApprovesI128) :
    ∃ t, Token.State.blank.replay (tokenOps ls) = some t ∧ ∀ (e : Env Address W) (ext : W),
      (∀ a, Returns (EntryPoints.balance a) (.fresh w.storage ext) (t.balance a)
        (.fresh w.storage ext)) ∧
      (∀ from_ spender, Returns (EntryPoints.allowance e from_ spender) (.fresh w.storage ext)
        (t.allowed from_ spender e.sequence) (.fresh w.storage ext)) ∧
      (∀ from_ to_ n, from_ ≠ to_ → ((∃ f, Returns (EntryPoints.transfer e from_ to_ n)
        (.fresh w.storage ext) () f) ↔
          e.signed from_ = true ∧ (t.apply e.sequence (.transfer from_ to_ n)).isSome = true)) ∧
      (∀ spender from_ to_ n, from_ ≠ to_ →
        ((∃ f, Returns (EntryPoints.transferFrom e spender from_ to_ n)
          (.fresh w.storage ext) () f) ↔
          e.signed spender = true ∧
            (t.apply e.sequence (.transferFrom spender from_ to_ n)).isSome = true ∧
            ∀ g, t.grant from_ spender = some g → e.KeepsTo g.expires)) := by
  obtain ⟨t,hreplay,ht,hfit⟩ := token_of_run h₀ hrun hargs
  have hw := standing_of_run h₀ hrun
  refine ⟨t,hreplay,fun e ext => ⟨?_,?_,?_,?_⟩⟩
  · intro a
    exact Storage.returns_getVaultShares.mpr ⟨(ht.balance a).symm,rfl⟩
  · intro from_ spender
    exact EntryPoints.returns_allowance.mpr ⟨(ht.allowanceAt e from_ spender).symm,rfl⟩
  · intro from_ to_ n hne
    rw [Token.State.isSome_apply_transfer,← hw.moves_iff ht hne]
    constructor
    · rintro ⟨f,hreturns⟩
      obtain ⟨⟨-,hsigned,-⟩,hmoves,-⟩ := EntryPoints.returns_transfer.mp hreturns
      exact ⟨hsigned,hmoves⟩
    · rintro ⟨hsigned,hmoves⟩
      exact ⟨_,EntryPoints.returns_transfer.mpr ⟨grants_singleton hsigned,hmoves,rfl⟩⟩
  · intro spender from_ to_ n hne
    rw [Token.State.isSome_apply_transferFrom,← hw.moves_iff ht hne]
    constructor
    · rintro ⟨f,hreturns⟩
      obtain ⟨⟨-,hsigned,-⟩,hcovers,hmoves,-⟩ := EntryPoints.returns_transferFrom.mp hreturns
      obtain ⟨hallowed,hkeeps⟩ := (ht.covers_iff hfit hmoves.amount_pos from_ spender).mp hcovers
      exact ⟨hsigned,⟨hmoves,hallowed⟩,hkeeps⟩
    · rintro ⟨hsigned,⟨hmoves,hallowed⟩,hkeeps⟩
      have hcovers := (ht.covers_iff hfit hmoves.amount_pos from_ spender).mpr ⟨hallowed,hkeeps⟩
      exact ⟨_,EntryPoints.returns_transferFrom.mpr
        ⟨grants_singleton hsigned,hcovers,hmoves,rfl⟩⟩

end Steps

section Sample
attribute [local instance] FixedPoint.documented

/-- Account 8 sends and burns shares of account 7 on a grant of thirty. -/
theorem shares_are_a_token_sample : ∃ (ls : List (Label ℕ ℤ)) (t : Token.State ℕ ℕ),
    ls.map Label.call = [.deposit 100 7 7 7,.approve 7 8 30 9,.transferFrom 8 7 9 12,
      .redeem 10 8 7 8,.transfer 7 9 5] ∧
    Token.State.blank.replay (tokenOps ls) = some t ∧ t.balance 7 = 73 ∧ t.allowed 7 8 5 = 8 := by
  have hfair : ∀ (t : World ℕ ℤ) l u, Step t l u → l.found = t.outside → (l.env,l.call) ∈
      referenceCalls [((scalar12,0,1),.deposit 100 7 7 7),((scalar12,0,2),.approve 7 8 30 9),
        ((1200000000000,0,3),.transferFrom 8 7 9 12),((1300000000000,0,3),.redeem 10 8 7 8),
        ((1300000000000,0,4),.transfer 7 9 5)] → FairStep t l u := by
    intro t l u hstep _ hmem
    have hcall := call_of_referenceCalls (P := fun c => (∀ m, c ≠ .claimEmissions m) ∧
      ¬ c.SelfTransfer) (by simp [Call.SelfTransfer]) hmem
    refine ⟨⟨hstep,rates_of_referenceCalls (by decide) hmem,?_⟩,hcall.2⟩
    intro m _ _ _ _ hclaim
    exact absurd hclaim (hcall.1 m)
  obtain ⟨w₀,ls,w,hdeploy,hrun,hq⟩ := exists_run (e := referenceEnv scalar12 0 0) hfair
    (fun ls w => ls.map Label.call = [.deposit 100 7 7 7,.approve 7 8 30 9,.transferFrom 8 7 9 12,
      .redeem 10 8 7 8,.transfer 7 9 5] ∧ w.storage.sharesOf 7 = 73 ∧
      (w.storage.allowanceAt (referenceEnv scalar12 0 5) 7 8).1 = 8)
    (show (simulate _ 1 2 3 4 0 _).any _ = true by decide)
  obtain ⟨hcalls,hheld,hallowance⟩ := of_decide_eq_true hq
  have hargs : ∀ l ∈ ls, l.call.ApprovesI128 := by
    intro l hl
    have hmem : l.call ∈ ls.map Label.call := List.mem_map_of_mem hl
    rw [hcalls] at hmem
    simp only [List.mem_cons,List.not_mem_nil,or_false] at hmem
    rcases hmem with hc | hc | hc | hc | hc <;> rw [hc]
    · trivial
    · exact inI128_of_nonneg (by decide) (by decide)
    · trivial
    · trivial
    · trivial
  obtain ⟨t,hreplay,hviews⟩ := shares_are_a_token (deploy_deployed hdeploy) hrun hargs
  obtain ⟨hbalance,hallowed,-,-⟩ := hviews (referenceEnv scalar12 0 5) w.outside
  have hbalance := (Storage.returns_getVaultShares.mp (hbalance 7)).1
  have hallowed := (EntryPoints.returns_allowance.mp (hallowed 7 8)).1
  exact ⟨ls,t,hcalls,hreplay,hbalance.trans hheld,hallowed.trans hallowance⟩

end Sample
end BlendVault
