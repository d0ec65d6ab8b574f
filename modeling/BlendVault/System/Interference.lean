import BlendVault.System.Bisimulation

/-! The admin decides who may deposit and where emissions are sold. Nothing it sets reaches the
calls by which shares change hands or are cashed in: these come to the same whatever it does in
between. -/
namespace BlendVault
open FailStop

/-- The calls that move shares, let others move them, or cash them in. -/
def Call.isHolders {Address : Type} : Call Address → Bool
  | .withdraw _ _ _ _ => true
  | .redeem _ _ _ _ => true
  | .transfer _ _ _ => true
  | .transferFrom _ _ _ _ => true
  | .approve _ _ _ _ => true
  | _ => false

/-- The calls that change what the admin sets. -/
def Call.isAdmins {Address : Type} : Call Address → Bool
  | .setAdmin _ => true
  | .setSigner _ => true
  | .setRouter _ => true
  | _ => false

section Interference
variable {Address W : Type} [DecidableEq Address]

/-- Whatever the admin has set. -/
def AnyGovernance (_ _ : Governance Address) : Prop := True

/-- The same vault under another administration, and not at a later ledger. -/
structure World.Elsewhere (w w' : World Address W) : Prop where
  storage : w.storage.Mirrors AnyGovernance w'.storage
  sequence : w'.sequence ≤ w.sequence

/-- Replacing what the admin sets on one side. -/
theorem Storage.Mirrors.governed {s s' : Storage Address} (h : s.Mirrors AnyGovernance s')
    (admin signer router : Option Address) :
    ({s with admin, signer, router} : Storage Address).Mirrors AnyGovernance s' := by
  refine ⟨?_,trivial,h.fund,h.grants⟩
  rw [h.frame]

theorem Storage.Kept.mirrors_self {s : Storage Address} (h : s.Kept) :
    s.Mirrors AnyGovernance s := by
  refine ⟨rfl,trivial,rfl,fun key => ?_⟩
  rcases h key with hnone | ⟨a,ha⟩
  · exact .inl ⟨hnone,hnone⟩
  · exact .inr ⟨a,ha,ha⟩

variable [FixedPoint]

/-- Holders' calls never look at what the admin sets. -/
theorem Alike.exec_holders {W' : Type} {G : Governance Address → Governance Address → Prop}
    {Q : W → W' → Prop} {e : Env Address W} {e' : Env Address W'} (h : e.Mirrors Q e')
    {c : Call Address} (hc : c.isHolders = true) :
    Alike G Q (BlendVault.exec e c) (BlendVault.exec e' c) := by
  cases c with
  | withdraw assets receiver owner operator =>
    exact .map (withdraw h assets receiver owner operator) fun _ _ hn => congrArg some hn
  | redeem shares receiver owner operator =>
    exact .map (redeem h shares receiver owner operator) fun _ _ hn => congrArg some hn
  | transfer from_ to_ amount => exact .map (transfer h from_ to_ amount) fun _ _ _ => rfl
  | transferFrom spender from_ to_ amount =>
    exact .map (transferFrom h spender from_ to_ amount) fun _ _ _ => rfl
  | approve from_ spender amount expirationLedger =>
    exact .map (approve h from_ spender amount expirationLedger) fun _ _ _ => rfl
  | deposit _ _ _ _ | claimEmissions _ | setAdmin _ | setSigner _ | setRouter _ => cases hc

variable {w t u : World Address W} {t' : World Address W} {l : Label Address W}
  {ls₀ ls : List (Label Address W)}

/-- A holder's call does the same under the other administration. -/
theorem Step.elsewhere (h : Step t l u) (hc : l.call.isHolders = true) (ht : t.Elsewhere t') :
    ∃ u', Step t' l u' ∧ u.Elsewhere u' := by
  have henv : l.env.Mirrors Eq l.env := l.env.mirrors_evicted _
  have hfresh : Frame.Mirrors AnyGovernance Eq (.fresh t.storage l.found) (.fresh t'.storage l.found) :=
    ⟨ht.storage,rfl,rfl,rfl,rfl⟩
  obtain ⟨a,f,hreturns,hresult,hf⟩ := (Alike.exec_holders henv hc).returns hfresh h.returns
  refine ⟨⟨f.storage,f.ext,l.env.sequence⟩,⟨ht.sequence.trans h.later,rfl,?_⟩,hf.storage,
    h.sequence.ge⟩
  rw [hresult,show l.auths = f.auths from hf.auths,show l.events = f.events from hf.events,
    show l.flows = f.flows from hf.flows]
  exact hreturns

/-- What the admin does changes only the administration. -/
theorem Step.administers (h : Step t l u) (hc : l.call.isAdmins = true) (ht : t.Elsewhere t') :
    u.Elsewhere t' := by
  have hlater : t'.sequence ≤ u.sequence := by
    rw [h.sequence]
    exact ht.sequence.trans h.later
  refine ⟨?_,hlater⟩
  cases h.outcome with
  | setAdmin => exact ht.storage.governed _ _ _
  | setSigner => exact ht.storage.governed _ _ _
  | setRouter => exact ht.storage.governed _ _ _
  | _ => cases hc

/-- The admin can neither prevent an exit or a transfer nor change what comes of it: strike its
calls from a history, and what the holders did is a history with the same results; and whatever a
holder tries after either of the two ends alike. -/
theorem admin_cannot_interfere (hreach : Reaches ls₀ w) (hrun : Run Step w ls t)
    (hcalls : ∀ l ∈ ls, l.call.isHolders = true ∨ l.call.isAdmins = true) :
    ∃ t', Run Step w (ls.filter fun l => l.call.isHolders) t' ∧
      ∀ (e : Env Address W) (c : Call Address) (x : W), c.isHolders = true →
        value (exec e c) (.fresh t.storage x) = value (exec e c) (.fresh t'.storage x) ∧
        failure (exec e c) (.fresh t.storage x) = failure (exec e c) (.fresh t'.storage x) := by
  have hrun' := hrun.with_labels hcalls
  have hkept : ∃ t', Run Step w (ls.filter fun l => l.call.isHolders) t' ∧ t.Elsewhere t' := by
    refine hrun'.history (fun ls t => ∃ t', Run Step w (ls.filter fun l => l.call.isHolders) t' ∧
      t.Elsewhere t') ⟨w,.nil,hreach.kept.mirrors_self,le_rfl⟩ ?_
    rintro ls t l u ⟨hstep,hcall⟩ ⟨t',hrun,ht⟩
    rw [List.filter_append,List.filter_singleton]
    cases hc : l.call.isHolders with
    | true =>
      obtain ⟨u',hstep',hu⟩ := hstep.elsewhere hc ht
      exact ⟨u',.snoc hrun hstep',hu⟩
    | false =>
      rw [cond_false,List.append_nil]
      exact ⟨t',hrun,hstep.administers (hcall.resolve_left (by simp [hc])) ht⟩
  obtain ⟨t',hrun',ht⟩ := hkept
  refine ⟨t',hrun',?_⟩
  intro e c x hc
  have hfresh : Frame.Mirrors AnyGovernance Eq (.fresh t.storage x) (.fresh t'.storage x) :=
    ⟨ht.storage,rfl,rfl,rfl,rfl⟩
  exact (Alike.exec_holders (e.mirrors_evicted _) hc).observed hfresh

end Interference

section Sample
attribute [local instance] FixedPoint.documented

/-- Between a transfer and a redemption the admin hands over, appoints a signer and changes the
router. -/
theorem admin_cannot_interfere_sample : ∃ (w : World ℕ ℤ) (ls : List (Label ℕ ℤ)) (t' : World ℕ ℤ),
    ls.map Label.call = [.transfer 7 8 40,.setAdmin 9,.setSigner (some 6),.setRouter 4,
      .redeem 30 8 8 8] ∧
      Run Step w (ls.filter fun l => l.call.isHolders) t' := by
  obtain ⟨ls₀,w,hreaches,hq⟩ := exists_reaches (referenceEnv scalar12 0 0) 1 2 3 4 0
    (referenceCalls [((scalar12,0,1),.deposit 100 7 7 7)])
    (fun _ w => (replay w (referenceCalls [((scalar12,0,2),.transfer 7 8 40),
      ((scalar12,0,2),.setAdmin 9),((scalar12,0,3),.setSigner (some 6)),
      ((scalar12,0,3),.setRouter 4),((scalar12,0,4),.redeem 30 8 8 8)])).any
      (fun p => p.1.map Label.call = [.transfer 7 8 40,.setAdmin 9,.setSigner (some 6),
        .setRouter 4,.redeem 30 8 8 8])) (by decide)
  obtain ⟨⟨ls,t⟩,hreplay,hcalls⟩ := (Option.any_eq_true _ _).mp hq
  have hcalls := of_decide_eq_true hcalls
  have hrun : Run Step w ls t := (replay_run hreplay).mono fun _ _ _ h => h.1
  have hkinds : ∀ l ∈ ls, l.call.isHolders = true ∨ l.call.isAdmins = true := by
    intro l hl
    have hmem : l.call ∈ ls.map Label.call := List.mem_map_of_mem hl
    rw [hcalls] at hmem
    simp only [List.mem_cons,List.not_mem_nil,or_false] at hmem
    rcases hmem with h | h | h | h | h <;> rw [h] <;> decide
  obtain ⟨t',hrun',-⟩ := admin_cannot_interfere hreaches hrun hkinds
  exact ⟨w,ls,t',hcalls,hrun'⟩

end Sample
end BlendVault
