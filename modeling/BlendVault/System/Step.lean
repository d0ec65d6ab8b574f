import BlendVault.Contract.Outcomes
import BlendVault.Contract.Pricing
import BlendVault.Foundations.Run

/-! The deployed vault as a transition system. A step is one successful call; a failed call
is rolled back by the host and leaves no trace. Between two calls anything may happen outside
the vault, so each call finds an outside state and an environment of its own. -/
namespace BlendVault
open FailStop

/-- The calls that may change the contract's storage. -/
inductive Call (Address : Type)
  | deposit (assets : ℤ) (receiver from_ operator : Address)
  | withdraw (assets : ℤ) (receiver owner operator : Address)
  | redeem (shares : ℤ) (receiver owner operator : Address)
  | transfer (from_ to_ : Address) (amount : ℤ)
  | transferFrom (spender from_ to_ : Address) (amount : ℤ)
  | approve (from_ spender : Address) (amount : ℤ) (expirationLedger : ℕ)
  | claimEmissions (amountOutMin : ℤ)
  | setAdmin (admin : Address)
  | setSigner (signer : Option Address)
  | setRouter (router : Address)
  deriving Repr, DecidableEq

/-- What the vault owns, the world outside it, and the ledger of the last call. -/
structure World (Address W : Type) where
  storage : Storage Address
  outside : W
  sequence : ℕ

/-- One successful call: where it ran, what it found outside, and what came of it. -/
structure Label (Address W : Type) where
  env : Env Address W
  call : Call Address
  found : W
  result : Option ℤ
  auths : List Address
  events : List (Event Address)
  flows : List (Flow Address)

section Exec
variable {Address W : Type} [DecidableEq Address] [FixedPoint]

/-- Run a call; entry points without a return value return nothing. -/
def exec (e : Env Address W) : Call Address → Contract Address W (Option ℤ)
  | .deposit assets receiver from_ operator =>
    some <$> EntryPoints.deposit e assets receiver from_ operator
  | .withdraw assets receiver owner operator =>
    some <$> EntryPoints.withdraw e assets receiver owner operator
  | .redeem shares receiver owner operator =>
    some <$> EntryPoints.redeem e shares receiver owner operator
  | .transfer from_ to_ amount => (fun _ => none) <$> EntryPoints.transfer e from_ to_ amount
  | .transferFrom spender from_ to_ amount =>
    (fun _ => none) <$> EntryPoints.transferFrom e spender from_ to_ amount
  | .approve from_ spender amount expirationLedger =>
    (fun _ => none) <$> EntryPoints.approve e from_ spender amount expirationLedger
  | .claimEmissions amountOutMin => some <$> EntryPoints.claimEmissions e amountOutMin
  | .setAdmin admin => (fun _ => none) <$> EntryPoints.setAdmin e admin
  | .setSigner signer => (fun _ => none) <$> EntryPoints.setSigner e signer
  | .setRouter router => (fun _ => none) <$> EntryPoints.setRouter e router

/-- The frame a call starts in. -/
def Frame.fresh (storage : Storage Address) (ext : W) : Frame Address W := {storage, ext}

/-- Ledgers are closed one after another, and a call runs to completion in one of them. -/
structure Step (w : World Address W) (l : Label Address W) (w' : World Address W) : Prop where
  later : w.sequence ≤ l.env.sequence
  sequence : w'.sequence = l.env.sequence
  returns : Returns (exec l.env l.call) (.fresh w.storage l.found) l.result
    ⟨w'.storage,w'.outside,l.auths,l.events,l.flows⟩

/-- The world right after the constructor has returned. -/
structure Deployed (w : World Address W) : Prop where
  created : ∃ (e : Env Address W) (admin pool asset blndToken : Address) (found : W)
    (auths : List Address), e.sequence = w.sequence ∧
    Returns (EntryPoints.constructor e admin pool asset blndToken) (.fresh {} found) ()
      ⟨w.storage,w.outside,auths,[],[]⟩

/-- `Reaches ls w`: the calls `ls`, made one after another on a deployed vault, lead to `w`. -/
def Reaches (ls : List (Label Address W)) (w : World Address W) : Prop :=
  ∃ w₀, Deployed w₀ ∧ Run Step w₀ ls w

/-- Make one call, finding the outside as the last one left it. -/
def attempt (w : World Address W) (e : Env Address W) (c : Call Address) :
    Option (Label Address W × World Address W) :=
  if w.sequence ≤ e.sequence then
    match exec e c (.fresh w.storage w.outside) with
    | .ok (result,f) =>
      some (⟨e,c,w.outside,result,f.auths,f.events,f.flows⟩,⟨f.storage,f.ext,e.sequence⟩)
    | .error _ => none
  else none

/-- Make a list of calls, each in its own environment, as long as they succeed. -/
def replay (w : World Address W) :
    List (Env Address W × Call Address) → Option (List (Label Address W) × World Address W)
  | [] => some ([],w)
  | (e,c) :: rest => do
    let (l,t) ← attempt w e c
    let (ls,w') ← replay t rest
    return (l :: ls,w')

/-- The world right after the constructor, if it returns. -/
def deploy (e : Env Address W) (admin pool asset blndToken : Address) (found : W) :
    Option (World Address W) :=
  match EntryPoints.constructor e admin pool asset blndToken (.fresh {} found) with
  | .ok ((),f) => some ⟨f.storage,f.ext,e.sequence⟩
  | .error _ => none

omit [FixedPoint] in
theorem deploy_deployed {e : Env Address W} {admin pool asset blndToken : Address} {found : W}
    {w : World Address W} (h : deploy e admin pool asset blndToken found = some w) :
    Deployed w := by
  unfold deploy at h
  split at h
  · rename_i f hf
    cases h
    obtain ⟨r,-,-,rfl⟩ := EntryPoints.returns_constructor.mp hf
    exact ⟨e,admin,pool,asset,blndToken,found,[admin],rfl,hf⟩
  · cases h

theorem attempt_eq_some {w w' : World Address W} {e : Env Address W} {c : Call Address}
    {l : Label Address W} :
    attempt w e c = some (l,w') ↔ Step w l w' ∧ l.env = e ∧ l.call = c ∧ l.found = w.outside := by
  unfold attempt
  by_cases hlater : w.sequence ≤ e.sequence
  · rw [if_pos hlater]
    cases hexec : exec e c (.fresh w.storage w.outside) with
    | ok p =>
      obtain ⟨result,f⟩ := p
      dsimp only
      constructor
      · intro h
        cases h
        exact ⟨⟨hlater,rfl,hexec⟩,rfl,rfl,rfl⟩
      · intro h
        obtain ⟨hstep,rfl,rfl,hfound⟩ := h
        obtain ⟨hr,hf⟩ := Returns.unique (show Returns _ _ _ _ from hexec)
          (hfound ▸ hstep.returns)
        obtain ⟨s,outside,sequence⟩ := w'
        cases hr
        cases hf
        cases hstep.sequence
        rw [← hfound]
    | error err =>
      dsimp only
      constructor
      · intro h; cases h
      · intro h
        obtain ⟨hstep,rfl,rfl,hfound⟩ := h
        have hreturns := hstep.returns
        rw [hfound,Returns,hexec] at hreturns
        cases hreturns
  · rw [if_neg hlater]
    constructor
    · intro h; cases h
    · intro h
      obtain ⟨hstep,rfl,-,-⟩ := h
      exact absurd hstep.later hlater

/-- What is replayed is a run, and each of its steps finds what the one before it left. -/
theorem replay_run {w w' : World Address W} {cs : List (Env Address W × Call Address)}
    {ls : List (Label Address W)} (h : replay w cs = some (ls,w')) :
    Run (fun t l u => Step t l u ∧ l.found = t.outside ∧ (l.env,l.call) ∈ cs) w ls w' := by
  induction cs generalizing w ls with
  | nil =>
    cases h
    exact .nil
  | cons c rest ih =>
    obtain ⟨e,c⟩ := c
    obtain ⟨⟨l,t⟩,hfirst,hrest⟩ := Option.bind_eq_some_iff.mp h
    obtain ⟨⟨ls',w''⟩,hreplay,hcons⟩ := Option.bind_eq_some_iff.mp hrest
    cases hcons
    obtain ⟨hstep,rfl,rfl,hfound⟩ := attempt_eq_some.mp hfirst
    refine Run.cons ⟨hstep,hfound,List.mem_cons_self⟩ ((ih hreplay).mono ?_)
    intro t l u h
    obtain ⟨hstep,hfound,hmem⟩ := h
    exact ⟨hstep,hfound,List.mem_cons_of_mem _ hmem⟩

/-- Deploy the vault and make the calls. -/
def simulate (e : Env Address W) (admin pool asset blndToken : Address) (found : W)
    (cs : List (Env Address W × Call Address)) :
    Option (List (Label Address W) × World Address W) :=
  (deploy e admin pool asset blndToken found).bind (replay · cs)

/-- Calls that are computed make a run of any step relation their steps belong to. -/
theorem exists_run {e : Env Address W} {admin pool asset blndToken : Address} {found : W}
    {cs : List (Env Address W × Call Address)}
    {step : World Address W → Label Address W → World Address W → Prop}
    (hstep : ∀ t l u, Step t l u → l.found = t.outside → (l.env,l.call) ∈ cs → step t l u)
    (q : List (Label Address W) → World Address W → Bool)
    (h : (simulate e admin pool asset blndToken found cs).any (fun p => q p.1 p.2) = true) :
    ∃ w₀ ls w, deploy e admin pool asset blndToken found = some w₀ ∧ Run step w₀ ls w ∧
      q ls w = true := by
  obtain ⟨⟨ls,w⟩,hsim,hq⟩ := (Option.any_eq_true _ _).mp h
  obtain ⟨w₀,hdeploy,hreplay⟩ := Option.bind_eq_some_iff.mp hsim
  refine ⟨w₀,ls,w,hdeploy,(replay_run hreplay).mono ?_,hq⟩
  intro t l u h
  obtain ⟨hs,hfound,hmem⟩ := h
  exact hstep t l u hs hfound hmem

/-- A world that is computed is reached, with whatever can be computed of it. -/
theorem exists_reaches (e : Env Address W) (admin pool asset blndToken : Address) (found : W)
    (cs : List (Env Address W × Call Address)) (q : List (Label Address W) → World Address W → Bool)
    (h : (simulate e admin pool asset blndToken found cs).any (fun p => q p.1 p.2) = true) :
    ∃ ls w, Reaches ls w ∧ q ls w = true := by
  obtain ⟨w₀,ls,w,hdeploy,hrun,hq⟩ := exists_run (fun _ _ _ hs _ _ => hs) q h
  exact ⟨ls,w,⟨w₀,deploy_deployed hdeploy,hrun⟩,hq⟩

/-- A call that is computed is a step, with whatever can be computed of it. -/
theorem exists_step (w : World Address W) (e : Env Address W) (c : Call Address)
    (q : Label Address W → World Address W → Bool)
    (h : (attempt w e c).any (fun p => q p.1 p.2) = true) :
    ∃ l w', Step w l w' ∧ l.env = e ∧ l.call = c ∧ l.found = w.outside ∧ q l w' = true := by
  obtain ⟨⟨l,w'⟩,hattempt,hq⟩ := (Option.any_eq_true _ _).mp h
  obtain ⟨hstep,henv,hcall,hfound⟩ := attempt_eq_some.mp hattempt
  exact ⟨l,w',hstep,henv,hcall,hfound,hq⟩

end Exec
end BlendVault
