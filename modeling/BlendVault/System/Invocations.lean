import BlendVault.Contract.Summary
import BlendVault.System.ExactPool
import BlendVault.System.Signatures

/-! Asking the same address twice. The comment on `spend_operator_allowance` calls a second
`require_auth` in one frame a host error; whether the host takes it so or finds a second signature
is left open here. A call whose two roles fall to one address asks it twice, and nothing else in
the contract does. -/
namespace BlendVault
open FailStop

section Invocations
variable {Address W : Type}

/-- The entry points that only read. -/
inductive Query (Address : Type)
  | getShares (user : Address)
  | getBTokens (user : Address)
  | convertToAssets (shares : ℤ)
  | getUnderlyingTokens (user : Address)
  | getConfig
  | queryAsset
  | getVault
  | getAdmin
  | getSigner
  | getVaultSummary
  | balance (id : Address)
  | decimals
  | name
  | symbol
  | allowance (from_ spender : Address)

/-- What a read-only entry point answers. -/
inductive Answer (Address : Type)
  | amount (n : ℤ)
  | vault (v : VaultData)
  | config (pool asset : Address)
  | address (a : Address)
  | signer (a : Option Address)
  | summary (s : VaultSummary Address)
  | number (n : ℕ)
  | text (s : String)

/-- Everything the contract can be invoked with. -/
inductive Invocation (Address : Type)
  | constructor (admin pool asset blndToken : Address)
  | call (c : Call Address)
  | query (q : Query Address)

/-- The addresses an invocation asks for their authorization. -/
def Invocation.parties (s : Storage Address) : Invocation Address → List Address
  | .constructor admin _ _ _ => [admin]
  | .call c => c.parties s
  | .query _ => []

/-- The two roles that a call asks fall to two addresses. -/
def Invocation.RolesApart (s : Storage Address) : Invocation Address → Prop
  | .call (.deposit _ _ _ operator) => s.signer ≠ some operator
  | .call (.setAdmin admin) => s.admin ≠ some admin
  | .call (.setSigner (some signer)) => s.admin ≠ some signer
  | _ => True

theorem Invocation.parties_nodup_iff (i : Invocation Address) (s : Storage Address) :
    (i.parties s).Nodup ↔ i.RolesApart s := by
  cases i with
  | constructor admin pool asset blndToken => simp [parties,RolesApart]
  | query q => simp [parties,RolesApart]
  | call c =>
    cases c with
    | deposit assets receiver from_ operator =>
      cases hs : s.signer <;> simp [parties,Call.parties,RolesApart,hs,eq_comm]
    | setAdmin admin => cases hs : s.admin <;> simp [parties,Call.parties,RolesApart,hs]
    | setSigner signer =>
      cases hs : s.admin <;> cases signer <;> simp [parties,Call.parties,RolesApart,hs]
    | setRouter router => cases hs : s.admin <;> simp [parties,Call.parties,RolesApart,hs]
    | _ => simp [parties,Call.parties,RolesApart]

variable [FixedPoint] [SorobanFixedPoint] [DecidableEq Address]

/-- Run a read-only entry point. -/
def Query.ask (e : Env Address W) (market : Address → MarketClient Address W) :
    Query Address → Contract Address W (Answer Address)
  | .getShares user => .amount <$> EntryPoints.getShares user
  | .getBTokens user => .amount <$> EntryPoints.getBTokens e user
  | .convertToAssets shares => .amount <$> EntryPoints.convertToAssets e shares
  | .getUnderlyingTokens user => .amount <$> EntryPoints.getUnderlyingTokens e user
  | .getConfig => (fun p => .config p.1 p.2) <$> EntryPoints.getConfig
  | .queryAsset => .address <$> EntryPoints.queryAsset
  | .getVault => .vault <$> EntryPoints.getVault e
  | .getAdmin => .address <$> EntryPoints.getAdmin
  | .getSigner => .signer <$> EntryPoints.getSigner
  | .getVaultSummary => .summary <$> EntryPoints.getVaultSummary e market
  | .balance id => .amount <$> EntryPoints.balance id
  | .decimals => .number <$> EntryPoints.decimals
  | .name => .text <$> EntryPoints.name
  | .symbol => .text <$> EntryPoints.symbol
  | .allowance from_ spender => .amount <$> EntryPoints.allowance e from_ spender

/-- Run an invocation, its result put aside. -/
def Invocation.exec (e : Env Address W) (market : Address → MarketClient Address W) :
    Invocation Address → Contract Address W Unit
  | .constructor admin pool asset blndToken => EntryPoints.constructor e admin pool asset blndToken
  | .call c => (fun _ => ()) <$> BlendVault.exec e c
  | .query q => (fun _ => ()) <$> q.ask e market

variable {e : Env Address W} {market : Address → MarketClient Address W} {f : Frame Address W}

theorem Query.asksNobody (q : Query Address) : AsksNobody (q.ask e market) := by
  cases q with
  | getVaultSummary =>
    apply Ignores.map
    simp only [EntryPoints.getVaultSummary,VaultSummary.load,VaultSummary.curUtil,
      VaultSummary.curIr,Storage.getSigner]
    with_reducible repeat' first | apply Ignores.bind | apply Ignores.ite | intro _
    all_goals first | exact Ignores.ofOption (by decide) | simp
  | _ =>
    apply Ignores.map
    simp only [EntryPoints.getShares,EntryPoints.getBTokens,EntryPoints.convertToAssets,
      EntryPoints.getUnderlyingTokens,EntryPoints.getConfig,EntryPoints.queryAsset,
      EntryPoints.getVault,EntryPoints.getAdmin,EntryPoints.getSigner,EntryPoints.balance,
      EntryPoints.decimals,EntryPoints.name,EntryPoints.symbol,EntryPoints.allowance,
      Storage.getSigner,Storage.getAllowance]
    with_reducible repeat' first | apply Ignores.bind | apply Ignores.ite | intro _
    all_goals simp

/-- An invocation asks its parties, and nobody else. -/
theorem Invocation.asks (i : Invocation Address) :
    Asks e (i.parties f.storage) (i.exec e market) f := by
  cases i with
  | constructor admin pool asset blndToken =>
    refine .requireAuth_bind (.of_asksNobody ?_)
    simp only [Storage.setAdmin,Storage.setPool,Storage.setAsset,Storage.setBlndToken]
    with_reducible repeat' first | apply Ignores.bind | intro _
    all_goals simp
  | call c => exact .map (exec_asks c)
  | query q => exact .map (.of_asksNobody q.asksNobody)

/-- Where everybody asked has signed, only a repetition can be refused an authorization. -/
theorem Invocation.fails_auth_iff (i : Invocation Address) (s : Storage Address) (ext : W)
    (hsigned : ∀ a ∈ i.parties s, e.signed a = true) :
    Fails (i.exec e market) (.fresh s ext) .auth ↔
      ∃ a, List.Duplicate a (i.parties s) ∧ e.again a = false := by
  have hasks : Asks e (i.parties (Frame.fresh s ext).storage) (i.exec e market) (.fresh s ext) :=
    i.asks
  refine hasks.refused.trans ((not_congr (Env.grants_iff hsigned)).trans ?_)
  simp

/-- The host of the comment, to which a second request of an address is an error. -/
def Env.RefusesRepeats (e : Env Address W) : Prop := ∀ a, e.again a = false

/-- On such a host the two roles have to fall to two addresses. -/
theorem Invocation.fails_auth_iff_of_refuses (i : Invocation Address) (s : Storage Address) (ext : W)
    (hsigned : ∀ a ∈ i.parties s, e.signed a = true) (hrefuses : e.RefusesRepeats) :
    Fails (i.exec e market) (.fresh s ext) .auth ↔ ¬ i.RolesApart s := by
  rw [i.fails_auth_iff s ext hsigned,← i.parties_nodup_iff s,← List.exists_duplicate_iff_not_nodup]
  exact exists_congr fun a => and_iff_left (hrefuses a)

omit [SorobanFixedPoint] in
theorem Step.auths_nodup_iff {w w' : World Address W} {l : Label Address W} (h : Step w l w') :
    l.auths.Nodup ↔ (Invocation.call l.call).RolesApart w.storage := by
  rw [h.signatures.1]
  exact Invocation.parties_nodup_iff (.call l.call) w.storage

/-- The runs in which nobody is asked twice are those in which the roles of every call fall to two
addresses. Whatever the state, an invocation asks its parties, each of them once exactly when its roles
are apart. Where all of them have signed, only a repetition can be refused an authorization, and a
host that refuses every repetition refuses exactly the invocations whose roles are not apart. -/
theorem asked_at_most_once :
    (∀ (w₀ w : World Address W) (ls : List (Label Address W)),
      Run (fun w l w' => Step w l w' ∧ (Invocation.call l.call).RolesApart w.storage) w₀ ls w ↔
        Run (fun w l w' => Step w l w' ∧ l.auths.Nodup) w₀ ls w) ∧
    ∀ (i : Invocation Address) (e : Env Address W) (market : Address → MarketClient Address W)
      (s : Storage Address) (ext : W),
      (∀ u g, Returns (i.exec e market) (.fresh s ext) u g →
        g.auths = i.parties s ∧ (g.auths.Nodup ↔ i.RolesApart s)) ∧
      ((∀ a ∈ i.parties s, e.signed a = true) →
        (Fails (i.exec e market) (.fresh s ext) .auth ↔
          ∃ a, List.Duplicate a (i.parties s) ∧ e.again a = false) ∧
        (e.RefusesRepeats →
          (Fails (i.exec e market) (.fresh s ext) .auth ↔ ¬ i.RolesApart s))) := by
  refine ⟨fun w₀ w ls => ?_,fun i e market s ext => ⟨fun u g hreturns => ?_,fun hsigned => ?_⟩⟩
  · exact Run.congr fun _ _ _ => and_congr_right fun hstep => hstep.auths_nodup_iff.symm
  · have hlog : g.auths = i.parties s := i.asks.logged hreturns
    rw [hlog]
    exact ⟨rfl,i.parties_nodup_iff s⟩
  · exact ⟨i.fails_auth_iff s ext hsigned,i.fails_auth_iff_of_refuses s ext hsigned⟩

end Invocations

section Sample
attribute [local instance] FixedPoint.documented SorobanFixedPoint.documented

/-- Account 9 becomes the signer, and signs for a deposit of account 7. -/
def signerCalls : List (Env ℕ ℤ × Call ℕ) :=
  [(referenceEnv scalar12 0 1,.setSigner (some 9)),(referenceEnv scalar12 0 2,.deposit 10 7 7 7)]

/-- The signer's own deposit asks account 9 twice. It goes through where the host finds a second
signature, and the host of the comment refuses it although everybody asked has signed. -/
theorem signer_asked_twice : ∃ (ls : List (Label ℕ ℤ)) (w : World ℕ ℤ) (l : Label ℕ ℤ)
    (t : World ℕ ℤ), Reaches ls w ∧ w.storage.signer = some 9 ∧ Step w l t ∧
      l.call = .deposit 10 9 9 9 ∧ l.result = some 10 ∧ l.auths = [9,9] ∧
      (∀ a, (referenceEnv scalar12 0 3).signed a = true) ∧ (referenceEnv scalar12 0 3).RefusesRepeats ∧
      Fails (exec (referenceEnv scalar12 0 3) (.deposit 10 9 9 9))
        (.fresh w.storage w.outside) .auth := by
  obtain ⟨ls,w,hreach,hend⟩ := exists_reaches (referenceEnv scalar12 0 0) 1 2 3 4 0 signerCalls
    (fun _ w => w.storage.signer = some 9 ∧
      (attempt w {referenceEnv scalar12 0 3 with again := fun _ => true} (.deposit 10 9 9 9)).any
        (fun p => p.1.result = some 10 ∧ p.1.auths = [9,9]) = true ∧
      failure (exec (referenceEnv scalar12 0 3) (.deposit 10 9 9 9))
        (.fresh w.storage w.outside) = some .auth) (by decide)
  obtain ⟨hsigner,hattempt,hfails⟩ := of_decide_eq_true hend
  obtain ⟨l,t,hstep,-,hcall,-,hq⟩ := exists_step w
    {referenceEnv scalar12 0 3 with again := fun _ => true} (.deposit 10 9 9 9)
    (fun l _ => l.result = some 10 ∧ l.auths = [9,9]) hattempt
  obtain ⟨hresult,hauths⟩ := of_decide_eq_true hq
  exact ⟨ls,w,l,t,hreach,hsigner,hstep,hcall,hresult,hauths,fun _ => rfl,fun _ => rfl,
    failure_eq_some.mp hfails⟩

/-- With another operator the two roles are apart; the admin who names himself again is asked
twice. -/
theorem asked_at_most_once_sample : ∃ (w₀ w : World ℕ ℤ) (ls : List (Label ℕ ℤ)) (g : Frame ℕ ℤ)
    (market : ℕ → MarketClient ℕ ℤ), ls.map Label.auths = [[1,9],[7,9]] ∧
      Run (fun w l w' => Step w l w' ∧ (Invocation.call l.call).RolesApart w.storage) w₀ ls w ∧
      Returns ((Invocation.call (.deposit 10 7 7 7)).exec (referenceEnv scalar12 0 3) market)
        (.fresh w.storage w.outside) () g ∧ g.auths = [7,9] ∧ g.auths.Nodup ∧
      ¬ Fails ((Invocation.call (.deposit 10 7 7 7)).exec (referenceEnv scalar12 0 3) market)
        (.fresh w.storage w.outside) .auth ∧
      Fails ((Invocation.call (.setAdmin 1)).exec (referenceEnv scalar12 0 3) market)
        (.fresh w.storage w.outside) .auth := by
  obtain ⟨ls,w,⟨w₀,-,hrun⟩,hend⟩ := exists_reaches (referenceEnv scalar12 0 0) 1 2 3 4 0 signerCalls
    (fun ls w => (ls.map Label.auths = [[1,9],[7,9]] ∧ ∀ l ∈ ls, l.auths.Nodup) ∧
      (w.storage.signer = some 9 ∧ w.storage.admin = some 1) ∧
      (attempt w (referenceEnv scalar12 0 3) (.deposit 10 7 7 7)).any (fun _ => true) = true)
    (by decide)
  obtain ⟨⟨hlogs,honce⟩,⟨hsigner,hadmin⟩,hattempt⟩ := of_decide_eq_true hend
  obtain ⟨l,t,hstep,henv,hcall,hfound,-⟩ := exists_step w (referenceEnv scalar12 0 3)
    (.deposit 10 7 7 7) (fun _ _ => true) hattempt
  have hreturns := hstep.returns
  rw [henv,hcall,hfound] at hreturns
  let market : ℕ → MarketClient ℕ ℤ := fun _ => ⟨fun _ _ => none,fun _ => none⟩
  have hinvoked : Returns ((Invocation.call (.deposit 10 7 7 7)).exec (referenceEnv scalar12 0 3)
      market) (.fresh w.storage w.outside) () _ := returns_map.mpr ⟨_,hreturns,rfl⟩
  have hparties : (Invocation.call (.deposit 10 7 7 7)).parties w.storage = [7,9] := by
    rw [Invocation.parties,Call.parties,hsigner]
    rfl
  have happart : (Invocation.call (.deposit 10 7 7 7)).RolesApart w.storage := by
    rw [Invocation.RolesApart,hsigner]
    decide
  have hsame : ¬ (Invocation.call (.setAdmin 1)).RolesApart w.storage := not_not.mpr hadmin
  obtain ⟨hruns,hinvocations⟩ := @asked_at_most_once ℕ ℤ _ _ _
  obtain ⟨hlog,hrefusal⟩ := hinvocations (.call (.deposit 10 7 7 7)) (referenceEnv scalar12 0 3)
    market w.storage w.outside
  obtain ⟨hauths,hnodup⟩ := hlog () _ hinvoked
  have hdeposit := (hrefusal fun _ _ => rfl).2 fun _ => rfl
  have hadmins := ((hinvocations (.call (.setAdmin 1)) (referenceEnv scalar12 0 3) market w.storage
    w.outside).2 fun _ _ => rfl).2 fun _ => rfl
  exact ⟨w₀,w,ls,_,market,hlogs,(hruns w₀ w ls).mpr (hrun.with_labels honce),hinvoked,
    hauths.trans hparties,hnodup.mpr happart,fun hf => hdeposit.mp hf happart,hadmins.mpr hsame⟩

end Sample
end BlendVault
