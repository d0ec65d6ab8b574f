import BlendVault.System.Balances
import BlendVault.System.Invocations

/-! Who has to agree before the vault moves. A deposit needs the signer and the settings need
the admin; transfers between holders and claims of emissions ask neither. -/
namespace BlendVault
open FailStop

section Entries
variable {Address W : Type} [DecidableEq Address]

/-- Every address that comes to hold shares in the step does so with the signer's
authorization, if a signer is set. -/
def Admits (w : World Address W) (l : Label Address W) (w' : World Address W) : Prop :=
  ∀ signer, w.storage.signer = some signer → ∀ a, w.storage.sharesOf a = 0 →
    0 < w'.storage.sharesOf a → signer ∈ l.auths

/-- Shares sent to an address without any are sent by the signer, if one is set. -/
def Call.EntersSigned (s : Storage Address) : Call Address → Prop
  | .transfer from_ to_ _ => ∀ signer, s.signer = some signer → s.sharesOf to_ = 0 → signer = from_
  | .transferFrom spender _ to_ _ =>
    ∀ signer, s.signer = some signer → s.sharesOf to_ = 0 → signer = spender
  | _ => True

theorem Call.Bookless.entersSigned {c : Call Address} (h : c.Bookless) (s : Storage Address) :
    c.EntersSigned s := by
  cases c <;> trivial

theorem Exits.entersSigned [FixedPoint] {v : VaultData} {held u b n : ℤ}
    {receiver owner operator : Address} {c : Call Address}
    (h : Exits v held receiver owner operator u b n c) (s : Storage Address) :
    c.EntersSigned s := by
  cases h <;> trivial

/-- A transfer lets in nobody but its receiver, and him only if he held nothing. -/
theorem Storage.Moves.enters_iff {s : Storage Address} {from_ to_ a : Address} {amount : ℤ}
    (h : s.Moves from_ to_ amount) :
    s.sharesOf a = 0 ∧ 0 < (s.moved from_ to_ amount).sharesOf a ↔
      a = to_ ∧ s.sharesOf to_ = 0 := by
  have hpos := h.amount_pos
  rw [Storage.sharesOf_moved]
  by_cases hto : a = to_
  · subst hto
    simp only [if_true,true_and]
    omega
  · refine iff_of_false ?_ fun h' => hto h'.1
    rw [if_neg hto]
    by_cases hfrom : a = from_
    · subst hfrom
      have hle := h.enough
      rw [if_pos rfl]
      omega
    · rw [if_neg hfrom]
      omega

variable [FixedPoint] {w w' : World Address W} {l : Label Address W}

omit [FixedPoint] in
/-- Where no balance grows, nobody is let in. -/
theorem Admits.of_le (h : ∀ a, w'.storage.sharesOf a ≤ w.storage.sharesOf a) : Admits w l w' := by
  intro signer _ a h0 hpos
  have hle := h a
  omega

omit [FixedPoint] in
/-- A transfer is admitted on the signer's authorization, if its receiver is let in by it. -/
theorem Move.admits_iff {from_ to_ : Address} {amount : ℤ} (h : Move w l w' from_ to_ amount) :
    Admits w l w' ↔ ∀ signer, w.storage.signer = some signer →
      w.storage.sharesOf to_ = 0 → signer ∈ l.auths := by
  have henters : ∀ a, w.storage.sharesOf a = 0 ∧ 0 < w'.storage.sharesOf a ↔
      a = to_ ∧ w.storage.sharesOf to_ = 0 := by
    intro a
    rw [h.sharesOf,h.moves.enters_iff]
  constructor
  · intro hadmits signer hsigner h0
    obtain ⟨hzero,hpos⟩ := (henters to_).mpr ⟨rfl,h0⟩
    exact hadmits signer hsigner to_ hzero hpos
  · intro hall signer hsigner a hzero hpos
    exact hall signer hsigner ((henters a).mp ⟨hzero,hpos⟩).2

/-- A step admits only with the signer's authorization exactly when it sends no shares past
the signer to an address without any. -/
theorem Step.admits_iff (h : Step w l w') : Admits w l w' ↔ l.call.EntersSigned w.storage := by
  have hauths := h.signatures.1
  cases h.accounts with
  | mint hm =>
    rw [hm.call] at hauths ⊢
    refine iff_of_true ?_ trivial
    intro signer hsigner a _ _
    rw [hauths,Call.parties,hsigner]
    exact List.mem_cons_of_mem _ (List.mem_singleton.mpr rfl)
  | @burn pool asset receiver owner operator v u moved b n hb =>
    refine iff_of_true (Admits.of_le ?_) (hb.call.entersSigned _)
    intro a
    have hn := hb.call.shares_pos.1
    rw [hb.sharesOf]
    split
    · subst_vars
      omega
    · exact le_rfl
  | @move from_ to_ amount hm =>
    rw [hm.admits_iff]
    rcases hm.call with hc | ⟨spender,hc⟩
    · rw [hc] at hauths ⊢
      simp [hauths,Call.parties,Call.EntersSigned]
    · rw [hc] at hauths ⊢
      simp [hauths,Call.parties,Call.EntersSigned]
  | compound hc =>
    obtain ⟨m,hcall⟩ := hc.call
    rw [hcall]
    exact iff_of_true (Admits.of_le fun a => (hc.sharesOf a).le) trivial
  | idle hi =>
    exact iff_of_true (Admits.of_le fun a => (hi.sharesOf a).le) (hi.call.entersSigned _)

/-- The runs in which nobody sends shares past the signer to an address without any are the runs
in which every entry is authorized by the signer of its moment. -/
theorem entries_signed_iff {w₀ : World Address W} {ls : List (Label Address W)} :
    Run (fun w l w' => Step w l w' ∧ l.call.EntersSigned w.storage) w₀ ls w ↔
      Run (fun w l w' => Step w l w' ∧ Admits w l w') w₀ ls w :=
  Run.congr fun _ _ _ => and_congr_right fun hstep => hstep.admits_iff.symm

end Entries

section Settings
variable {Address W : Type}

/-- The addresses the contract is configured with. -/
structure Settings (Address : Type) where
  pool : Option Address
  admin : Option Address
  asset : Option Address
  signer : Option Address
  router : Option Address
  blndToken : Option Address

def Storage.settings (s : Storage Address) : Settings Address :=
  ⟨s.pool,s.admin,s.asset,s.signer,s.router,s.blndToken⟩

/-- What a successful call makes of the settings. -/
def Call.configures (s : Settings Address) : Call Address → Settings Address
  | .setAdmin admin => {s with admin := some admin}
  | .setSigner signer => {s with signer}
  | .setRouter router => {s with router := some router}
  | _ => s

/-- The operations of the section for the admin only. -/
def Call.AdminOnly : Call Address → Prop
  | .setAdmin _ => True
  | .setSigner _ => True
  | .setRouter _ => True
  | .claimEmissions _ => True
  | _ => False

/-- Settings change in a call that is for the admin only, and not in a claim. -/
theorem Call.configures_of_not_adminOnly {c : Call Address} (s : Settings Address)
    (h : ¬ c.AdminOnly ∨ ∃ m, c = .claimEmissions m) : c.configures s = s := by
  rcases h with h | ⟨m,rfl⟩
  · cases c <;> first | rfl | exact absurd trivial h
  · rfl

/-- No call touches the pool, the asset or the BLND token. -/
theorem Call.configures_fixed (c : Call Address) (s : Settings Address) :
    (c.configures s).pool = s.pool ∧ (c.configures s).asset = s.asset ∧
      (c.configures s).blndToken = s.blndToken := by
  cases c <;> exact ⟨rfl,rfl,rfl⟩

theorem Storage.Delegates.settings [DecidableEq Address] {e : Env Address W}
    {s t : Storage Address} {owner spender : Address} {n : ℤ}
    (h : s.Delegates e owner spender n t) : t.settings = s.settings := by
  rw [h.frame]
  rfl

/-- The admin has agreed to what the step changes, a new admin and a new signer have agreed
too, and what is for the admin only was authorized by the admin. -/
structure Administered (w : World Address W) (l : Label Address W) (w' : World Address W) :
    Prop where
  changes : w'.storage.settings ≠ w.storage.settings →
    ∃ admin, w.storage.admin = some admin ∧ admin ∈ l.auths
  newAdmin : ∀ a, w'.storage.admin = some a → w.storage.admin ≠ some a → a ∈ l.auths
  newSigner : ∀ a, w'.storage.signer = some a → w.storage.signer ≠ some a → a ∈ l.auths
  pool : w'.storage.pool = w.storage.pool
  asset : w'.storage.asset = w.storage.asset
  blndToken : w'.storage.blndToken = w.storage.blndToken
  adminOnly : l.call.AdminOnly →
    ∃ admin, w.storage.admin = some admin ∧ l.env.signed admin = true

/-- Emissions are only claimed with the stored admin's authorization. -/
def Label.ClaimsSigned (w : World Address W) (l : Label Address W) : Prop :=
  ∀ m, l.call = .claimEmissions m →
    ∃ admin, w.storage.admin = some admin ∧ l.env.signed admin = true

/-- Without the admin's signature an operation that asks for it is refused. -/
theorem fails_requireAuth_of_unsigned [DecidableEq Address] {α : Type} {e : Env Address W} {f : Frame Address W}
    {a : Address} {k : Unit → Contract Address W α} (hsigned : e.signed a = false) :
    Fails (requireAuth e a >>= k) f .auth := by
  simp [requireAuth,fails_bind,fails_require,hsigned]

variable [DecidableEq Address] [FixedPoint] {w w' : World Address W} {l : Label Address W}

theorem Step.settings (h : Step w l w') :
    w'.storage.settings = l.call.configures w.storage.settings := by
  cases h.outcome with
  | withdraw _ _ _ _ _ _ delegates _ => exact delegates.settings
  | redeem _ _ _ _ _ _ _ _ delegates _ => exact delegates.settings
  | _ => rfl

/-- The admin stored at the moment is asked by every operation for the admin but one. -/
theorem Step.admin_mem_auths (h : Step w l w') (hc : l.call.AdminOnly) :
    (∃ m, l.call = .claimEmissions m) ∨
      ∃ admin, w.storage.admin = some admin ∧ admin ∈ l.auths := by
  cases h.outcome with
  | claimNothing => exact .inl ⟨_,rfl⟩
  | compound => exact .inl ⟨_,rfl⟩
  | setAdmin admin_eq _ => exact .inr ⟨_,admin_eq,List.mem_cons_self⟩
  | setSigner admin_eq _ => exact .inr ⟨_,admin_eq,List.mem_cons_self⟩
  | setRouter admin_eq _ => exact .inr ⟨_,admin_eq,List.mem_cons_self⟩
  | _ => exact hc.elim

/-- A new admin or signer is the one the call was made with, and is asked. -/
theorem Step.newcomer_mem_auths (h : Step w l w') (a : Address) :
    (w'.storage.admin = some a → w.storage.admin ≠ some a → a ∈ l.auths) ∧
      (w'.storage.signer = some a → w.storage.signer ≠ some a → a ∈ l.auths) := by
  have hset := h.settings
  have hauths := h.signatures.1
  have hadmin : w'.storage.admin = (l.call.configures w.storage.settings).admin := by rw [← hset]; rfl
  have hsigner : w'.storage.signer = (l.call.configures w.storage.settings).signer := by
    rw [← hset]; rfl
  rw [hadmin,hsigner,hauths]
  have hasked := h.admin_mem_auths
  cases hcall : l.call with
  | setAdmin b =>
    rw [hcall] at hasked
    obtain ⟨m,hm⟩ | ⟨old,hold,-⟩ := hasked trivial
    · cases hm
    · simp +contextual [Call.configures,Call.parties,hold,Storage.settings,eq_comm]
  | setSigner signer =>
    rw [hcall] at hasked
    obtain ⟨m,hm⟩ | ⟨old,hold,-⟩ := hasked trivial
    · cases hm
    · simp +contextual [Call.configures,Call.parties,hold,Storage.settings]
  | _ => simp +contextual [Call.configures,Storage.settings]

/-- A step is as the admin wants it exactly when a claim of emissions has his authorization. -/
theorem Step.administered_iff (h : Step w l w') : Administered w l w' ↔ l.ClaimsSigned w := by
  have hset := h.settings
  obtain ⟨hauths,hgrants⟩ := h.signatures
  have hsigned : ∀ a ∈ l.auths, l.env.signed a = true := by
    rw [hauths]
    exact hgrants.signed
  constructor
  · intro hadministered m hm
    apply hadministered.adminOnly
    rw [hm]
    trivial
  · intro hclaims
    have hfixed := l.call.configures_fixed w.storage.settings
    refine ⟨?_,fun a => (h.newcomer_mem_auths a).1,fun a => (h.newcomer_mem_auths a).2,?_,?_,?_,?_⟩
    · intro hchanged
      by_cases honly : l.call.AdminOnly
      · rcases h.admin_mem_auths honly with hclaim | hasked
        · exact absurd (hset.trans (Call.configures_of_not_adminOnly _ (.inr hclaim))) hchanged
        · exact hasked
      · exact absurd (hset.trans (Call.configures_of_not_adminOnly _ (.inl honly))) hchanged
    · exact (congrArg Settings.pool hset).trans hfixed.1
    · exact (congrArg Settings.asset hset).trans hfixed.2.1
    · exact (congrArg Settings.blndToken hset).trans hfixed.2.2
    · intro honly
      rcases h.admin_mem_auths honly with ⟨m,hm⟩ | ⟨admin,hadmin,hmem⟩
      · exact hclaims m hm
      · exact ⟨admin,hadmin,hsigned admin hmem⟩

theorem fails_of_unsigned {e : Env Address W} {s : Storage Address} {ext : W} {admin : Address}
    {c : Call Address} (hadmin : s.admin = some admin) (hsigned : e.signed admin = false)
    (hc : c.AdminOnly) (hclaim : ∀ m, c ≠ .claimEmissions m) :
    Fails (exec e c) (.fresh s ext) .auth := by
  have hget : Returns Storage.getAdmin (Frame.fresh s ext) admin (.fresh s ext) :=
    Storage.returns_getAdmin.mpr ⟨hadmin,rfl⟩
  cases c with
  | setAdmin a =>
    simp only [exec,fails_map,EntryPoints.setAdmin,Storage.extendInstance,fails_pure_bind]
    rw [fails_bind_of_returns hget]
    exact fails_requireAuth_of_unsigned hsigned
  | setSigner signer =>
    simp only [exec,fails_map,EntryPoints.setSigner,Storage.extendInstance,fails_pure_bind]
    rw [fails_bind_of_returns hget]
    exact fails_requireAuth_of_unsigned hsigned
  | setRouter router =>
    simp only [exec,fails_map,EntryPoints.setRouter,Storage.extendInstance,fails_pure_bind]
    rw [fails_bind_of_returns hget]
    exact fails_requireAuth_of_unsigned hsigned
  | claimEmissions m => exact absurd rfl (hclaim m)
  | _ => exact hc.elim

theorem Step.keeps_admin (h : Step w l w') (hw : ∃ admin, w.storage.admin = some admin) :
    ∃ admin, w'.storage.admin = some admin := by
  obtain ⟨admin,hadmin⟩ := hw
  have hset : w'.storage.admin = (l.call.configures w.storage.settings).admin :=
    congrArg Settings.admin h.settings
  rw [hset]
  cases l.call with
  | setAdmin a => exact ⟨a,rfl⟩
  | _ => exact ⟨admin,hadmin⟩

/-- The runs in which emissions are only claimed with the admin's authorization are the runs
in which the vault is administered by its admin; and wherever a run leads, an operation of the
admin other than the claim is refused without his signature. -/
theorem admin_governs {w₀ : World Address W} {ls : List (Label Address W)} (h₀ : Deployed w₀) :
    (Run (fun w l w' => Step w l w' ∧ l.ClaimsSigned w) w₀ ls w ↔
      Run (fun w l w' => Step w l w' ∧ Administered w l w') w₀ ls w) ∧
    (Run Step w₀ ls w → ∃ admin, w.storage.admin = some admin ∧
      ∀ (e : Env Address W) (c : Call Address) (ext : W), e.signed admin = false → c.AdminOnly →
        (∀ m, c ≠ .claimEmissions m) → Fails (exec e c) (.fresh w.storage ext) .auth) := by
  refine ⟨Run.congr fun _ _ _ => and_congr_right fun hstep => hstep.administered_iff.symm,?_⟩
  intro hrun
  have hstart : ∃ admin, w₀.storage.admin = some admin := by
    obtain ⟨e,admin,pool,asset,blndToken,found,auths,-,hcreate⟩ := h₀.created
    obtain ⟨r,-,-,hg⟩ := EntryPoints.returns_constructor.mp hcreate
    rw [show w₀.storage = _ from congrArg Frame.storage hg]
    exact ⟨admin,rfl⟩
  obtain ⟨admin,hadmin⟩ := hrun.invariant (fun w => ∃ admin, w.storage.admin = some admin) hstart
    fun _ _ _ hstep => hstep.keeps_admin
  exact ⟨admin,hadmin,fun e c ext hsigned hc => fails_of_unsigned hadmin hsigned hc⟩

end Settings

section Sample
attribute [local instance] FixedPoint.documented

/-- A signer is set, and account 7 deposits with the signature of signer 9. -/
def permissionedCalls : List (Env ℕ ℤ × Call ℕ) :=
  [(referenceEnv scalar12 0 1,.setSigner (some 9)),(referenceEnv scalar12 0 1,.setRouter 5),
    (referenceEnv scalar12 0 2,.deposit 10 7 7 7)]

/-- The same ledger as `referenceEnv`, with nobody's signature but that of `only`. -/
def onlySigned (only : ℕ) (emissions : ℤ) (sequence : ℕ) : Env ℕ ℤ :=
  {referenceEnv scalar12 emissions sequence with signed := fun a => a = only}

/-- Account 8 enters on a transfer that the signer knows nothing of. -/
theorem transfer_enters_unsigned : ∃ (ls : List (Label ℕ ℤ)) (w : World ℕ ℤ) (l : Label ℕ ℤ)
    (w' : World ℕ ℤ), Reaches ls w ∧ Step w l w' ∧ w.storage.signer = some 9 ∧
      w.storage.sharesOf 8 = 0 ∧ 0 < w'.storage.sharesOf 8 ∧ 9 ∉ l.auths ∧
      l.env.signed 9 = false := by
  obtain ⟨ls,w,hreach,hend⟩ := exists_reaches (referenceEnv scalar12 0 0) 1 2 3 4 0
    permissionedCalls (fun _ w => w.storage.signer = some 9 ∧ w.storage.sharesOf 8 = 0 ∧
      (attempt w (onlySigned 7 0 3) (.transfer 7 8 10)).any
        (fun p => decide (0 < p.2.storage.sharesOf 8 ∧ 9 ∉ p.1.auths)) = true) (by decide)
  obtain ⟨hsigner,hzero,hattempt⟩ := of_decide_eq_true hend
  obtain ⟨l,w',hstep,henv,-,-,hq⟩ := exists_step w (onlySigned 7 0 3) (.transfer 7 8 10)
    (fun l w' => decide (0 < w'.storage.sharesOf 8 ∧ 9 ∉ l.auths)) hattempt
  obtain ⟨hpos,hauths⟩ := of_decide_eq_true hq
  exact ⟨ls,w,l,w',hreach,hstep,hsigner,hzero,hpos,hauths,by rw [henv]; rfl⟩

/-- Account 8 claims and swaps the vault's emissions; the admin, account 1, has not signed. -/
theorem claim_needs_no_admin : ∃ (ls : List (Label ℕ ℤ)) (w : World ℕ ℤ) (l : Label ℕ ℤ)
    (w' : World ℕ ℤ), Reaches ls w ∧ Step w l w' ∧ w.storage.admin = some 1 ∧
      l.call = .claimEmissions 0 ∧ l.call.AdminOnly ∧ l.env.signed 1 = false ∧ l.auths = [] ∧
      w'.storage.vaultData ≠ w.storage.vaultData := by
  obtain ⟨ls,w,hreach,hend⟩ := exists_reaches (referenceEnv scalar12 0 0) 1 2 3 4 0
    permissionedCalls (fun _ w => w.storage.admin = some 1 ∧
      w.storage.vaultData = some ⟨0,scalar12,10,10⟩ ∧
      (attempt w (onlySigned 8 3 3) (.claimEmissions 0)).any
        (fun p => decide (p.1.auths = [] ∧
          p.2.storage.vaultData = some ⟨0,scalar12,10,13⟩)) = true) (by decide)
  obtain ⟨hadmin,hv,hattempt⟩ := of_decide_eq_true hend
  obtain ⟨l,w',hstep,henv,hcall,-,hq⟩ := exists_step w (onlySigned 8 3 3) (.claimEmissions 0)
    (fun l w' => decide (l.auths = [] ∧ w'.storage.vaultData = some ⟨0,scalar12,10,13⟩)) hattempt
  obtain ⟨hauths,hv'⟩ := of_decide_eq_true hq
  refine ⟨ls,w,l,w',hreach,hstep,hadmin,hcall,by rw [hcall]; trivial,by rw [henv]; rfl,hauths,?_⟩
  rw [hv,hv']
  decide

/-- Configured and traded in by those asked, the vault is administered by its admin. -/
theorem admin_governs_sample : ∃ (w₀ : World ℕ ℤ) (ls : List (Label ℕ ℤ)) (w : World ℕ ℤ),
    ls.map Label.auths = [[1,9],[1],[7,9]] ∧
      Run (fun w l w' => Step w l w' ∧ Administered w l w') w₀ ls w ∧
      Fails (exec (onlySigned 8 0 3) (.setRouter 8)) (.fresh w.storage w.outside) .auth := by
  have hclaims : ∀ (t : World ℕ ℤ) l u, Step t l u → l.found = t.outside →
      (l.env,l.call) ∈ permissionedCalls → Step t l u ∧ l.ClaimsSigned t := by
    intro t l u hstep _ hmem
    refine ⟨hstep,fun m hm => ?_⟩
    rw [hm] at hmem
    simp [permissionedCalls] at hmem
  obtain ⟨w₀,ls,w,hdeploy,hrun,hend⟩ := exists_run (e := referenceEnv scalar12 0 0) hclaims
    (fun ls w => ls.map Label.auths = [[1,9],[1],[7,9]] ∧ w.storage.admin = some 1)
    (show (simulate _ 1 2 3 4 0 _).any _ = true by decide)
  obtain ⟨hauths,hadmin⟩ := of_decide_eq_true hend
  obtain ⟨hiff,hfails⟩ := admin_governs (deploy_deployed hdeploy)
  obtain ⟨admin,hadmin',hrefused⟩ := hfails (hrun.mono fun _ _ _ h => h.1)
  cases hadmin.symm.trans hadmin'
  exact ⟨w₀,ls,w,hauths,hiff.mp hrun,hrefused _ _ _ rfl trivial (by simp)⟩

end Sample
end BlendVault
