import BlendVault.System.Inversion
import Mathlib.Data.List.Duplicate

/-! Whom a call asks for an authorization, and in which order. Whether an address is let through
that was asked before is up to the host; nothing but the requests themselves is ever refused an
authorization. -/
namespace BlendVault
open FailStop

section Grants
variable {Address W : Type} {e : Env Address W} {done as : List Address}

theorem Env.Grants.signed (h : e.Grants done as) : ∀ a ∈ as, e.signed a = true := by
  induction as generalizing done with
  | nil => simp
  | cons a as ih =>
    obtain ⟨-,hsigned,hrest⟩ := h
    exact List.forall_mem_cons.mpr ⟨hsigned,ih hrest⟩

/-- Where everybody signs, it is left to the host what becomes of those who are asked again: those
`done` before, and those who are in the list twice. -/
theorem Env.grants_after_iff (hsigned : ∀ a ∈ as, e.signed a = true) :
    e.Grants done as ↔ ∀ a ∈ as, a ∈ done ∨ List.Duplicate a as → e.again a = true := by
  induction as generalizing done with
  | nil => simp [Grants]
  | cons a as ih =>
    rw [List.forall_mem_cons] at hsigned
    rw [Grants,ih hsigned.2]
    simp only [hsigned.1,true_and,List.forall_mem_cons,List.mem_append,List.mem_singleton,
      List.duplicate_cons_iff]
    constructor
    · intro h
      obtain ⟨hdone,hrest⟩ := h
      refine ⟨?_,fun b hb hbd => hrest b hb ?_⟩
      · rintro (ha | ha | ha)
        · exact hdone ha
        · exact hrest a ha (.inl (.inr rfl))
        · exact hrest a ha.mem (.inr ha)
      · rcases hbd with hb | ⟨hab,-⟩ | hb
        · exact .inl (.inl hb)
        · exact .inl (.inr hab.symm)
        · exact .inr hb
    · intro h
      obtain ⟨hfirst,hrest⟩ := h
      refine ⟨fun ha => hfirst (.inl ha),fun b hb hbd => hrest b hb ?_⟩
      rcases hbd with (hb | hba) | hb
      · exact .inl hb
      · exact .inr (.inl ⟨hba.symm,hba ▸ hb⟩)
      · exact .inr (.inr hb)

theorem Env.grants_iff (hsigned : ∀ a ∈ as, e.signed a = true) :
    e.Grants [] as ↔ ∀ a, List.Duplicate a as → e.again a = true := by
  rw [grants_after_iff hsigned]
  constructor
  · intro h a ha
    exact h a ha.mem (.inr ha)
  · intro h a _ ha
    exact h a (ha.resolve_left List.not_mem_nil)

end Grants

section Asks
variable {Address W α β : Type} {e : Env Address W} {f : Frame Address W} {as : List Address}
  {m : Contract Address W α}

/-- The program makes no request for an authorization. -/
abbrev AsksNobody (m : Contract Address W α) : Prop := Ignores Frame.auths Failure.auth m

/-- Started in `f`, the program asks the addresses `as` one after another and nobody else: it is
refused an authorization unless the host lets all of them through, and they are in the log. -/
structure Asks (e : Env Address W) (as : List Address) (m : Contract Address W α)
    (f : Frame Address W) : Prop where
  refused : Fails m f .auth ↔ ¬ e.Grants f.auths as
  logged : ∀ {a g}, Returns m f a g → g.auths = f.auths ++ as

namespace Asks

theorem of_asksNobody (h : AsksNobody m) : Asks e [] m f where
  refused := iff_of_false h.avoids (not_not.mpr trivial)
  logged hr := (h.keeps hr).trans (List.append_nil _).symm

/-- A program that stops for another reason before it has asked anybody. -/
theorem of_fails {err : Failure} (h : Fails m f err) (herr : err ≠ .auth) : Asks e [] m f where
  refused := iff_of_false (fun hauth => herr (h.unique hauth)) (not_not.mpr trivial)
  logged hr := absurd hr h.not_returns

theorem map {h : α → β} (hm : Asks e as m f) : Asks e as (h <$> m) f where
  refused := fails_map.trans hm.refused
  logged hr := by
    obtain ⟨a,ha,-⟩ := returns_map.mp hr
    exact hm.logged ha

/-- After a program that has read something. -/
theorem bind {k : α → Contract Address W β} {a : α} (h : Returns m f a f)
    (hk : Asks e as (k a) f) : Asks e as (m >>= k) f where
  refused := (fails_bind_of_returns h).trans hk.refused
  logged hr := by
    rw [Returns,bind_of_returns h] at hr
    exact hk.logged hr

/-- Asking the stored admin first; without one, the call traps. -/
theorem getAdmin_bind {k : Address → Contract Address W α} {as : Address → List Address}
    (hk : ∀ a, Asks e (as a) (k a) f) :
    Asks e (f.storage.admin.elim [] as) (Storage.getAdmin >>= k) f := by
  cases hadmin : f.storage.admin with
  | none =>
    have hfails : Fails (Storage.getAdmin >>= k) f .trap := by
      refine fails_bind.mpr (.inl (fails_observe_bind.mpr ?_))
      exact fails_ofOption.mpr ⟨hadmin,rfl⟩
    exact of_fails hfails (by decide)
  | some a => exact bind (Storage.returns_getAdmin.mpr ⟨hadmin,rfl⟩) (hk a)

theorem requireAuth_bind [DecidableEq Address] {a : Address} {k : Unit → Contract Address W α}
    (hk : Asks e as (k ()) {f with auths := f.auths ++ [a]}) :
    Asks e (a :: as) (requireAuth e a >>= k) f where
  refused := by
    by_cases hlet : (a ∈ f.auths → e.again a = true) ∧ e.signed a = true
    · obtain ⟨hagain,hsigned⟩ := hlet
      rw [fails_bind_of_returns (returns_requireAuth (u := ()) |>.mpr ⟨hagain,hsigned,rfl⟩),
        hk.refused,Env.Grants]
      simp only [hsigned,true_and,and_iff_right hagain]
    · have hfails : Fails (requireAuth e a) f .auth :=
        fails_bind.mpr (.inr ⟨_,_,returns_observe.mpr ⟨rfl,rfl⟩,.require_bind hlet⟩)
      refine iff_of_true (fails_bind.mpr (.inl hfails)) fun hgrants => hlet ?_
      exact ⟨hgrants.1,hgrants.2.1⟩
  logged hr := by
    obtain ⟨-,-,hr⟩ := returns_requireAuth_bind.mp hr
    rw [hk.logged hr,List.append_assoc]
    rfl

end Asks
end Asks

/-! None of the operations that follow the requests makes another one. -/
section Rest
variable {Address W : Type}

@[simp] theorem asksNobody_unwrap {α : Type} (o : Option α) :
    AsksNobody (unwrap o : Contract Address W α) := .ofOption (by decide)

@[simp] theorem asksNobody_panicWithError {α : Type} (err : BlendVaultError) :
    AsksNobody (panicWithError err : Contract Address W α) := .throw (by simp)

@[simp] theorem asksNobody_requirePositive (amount : ℤ) (err : BlendVaultError) :
    AsksNobody (requirePositive amount err : Contract Address W Unit) := .require (by simp)

@[simp] theorem asksNobody_publish (event : Event Address) :
    AsksNobody (publish event : Contract Address W Unit) := .update fun _ => rfl

namespace Storage

@[simp] theorem asksNobody_modify (k : Storage Address → Storage Address) :
    AsksNobody (modify k : Contract Address W Unit) := .update fun _ => rfl

@[simp] theorem asksNobody_extendInstance (e : Env Address W) :
    AsksNobody (extendInstance e) := .pure

@[simp] theorem asksNobody_getPool : AsksNobody (getPool : Contract Address W Address) :=
  .bind .observe asksNobody_unwrap

@[simp] theorem asksNobody_getAdmin : AsksNobody (getAdmin : Contract Address W Address) :=
  .bind .observe asksNobody_unwrap

@[simp] theorem asksNobody_getAsset : AsksNobody (getAsset : Contract Address W Address) :=
  .bind .observe asksNobody_unwrap

@[simp] theorem asksNobody_getBlndToken :
    AsksNobody (getBlndToken : Contract Address W Address) := .bind .observe asksNobody_unwrap

@[simp] theorem asksNobody_getVaultData :
    AsksNobody (getVaultData : Contract Address W VaultData) :=
  .bind .observe fun _ => .ofOption (by simp)

@[simp] theorem asksNobody_setVaultData (vault : VaultData) :
    AsksNobody (setVaultData vault : Contract Address W Unit) := asksNobody_modify _

variable [DecidableEq Address]

@[simp] theorem asksNobody_getVaultShares (user : Address) :
    AsksNobody (getVaultShares user : Contract Address W ℤ) := .observe

@[simp] theorem asksNobody_setVaultShares (user : Address) (shares : ℤ) :
    AsksNobody (setVaultShares user shares : Contract Address W Unit) := asksNobody_modify _

@[simp] theorem asksNobody_getAllowanceWithExpiration (e : Env Address W)
    (from_ spender : Address) : AsksNobody (getAllowanceWithExpiration e from_ spender) := .observe

@[simp] theorem asksNobody_setAllowance (e : Env Address W) (from_ spender : Address) (amount : ℤ)
    (expirationLedger : ℕ) : AsksNobody (setAllowance e from_ spender amount expirationLedger) := by
  have hextend : ∀ key ttl, AsksNobody (extendTtl e key ttl ttl) := by
    intro key ttl
    refine .bind (.require (by decide)) fun _ => .bind .observe fun entry => ?_
    cases entry with
    | none => exact .throw (by decide)
    | some entry => exact asksNobody_modify _
  exact .bind (asksNobody_modify _) fun _ => .ite (hextend _ _) .pure

end Storage

section Callees
variable (e : Env Address W) (pool reserve : Address)

@[simp] theorem asksNobody_submit (from_ spender to_ : Address) (request : Request Address) :
    AsksNobody (Pool.submit e pool from_ spender to_ request) :=
  .bind .observe fun _ => .bind (.ofOption (by decide)) fun _ => .bind (.update fun _ => rfl)
    fun _ => .pure

@[simp] theorem asksNobody_supply (from_ : Address) (amount : ℤ) :
    AsksNobody (Pool.supply e pool reserve from_ amount) :=
  .bind (asksNobody_submit e pool _ _ _ _) fun _ => .update fun _ => rfl

@[simp] theorem asksNobody_withdraw (to_ : Address) (amount : ℤ) :
    AsksNobody (Pool.withdraw e pool reserve to_ amount) :=
  .bind (asksNobody_submit e pool _ _ _ _) fun _ => .update fun _ => rfl

@[simp] theorem asksNobody_getReserve : AsksNobody (Pool.getReserve e pool reserve) :=
  .bind .observe fun _ => .ofOption (by decide)

@[simp] theorem asksNobody_reserveBRate : AsksNobody (Pool.reserveBRate e pool reserve) :=
  .bind (asksNobody_getReserve e pool reserve) fun _ => .pure

@[simp] theorem asksNobody_getVaultUpdated : AsksNobody (Vault.getVaultUpdated e pool reserve) :=
  .bind Storage.asksNobody_getVaultData fun _ => .bind (asksNobody_reserveBRate e pool reserve)
    fun _ => .pure

variable [DecidableEq Address]

@[simp] theorem asksNobody_spendOperatorAllowance (owner operator : Address) (shares : ℤ) :
    AsksNobody (EntryPoints.spendOperatorAllowance e owner operator shares) := by
  simp only [EntryPoints.spendOperatorAllowance]
  with_reducible repeat' first | apply Ignores.bind | apply Ignores.ite | intro _
  all_goals simp

variable [FixedPoint] (user : Address) (amount : ℤ)

@[simp] theorem asksNobody_vaultDeposit :
    AsksNobody (Vault.deposit e pool reserve user amount) := by
  simp only [Vault.deposit]
  with_reducible repeat' first | apply Ignores.bind | apply Ignores.ite | intro _
  all_goals simp

@[simp] theorem asksNobody_vaultWithdraw :
    AsksNobody (Vault.withdraw e pool reserve user amount) := by
  simp only [Vault.withdraw,Vault.clampToBalance]
  with_reducible repeat' first | apply Ignores.bind | apply Ignores.ite | intro _
  all_goals simp

@[simp] theorem asksNobody_vaultRedeem :
    AsksNobody (Vault.redeem e pool reserve user amount) := by
  simp only [Vault.redeem]
  with_reducible repeat' first | apply Ignores.bind | apply Ignores.ite | intro _
  all_goals simp

end Callees
end Rest

section Calls
variable {Address W : Type}

/-- The addresses a call asks for their authorization, in the order it asks them. -/
def Call.parties (s : Storage Address) : Call Address → List Address
  | .deposit _ _ _ operator => operator :: s.signer.toList
  | .withdraw _ _ _ operator => [operator]
  | .redeem _ _ _ operator => [operator]
  | .transfer from_ _ _ => [from_]
  | .transferFrom spender _ _ _ => [spender]
  | .approve from_ _ _ _ => [from_]
  | .claimEmissions _ => []
  | .setAdmin admin => s.admin.elim [] fun old => [old,admin]
  | .setSigner signer => s.admin.elim [] fun admin => admin :: signer.toList
  | .setRouter _ => s.admin.toList

variable {e : Env Address W} {f : Frame Address W}

theorem asksNobody_claimEmissions (amountOutMin : ℤ) :
    AsksNobody (EntryPoints.claimEmissions e amountOutMin) := by
  simp only [EntryPoints.claimEmissions,Storage.getRouter,Pool.reserveSupplyTokenId,Pool.claim,
    Swap.swapBlndForAsset,Pool.vaultBTokenBalance]
  with_reducible repeat' first | apply Ignores.bind | apply Ignores.ite | intro _
  all_goals simp

variable [DecidableEq Address] [FixedPoint]

/-- A call asks its parties, and nobody else. -/
theorem exec_asks (c : Call Address) : Asks e (c.parties f.storage) (exec e c) f := by
  cases c with
  | deposit assets receiver from_ operator =>
    refine .map (.bind (returns_pure.mpr ⟨rfl,rfl⟩) (.requireAuth_bind ?_))
    refine .bind (returns_observe.mpr ⟨rfl,rfl⟩) ?_
    cases f.storage.signer with
    | none =>
      refine .of_asksNobody ?_
      with_reducible repeat' first | apply Ignores.bind | apply Ignores.ite | intro _
      all_goals simp
    | some signer =>
      refine .requireAuth_bind (.of_asksNobody ?_)
      with_reducible repeat' first | apply Ignores.bind | apply Ignores.ite | intro _
      all_goals simp
  | withdraw _ _ _ _ | redeem _ _ _ _ =>
    -- the operator is asked, and nothing after it asks again
    refine .map (.bind (returns_pure.mpr ⟨rfl,rfl⟩) (.requireAuth_bind (.of_asksNobody ?_)))
    with_reducible repeat' first | apply Ignores.bind | apply Ignores.ite | intro _
    all_goals simp
  | transfer _ _ _ | transferFrom _ _ _ _ | approve _ _ _ _ =>
    refine .map (.requireAuth_bind (.of_asksNobody ?_))
    with_reducible repeat' first | apply Ignores.bind | apply Ignores.ite | intro _
    all_goals simp
  | claimEmissions amountOutMin => exact .map (.of_asksNobody (asksNobody_claimEmissions amountOutMin))
  | setAdmin admin =>
    refine .map (.bind (returns_pure.mpr ⟨rfl,rfl⟩) (.getAdmin_bind fun old => ?_))
    exact .requireAuth_bind (.requireAuth_bind (.of_asksNobody (Storage.asksNobody_modify _)))
  | setSigner signer =>
    refine .map (.bind (returns_pure.mpr ⟨rfl,rfl⟩) (.getAdmin_bind fun admin => ?_))
    cases signer with
    | none => exact .requireAuth_bind (.of_asksNobody (Storage.asksNobody_modify _))
    | some signer =>
      exact .requireAuth_bind (.requireAuth_bind (.of_asksNobody (Storage.asksNobody_modify _)))
  | setRouter router =>
    have hparties : (Call.setRouter router).parties f.storage =
        f.storage.admin.elim [] fun admin => [admin] := by
      rw [Call.parties]
      cases f.storage.admin <;> rfl
    rw [hparties]
    refine .map (.bind (returns_pure.mpr ⟨rfl,rfl⟩) (.getAdmin_bind fun admin => ?_))
    exact .requireAuth_bind (.of_asksNobody (Storage.asksNobody_modify _))

/-- A call that succeeds has asked its parties, and each has signed. -/
theorem Step.signatures {w w' : World Address W} {l : Label Address W} (h : Step w l w') :
    l.auths = l.call.parties w.storage ∧ l.env.Grants [] (l.call.parties w.storage) := by
  have hasks := exec_asks (e := l.env) (f := .fresh w.storage l.found) l.call
  refine ⟨hasks.logged h.returns,?_⟩
  by_contra hgrants
  exact (hasks.refused.mpr hgrants).not_returns h.returns

end Calls
end BlendVault
