import BlendVault.Contract.Host

/-! The contract's storage entries. Instance and persistent entries are never lost to the
contract; an archived one makes the call fail before it starts. Temporary entries, which
hold the allowances, may read as absent once past the ledger they were extended to. -/
namespace BlendVault
open FailStop

/-- The host's maximum lets an entry be kept from the current ledger to `expirationLedger`. -/
def Env.KeepsTo {Address W : Type} (e : Env Address W) (expirationLedger : ℕ) : Prop :=
  e.sequence < expirationLedger → expirationLedger-e.sequence ≤ e.maxTtl

namespace Storage
variable {Address W : Type}

section Instance
variable {f g : Frame Address W} {u : Unit}

def modify (k : Storage Address → Storage Address) : Contract Address W Unit :=
  update fun f => {f with storage := k f.storage}

@[simp] theorem returns_modify {k : Storage Address → Storage Address} :
    Returns (modify k : Contract Address W Unit) f u g ↔ g = {f with storage := k f.storage} :=
  returns_update

@[simp high] theorem returns_modify_bind {α : Type} {k : Storage Address → Storage Address}
    {h : Unit → Contract Address W α} {a : α} :
    Returns (modify k >>= h) f a g ↔ Returns (h ()) {f with storage := k f.storage} a g :=
  returns_update_bind

/-- Extending a time to live changes no value. -/
def extendInstance (_e : Env Address W) : Contract Address W Unit := pure ()

@[simp] theorem returns_extendInstance {e : Env Address W} :
    Returns (extendInstance e) f u g ↔ g = f := by simp [extendInstance]

def getPool : Contract Address W Address := do unwrap (← observe (·.storage.pool))
def getAdmin : Contract Address W Address := do unwrap (← observe (·.storage.admin))
def getAsset : Contract Address W Address := do unwrap (← observe (·.storage.asset))
def getSigner : Contract Address W (Option Address) := observe (·.storage.signer)
def getRouter : Contract Address W (Option Address) := observe (·.storage.router)
def getBlndToken : Contract Address W Address := do unwrap (← observe (·.storage.blndToken))

def setPool (pool : Address) : Contract Address W Unit := modify ({· with pool := some pool})
def setAdmin (admin : Address) : Contract Address W Unit :=
  modify ({· with admin := some admin})
def setAsset (asset : Address) : Contract Address W Unit :=
  modify ({· with asset := some asset})
def setSigner (signer : Address) : Contract Address W Unit :=
  modify ({· with signer := some signer})
def delSigner : Contract Address W Unit := modify ({· with signer := none})
def setRouter (router : Address) : Contract Address W Unit :=
  modify ({· with router := some router})
def setBlndToken (blndToken : Address) : Contract Address W Unit :=
  modify ({· with blndToken := some blndToken})

@[simp] theorem returns_getPool {a : Address} :
    Returns (getPool : Contract Address W Address) f a g ↔
      f.storage.pool = some a ∧ g = f := by simp [getPool]

@[simp] theorem returns_getAdmin {a : Address} :
    Returns (getAdmin : Contract Address W Address) f a g ↔
      f.storage.admin = some a ∧ g = f := by simp [getAdmin]

@[simp] theorem returns_getAsset {a : Address} :
    Returns (getAsset : Contract Address W Address) f a g ↔
      f.storage.asset = some a ∧ g = f := by simp [getAsset]

section Bind
variable {α : Type} {a : α} {k : Address → Contract Address W α}

@[simp high] theorem returns_getPool_bind :
    Returns (getPool >>= k) f a g ↔ ∃ p, f.storage.pool = some p ∧ Returns (k p) f a g :=
  returns_bind_of_read fun _ _ => returns_getPool

@[simp high] theorem returns_getAdmin_bind :
    Returns (getAdmin >>= k) f a g ↔ ∃ p, f.storage.admin = some p ∧ Returns (k p) f a g :=
  returns_bind_of_read fun _ _ => returns_getAdmin

@[simp high] theorem returns_getAsset_bind :
    Returns (getAsset >>= k) f a g ↔ ∃ p, f.storage.asset = some p ∧ Returns (k p) f a g :=
  returns_bind_of_read fun _ _ => returns_getAsset

@[simp high] theorem returns_getBlndToken_bind :
    Returns (getBlndToken >>= k) f a g ↔
      ∃ p, f.storage.blndToken = some p ∧ Returns (k p) f a g :=
  returns_bind_of_read fun _ _ => by simp [getBlndToken]

@[simp high] theorem returns_extendInstance_bind {e : Env Address W}
    {k : Unit → Contract Address W α} :
    Returns (extendInstance e >>= k) f a g ↔ Returns (k ()) f a g := Iff.rfl

end Bind

end Instance

section Persistent

def withVaultData (s : Storage Address) (vault : VaultData) : Storage Address :=
  {s with vaultData := some vault}

def setVaultData (vault : VaultData) : Contract Address W Unit :=
  modify (·.withVaultData vault)

def getVaultData : Contract Address W VaultData := do
  ofOption (.contract .reserveNotFound) (← observe (·.storage.vaultData))

@[simp] theorem returns_getVaultData {f g : Frame Address W} {v : VaultData} :
    Returns (getVaultData : Contract Address W VaultData) f v g ↔
      f.storage.vaultData = some v ∧ g = f := by simp [getVaultData]

variable [DecidableEq Address]

/-- The share balance stored for `user`, zero when there is none. -/
def sharesOf (s : Storage Address) (user : Address) : ℤ := s.shares.read user

def withShares (s : Storage Address) (user : Address) (shares : ℤ) : Storage Address :=
  {s with shares := s.shares.write user shares}

def setVaultShares (user : Address) (shares : ℤ) : Contract Address W Unit :=
  modify (·.withShares user shares)

def getVaultShares (user : Address) : Contract Address W ℤ := observe (·.storage.sharesOf user)

@[simp] theorem returns_getVaultShares {f g : Frame Address W} {user : Address} {n : ℤ} :
    Returns (getVaultShares user : Contract Address W ℤ) f n g ↔
      n = f.storage.sharesOf user ∧ g = f := returns_observe

theorem sharesOf_withShares (s : Storage Address) (a user : Address) (n : ℤ) :
    (s.withShares user n).sharesOf a = if a = user then n else s.sharesOf a :=
  FiniteStore.read_write _ _ _ _

@[simp] theorem sharesOf_withShares_self (s : Storage Address) (user : Address) (n : ℤ) :
    (s.withShares user n).sharesOf user = n := FiniteStore.read_write_self _ _ _

end Persistent

section Temporary
variable [DecidableEq Address]

/-- The host returns a temporary entry through the ledger it is kept to, and after that as
it pleases. -/
def readTemporary (s : Storage Address) (e : Env Address W) (key : AllowanceKey Address) :
    Option AllowanceValue :=
  match s.allowances.lookup key with
  | none => none
  | some entry =>
    if entry.liveUntil < e.sequence ∧ e.evicted key = true then none else some entry.value

/-- The ledger through which the entry at `key` is kept so far. -/
def liveUntil (s : Storage Address) (key : AllowanceKey Address) : ℕ :=
  ((s.allowances.lookup key).map TemporaryEntry.liveUntil).getD 0

/-- A written entry is kept at least through the current ledger, and an older promise stands. -/
def writeTemporary (s : Storage Address) (e : Env Address W) (key : AllowanceKey Address)
    (value : AllowanceValue) : Storage Address :=
  {s with allowances := s.allowances.write key ⟨value,max (s.liveUntil key) e.sequence⟩}

/-- An entry kept for fewer than `threshold` more ledgers is extended to `extendTo`, so that the
lesser of the two is promised in any case; the host refuses to go beyond its maximum. -/
def extendTtl (e : Env Address W) (key : AllowanceKey Address) (threshold extendTo : ℕ) :
    Contract Address W Unit := do
  require (extendTo ≤ e.maxTtl) .storage
  match ← observe (·.storage.allowances.lookup key) with
  | none => throw .storage
  | some entry =>
    let live := max entry.liveUntil (e.sequence+min threshold extendTo)
    modify fun s => {s with allowances := s.allowances.write key {entry with liveUntil := live}}

/-- The allowance and expiration readable at `e`'s ledger, or `(0, 0)`. -/
def allowanceAt (s : Storage Address) (e : Env Address W) (from_ spender : Address) : ℤ × ℕ :=
  match s.readTemporary e ⟨from_,spender⟩ with
  | some a =>
    if e.sequence ≤ a.expirationLedger then (a.amount,a.expirationLedger) else (0,0)
  | none => (0,0)

def getAllowanceWithExpiration (e : Env Address W) (from_ spender : Address) :
    Contract Address W (ℤ × ℕ) := observe (·.storage.allowanceAt e from_ spender)

def getAllowance (e : Env Address W) (from_ spender : Address) : Contract Address W ℤ := do
  return (← getAllowanceWithExpiration e from_ spender).1

def setAllowance (e : Env Address W) (from_ spender : Address) (amount : ℤ)
    (expirationLedger : ℕ) : Contract Address W Unit := do
  let key : AllowanceKey Address := ⟨from_,spender⟩
  modify (·.writeTemporary e key ⟨amount,expirationLedger⟩)
  let current := e.sequence
  if expirationLedger > current then
    let ttl := expirationLedger-current
    extendTtl e key ttl ttl

/-- The storage after `setAllowance`: the entry is kept at least through its expiration. -/
def withAllowance (s : Storage Address) (e : Env Address W) (from_ spender : Address)
    (amount : ℤ) (expirationLedger : ℕ) : Storage Address :=
  let live := max (max (s.liveUntil ⟨from_,spender⟩) e.sequence) expirationLedger
  {s with allowances := s.allowances.write ⟨from_,spender⟩ ⟨⟨amount,expirationLedger⟩,live⟩}

variable {f g : Frame Address W} {e : Env Address W} {from_ spender : Address} {u : Unit}

@[simp] theorem returns_getAllowanceWithExpiration {p : ℤ × ℕ} :
    Returns (getAllowanceWithExpiration e from_ spender) f p g ↔
      p = f.storage.allowanceAt e from_ spender ∧ g = f := returns_observe

@[simp] theorem returns_setAllowance {amount : ℤ} {expirationLedger : ℕ} :
    Returns (setAllowance e from_ spender amount expirationLedger) f u g ↔
      e.KeepsTo expirationLedger ∧
        g = {f with storage := f.storage.withAllowance e from_ spender amount expirationLedger} := by
  unfold Env.KeepsTo
  by_cases h : e.sequence < expirationLedger
  · have hlive : e.sequence+(expirationLedger-e.sequence) = expirationLedger := by omega
    simp [setAllowance,extendTtl,h,writeTemporary,withAllowance,FiniteStore.write,hlive]
  · have hlive : max (max (f.storage.liveUntil ⟨from_,spender⟩) e.sequence) expirationLedger =
        max (f.storage.liveUntil ⟨from_,spender⟩) e.sequence := by omega
    simp [setAllowance,h,writeTemporary,withAllowance,hlive]

@[simp high] theorem returns_setAllowance_bind {α : Type} {amount : ℤ} {expirationLedger : ℕ}
    {k : Unit → Contract Address W α} {a : α} :
    Returns (setAllowance e from_ spender amount expirationLedger >>= k) f a g ↔
      e.KeepsTo expirationLedger ∧ Returns (k ())
        {f with storage := f.storage.withAllowance e from_ spender amount expirationLedger} a g := by
  rw [returns_bind]
  simp only [returns_setAllowance]
  constructor
  · rintro ⟨_,_,⟨hk,rfl⟩,h⟩
    exact ⟨hk,h⟩
  · rintro ⟨hk,h⟩
    exact ⟨(),_,⟨hk,rfl⟩,h⟩

end Temporary
end Storage
end BlendVault
