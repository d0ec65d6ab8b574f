import BlendVault.Contract.VaultData
import BlendVault.Foundations.FailStop
import BlendVault.Foundations.FiniteStore

/-! What one invocation of the vault runs in: the contract's own storage, the ledger it is
included in, and the contracts it calls. Those contracts keep a state `W` the vault cannot
see into; the environment says how they answer. -/
namespace BlendVault
open FailStop

inductive BlendVaultError
  | balanceError
  | reserveNotFound
  | reserveAlreadyExists
  | invalidAmount
  | insufficientReserves
  | invalidBTokensMinted
  | invalidBTokensBurnt
  | invalidSharesMinted
  | invalidSharesBurnt
  | swapNotConfigured
  deriving Repr, DecidableEq

/-- Why an invocation fails: a contract error, an arithmetic trap or an unwrapped `None`, a
refused authorization, a host storage error, or a callee that failed. -/
inductive Failure
  | contract (error : BlendVaultError)
  | trap
  | auth
  | storage
  | callee
  deriving Repr, DecidableEq

@[ext] structure AllowanceKey (Address : Type) where
  from_ : Address
  spender : Address
  deriving Repr, DecidableEq

structure AllowanceValue where
  amount : ℤ
  expirationLedger : ℕ
  deriving Repr, DecidableEq

/-- A temporary entry and the last ledger through which the host promises to keep it. -/
structure TemporaryEntry where
  value : AllowanceValue
  liveUntil : ℕ
  deriving Repr, DecidableEq

structure Storage (Address : Type) where
  pool : Option Address := none
  admin : Option Address := none
  asset : Option Address := none
  signer : Option Address := none
  router : Option Address := none
  blndToken : Option Address := none
  vaultData : Option VaultData := none
  shares : FiniteStore Address ℤ := ∅
  allowances : FiniteStore (AllowanceKey Address) TemporaryEntry := ∅

structure Request (Address : Type) where
  address : Address
  amount : ℤ
  requestType : ℕ
  deriving Repr, DecidableEq

structure ReserveConfig where
  index : ℕ
  deriving Repr, DecidableEq

structure ReserveData where
  bRate : ℤ
  deriving Repr, DecidableEq

structure Reserve where
  config : ReserveConfig
  data : ReserveData
  deriving Repr, DecidableEq

/-- The Blend pool. A successful `submit` also says how much underlying it moved, which the
vault itself never looks at. -/
structure PoolClient (Address W : Type) where
  submit : W → Address → Address → Address → List (Request Address) → Option (ℤ × W)
  getReserve : W → Address → Option Reserve
  getPositions : W → Address → Option (ℕ → Option ℤ)
  claim : W → Address → List ℕ → Address → Option (ℤ × W)

structure SoroswapRouterClient (Address W : Type) where
  swapExactTokensForTokens : W → ℤ → ℤ → List Address → Address → ℕ → Option (List ℤ × W)

structure TokenClient (Address W : Type) where
  approve : W → Address → Address → ℤ → ℕ → Option W

/-- What the host answers. An address has `signed` the invocation if the host lets a first request
for its authorization through, and `again` says whether it lets a further one through in the same
frame, as it does when it finds a second signature or when the address is the calling contract.
`maxTtl` is the host's `max_ttl()`. `evicted key` says whether a temporary entry past its last
promised ledger reads as absent; the host is free to choose. -/
structure Env (Address W : Type) where
  sequence : ℕ
  timestamp : ℕ
  currentContractAddress : Address
  signed : Address → Bool
  again : Address → Bool
  maxTtl : ℕ
  evicted : AllowanceKey Address → Bool
  pool : Address → PoolClient Address W
  router : Address → SoroswapRouterClient Address W
  token : Address → TokenClient Address W

inductive Event (Address : Type)
  | vaultDeposit (pool reserve from_ : Address) (amount shares bTokens : ℤ)
  | vaultWithdraw (pool reserve from_ : Address) (amount shares bTokens : ℤ)
  | vaultEmissionsClaim (pool : Address) (blndClaimed underlyingReceived : ℤ)
  | transfer (from_ to_ : Address) (amount : ℤ)
  | approve (from_ spender : Address) (amount : ℤ) (expirationLedger : ℕ)
  deriving Repr, DecidableEq

/-- A request the pool carried out, with the amount asked for and the underlying moved. -/
inductive Flow (Address : Type)
  | supplied (from_ : Address) (amount moved : ℤ)
  | withdrawn (to_ : Address) (amount moved : ℤ)
  deriving Repr, DecidableEq

/-- The state of one invocation. `auths` lists the requests for an authorization made in it. -/
structure Frame (Address W : Type) where
  storage : Storage Address
  ext : W
  auths : List Address := []
  events : List (Event Address) := []
  flows : List (Flow Address) := []

abbrev Contract (Address W : Type) := Program (Frame Address W) Failure

variable {Address W α : Type}

/-- `unwrap_optimized`, and any operation that traps instead of returning. -/
def unwrap (o : Option α) : Contract Address W α := ofOption .trap o

def panicWithError (err : BlendVaultError) : Contract Address W α := throw (.contract err)

/-- Panics with `err` if `amount` is not positive. -/
def requirePositive (amount : ℤ) (err : BlendVaultError) : Contract Address W Unit :=
  require (0 < amount) (.contract err)

/-- Asks for an authorization. Whether an address that was asked before is let through is the
host's choice. -/
def requireAuth [DecidableEq Address] (e : Env Address W) (address : Address) :
    Contract Address W Unit := do
  let auths ← observe Frame.auths
  require ((address ∈ auths → e.again address = true) ∧ e.signed address = true) .auth
  update fun f => {f with auths := f.auths ++ [address]}

def publish (event : Event Address) : Contract Address W Unit :=
  update fun f => {f with events := f.events ++ [event]}

section Returns
variable {β : Type} {f g : Frame Address W} {a : α} {b : β} {u : Unit}

@[simp] theorem returns_unwrap {o : Option α} :
    Returns (unwrap o : Contract Address W α) f a g ↔ o = some a ∧ g = f := returns_ofOption

@[simp] theorem returns_panicWithError {err : BlendVaultError} :
    ¬ Returns (panicWithError err : Contract Address W α) f a g := returns_throw

@[simp] theorem returns_requirePositive {amount : ℤ} {err : BlendVaultError} :
    Returns (requirePositive amount err : Contract Address W Unit) f u g ↔
      0 < amount ∧ g = f := returns_require

@[simp high] theorem returns_unwrap_bind {o : Option α} {k : α → Contract Address W β} :
    Returns (unwrap o >>= k) f b g ↔ ∃ a, o = some a ∧ Returns (k a) f b g :=
  returns_ofOption_bind

@[simp high] theorem returns_panicWithError_bind {err : BlendVaultError}
    {k : α → Contract Address W β} :
    ¬ Returns ((panicWithError err : Contract Address W α) >>= k) f b g := returns_throw_bind

@[simp high] theorem returns_requirePositive_bind {amount : ℤ} {err : BlendVaultError}
    {k : Unit → Contract Address W β} :
    Returns (requirePositive amount err >>= k) f b g ↔ 0 < amount ∧ Returns (k ()) f b g :=
  returns_require_bind

@[simp] theorem returns_requireAuth [DecidableEq Address] {e : Env Address W}
    {address : Address} :
    Returns (requireAuth e address) f u g ↔
      (address ∈ f.auths → e.again address = true) ∧ e.signed address = true ∧
        g = {f with auths := f.auths ++ [address]} := by
  simp [requireAuth,and_assoc]

@[simp high] theorem returns_requireAuth_bind [DecidableEq Address] {e : Env Address W}
    {address : Address} {k : Unit → Contract Address W β} :
    Returns (requireAuth e address >>= k) f b g ↔
      (address ∈ f.auths → e.again address = true) ∧ e.signed address = true ∧
        Returns (k ()) {f with auths := f.auths ++ [address]} b g := by
  simp [requireAuth,and_assoc]

@[simp] theorem returns_publish {event : Event Address} :
    Returns (publish event : Contract Address W Unit) f u g ↔
      g = {f with events := f.events ++ [event]} := returns_update

end Returns
end BlendVault
