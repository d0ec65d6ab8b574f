import BlendVault.Contract.Vault

/-! The contract's entry points. -/
namespace BlendVault
open FailStop Storage

namespace EntryPoints
variable {Address W : Type}

section ReadOnly
variable [FixedPoint] [DecidableEq Address]

/-- Returns `user`'s position in shares. -/
def getShares (user : Address) : Contract Address W ℤ := getVaultShares user

/-- Returns `user`'s position in bTokens. -/
def getBTokens (e : Env Address W) (user : Address) : Contract Address W ℤ := do
  let shares ← getVaultShares user
  if shares > 0 then
    let pool ← getPool
    let asset ← getAsset
    let vault ← Vault.getVaultUpdated e pool asset
    unwrap (vault.sharesToBTokensDown shares)
  else
    return 0

/-- Converts a share amount to underlying tokens. -/
def convertToAssets (e : Env Address W) (shares : ℤ) : Contract Address W ℤ := do
  if shares ≤ 0 then
    return 0
  else
    let pool ← getPool
    let asset ← getAsset
    let vault ← Vault.getVaultUpdated e pool asset
    let bTokens ← unwrap (vault.sharesToBTokensDown shares)
    unwrap (vault.bTokensToUnderlyingDown bTokens)

/-- Returns `user`'s position in underlying tokens. -/
def getUnderlyingTokens (e : Env Address W) (user : Address) : Contract Address W ℤ := do
  let shares ← getVaultShares user
  if shares > 0 then
    let pool ← getPool
    let asset ← getAsset
    let vault ← Vault.getVaultUpdated e pool asset
    let bTokens ← unwrap (vault.sharesToBTokensDown shares)
    unwrap (vault.bTokensToUnderlyingDown bTokens)
  else
    return 0

def balance (id : Address) : Contract Address W ℤ := getVaultShares id

/-- Returns the approved allowance for `spender` to transfer shares from `from_`. -/
def allowance (e : Env Address W) (from_ spender : Address) : Contract Address W ℤ :=
  getAllowance e from_ spender

end ReadOnly

/-- Returns the current vault data with an up-to-date bRate. -/
def getVault (e : Env Address W) : Contract Address W VaultData := do
  let pool ← getPool
  let asset ← getAsset
  Vault.getVaultUpdated e pool asset

/-- Returns the vault's blend pool and asset addresses. -/
def getConfig : Contract Address W (Address × Address) := do
  let pool ← getPool
  let asset ← getAsset
  return (pool,asset)

/-- Returns the underlying asset address. SEP-56 compatible. -/
def queryAsset : Contract Address W Address := getAsset

def getAdmin : Contract Address W Address := Storage.getAdmin

def getSigner : Contract Address W (Option Address) := Storage.getSigner

def decimals : Contract Address W ℕ := return 7

def name : Contract Address W String := return "Blend Vault Share"

def symbol : Contract Address W String := return "bVS"

variable [DecidableEq Address]

/-- Initializes the contract with an admin, blend pool, and asset. -/
def constructor (e : Env Address W) (admin pool asset blndToken : Address) :
    Contract Address W Unit := do
  requireAuth e admin
  Storage.setAdmin admin
  setPool pool
  setAsset asset
  setBlndToken blndToken
  let bRate ← Pool.reserveBRate e pool asset
  setVaultData ⟨e.timestamp,bRate,0,0⟩

/-- Authorizes `operator` to burn `shares` of `owner`'s position. When `operator` is not
`owner`, it must hold an allowance from `owner` covering `shares`, which is consumed here. -/
def spendOperatorAllowance (e : Env Address W) (owner operator : Address) (shares : ℤ) :
    Contract Address W Unit := do
  if owner = operator then
    return ()
  else
    let (allowance,expiration) ← getAllowanceWithExpiration e owner operator
    if allowance < shares then
      panicWithError .balanceError
    let remaining ← unwrap (checked (allowance-shares))
    setAllowance e owner operator remaining expiration

section Token

/-- Approves `spender` to transfer up to `amount` shares from `from_` until
`expirationLedger`. -/
def approve (e : Env Address W) (from_ spender : Address) (amount : ℤ) (expirationLedger : ℕ) :
    Contract Address W Unit := do
  requireAuth e from_
  setAllowance e from_ spender amount expirationLedger
  publish (.approve from_ spender amount expirationLedger)

/-- Transfers `amount` shares from `from_` to `to_`. -/
def transfer (e : Env Address W) (from_ to_ : Address) (amount : ℤ) :
    Contract Address W Unit := do
  requireAuth e from_
  requirePositive amount .invalidAmount
  let fromShares ← getVaultShares from_
  if fromShares < amount then
    panicWithError .balanceError
  -- both balances are read before either is written
  let toShares ← getVaultShares to_
  let debited ← unwrap (checked (fromShares-amount))
  setVaultShares from_ debited
  let credited ← unwrap (checked (toShares+amount))
  setVaultShares to_ credited
  publish (.transfer from_ to_ amount)

/-- Transfers `amount` shares from `from_` to `to_` using `spender`'s allowance. -/
def transferFrom (e : Env Address W) (spender from_ to_ : Address) (amount : ℤ) :
    Contract Address W Unit := do
  requireAuth e spender
  requirePositive amount .invalidAmount
  let (allowance,expiration) ← getAllowanceWithExpiration e from_ spender
  if allowance < amount then
    panicWithError .balanceError
  let fromShares ← getVaultShares from_
  if fromShares < amount then
    panicWithError .balanceError
  let toShares ← getVaultShares to_
  let remaining ← unwrap (checked (allowance-amount))
  setAllowance e from_ spender remaining expiration
  let debited ← unwrap (checked (fromShares-amount))
  setVaultShares from_ debited
  let credited ← unwrap (checked (toShares+amount))
  setVaultShares to_ credited
  publish (.transfer from_ to_ amount)

end Token

section Admin

/-- Sets the admin address. Requires auth from both the current and new admin. -/
def setAdmin (e : Env Address W) (admin : Address) : Contract Address W Unit := do
  extendInstance e
  requireAuth e (← Storage.getAdmin)
  requireAuth e admin
  Storage.setAdmin admin

/-- Sets the deposit signer, or removes the signer requirement. -/
def setSigner (e : Env Address W) (signer : Option Address) : Contract Address W Unit := do
  extendInstance e
  requireAuth e (← Storage.getAdmin)
  match signer with
  | some signerAddr =>
    requireAuth e signerAddr
    Storage.setSigner signerAddr
  | none => delSigner

/-- Sets the Soroswap router address used for harvesting BLND emissions. -/
def setRouter (e : Env Address W) (router : Address) : Contract Address W Unit := do
  extendInstance e
  requireAuth e (← Storage.getAdmin)
  Storage.setRouter router

/-- Claims accrued BLND emissions from the pool, swaps them for the underlying asset, and
supplies the proceeds back into the pool. -/
def claimEmissions (e : Env Address W) (amountOutMin : ℤ) : Contract Address W ℤ := do
  extendInstance e
  let pool ← getPool
  let asset ← getAsset
  let blnd ← getBlndToken
  let router ← ofOption (.contract .swapNotConfigured) (← getRouter)
  let supplyTokenId ← Pool.reserveSupplyTokenId e pool asset
  let blndClaimed ← Pool.claim e pool [supplyTokenId] e.currentContractAddress
  if blndClaimed = 0 then
    return 0
  else
    let underlyingReceived ←
      Swap.swapBlndForAsset e router blnd asset blndClaimed amountOutMin
    Pool.supply e pool asset e.currentContractAddress underlyingReceived
    let vault ← Vault.getVaultUpdated e pool asset
    -- the tracked figure is overwritten by the reported one, not added to
    let totalBTokens ← Pool.vaultBTokenBalance e pool asset e.currentContractAddress
    setVaultData {vault with totalBTokens}
    publish (.vaultEmissionsClaim pool blndClaimed underlyingReceived)
    return underlyingReceived

end Admin

section ReadWrite
variable [FixedPoint]

/-- Deposits tokens into the blend vault. Requires the signer to sign if one is set. -/
def deposit (e : Env Address W) (assets : ℤ) (receiver from_ operator : Address) :
    Contract Address W ℤ := do
  extendInstance e
  requireAuth e operator
  match ← Storage.getSigner with
  | some signer => requireAuth e signer
  | none => pure ()
  requirePositive assets .invalidAmount
  let pool ← getPool
  let asset ← getAsset
  Pool.supply e pool asset from_ assets
  let (bTokensMinted,newShares) ← Vault.deposit e pool asset receiver assets
  publish (.vaultDeposit pool asset from_ assets newShares bTokensMinted)
  return newShares

/-- Withdraws tokens from the blend vault. If the input amount exceeds the owner's balance,
the owner's full balance will be withdrawn. -/
def withdraw (e : Env Address W) (assets : ℤ) (receiver owner operator : Address) :
    Contract Address W ℤ := do
  extendInstance e
  requireAuth e operator
  requirePositive assets .invalidAmount
  let pool ← getPool
  let asset ← getAsset
  let (withdrawAmount,bTokensBurnt,burntShares) ← Vault.withdraw e pool asset owner assets
  -- `burntShares` is only known once the clamp has run, so the allowance is consumed here
  spendOperatorAllowance e owner operator burntShares
  Pool.withdraw e pool asset receiver withdrawAmount
  publish (.vaultWithdraw pool asset owner assets burntShares bTokensBurnt)
  return burntShares

/-- Redeems an exact number of vault shares for underlying tokens. -/
def redeem (e : Env Address W) (shares : ℤ) (receiver owner operator : Address) :
    Contract Address W ℤ := do
  extendInstance e
  requireAuth e operator
  requirePositive shares .invalidSharesBurnt
  spendOperatorAllowance e owner operator shares
  let pool ← getPool
  let asset ← getAsset
  let (withdrawAmount,bTokensBurnt) ← Vault.redeem e pool asset owner shares
  Pool.withdraw e pool asset receiver withdrawAmount
  publish (.vaultWithdraw pool asset owner withdrawAmount shares bTokensBurnt)
  return withdrawAmount

end ReadWrite
end EntryPoints
end BlendVault
