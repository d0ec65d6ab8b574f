import BlendVault.Contract.EntryPoints

/-! The vault summary for offchain display. It reads more of the pool's reserve than the rest
of the contract does, and computes with the trait's other version, which traps by itself. -/
namespace BlendVault
open FailStop Storage RoundedDivision

/-- `soroban_fixed_point_math::SorobanFixedPoint` for `i128`: the exact quotient rounded as the
name says, or nothing when it does not fit. Its products are computed in 256 bits. -/
class SorobanFixedPoint where
  fixedMulFloor : ℤ → ℤ → ℤ → Option ℤ
  fixedMulCeil : ℤ → ℤ → ℤ → Option ℤ
  fixedDivCeil : ℤ → ℤ → ℤ → Option ℤ
  fixedMulFloor_eq : ∀ x y d, 0 < d → fixedMulFloor x y d = checked (x*y/d)
  fixedMulCeil_eq : ∀ x y d, 0 < d → fixedMulCeil x y d = checked (ceilDiv (x*y) d)
  fixedDivCeil_eq : ∀ x y d, 0 < y → fixedDivCeil x y d = checked (ceilDiv (x*d) y)

/-- The trait as the crate documents it, with nothing returned for other divisors. -/
@[reducible] def SorobanFixedPoint.documented : SorobanFixedPoint where
  fixedMulFloor x y d := if 0 < d then checked (x*y/d) else none
  fixedMulCeil x y d := if 0 < d then checked (ceilDiv (x*y) d) else none
  fixedDivCeil x y d := if 0 < y then checked (ceilDiv (x*d) y) else none
  fixedMulFloor_eq _ _ _ h := if_pos h
  fixedMulCeil_eq _ _ _ h := if_pos h
  fixedDivCeil_eq _ _ _ h := if_pos h

namespace SorobanFixedPoint

/-- A division by zero panics, so it has no result. -/
def TrapsOnZero [SorobanFixedPoint] : Prop := ∀ x d, fixedDivCeil x 0 d = none

theorem documented_trapsOnZero : @TrapsOnZero documented := fun _ _ => if_neg (lt_irrefl _)

variable [SorobanFixedPoint] {x y d z : ℤ}

theorem fixedMulFloor_eq_some (hd : 0 < d) :
    fixedMulFloor x y d = some z ↔ InI128 (x*y/d) ∧ z = x*y/d := by
  rw [fixedMulFloor_eq _ _ _ hd,checked_eq_some]

theorem fixedMulCeil_eq_some (hd : 0 < d) :
    fixedMulCeil x y d = some z ↔ InI128 (ceilDiv (x*y) d) ∧ z = ceilDiv (x*y) d := by
  rw [fixedMulCeil_eq _ _ _ hd,checked_eq_some]

theorem fixedDivCeil_eq_some (hy : 0 < y) :
    fixedDivCeil x y d = some z ↔ InI128 (ceilDiv (x*d) y) ∧ z = ceilDiv (x*d) y := by
  rw [fixedDivCeil_eq _ _ _ hy,checked_eq_some]

end SorobanFixedPoint

/-- What the summary reads of a reserve. -/
structure MarketReserve where
  bSupply : ℤ
  bRate : ℤ
  dSupply : ℤ
  dRate : ℤ
  irMod : ℤ
  util : ℕ
  rBase : ℕ
  rOne : ℕ
  rTwo : ℕ
  rThree : ℕ

structure MarketConfig where
  bstopRate : ℕ

/-- The pool as the summary sees it. -/
structure MarketClient (Address W : Type) where
  getReserve : W → Address → Option MarketReserve
  getConfig : W → Option MarketConfig

structure VaultSummary (Address : Type) where
  pool : Address
  asset : Address
  admin : Address
  signer : Option Address
  vault : VaultData
  estApr : ℤ

namespace VaultSummary
variable {Address W : Type} [SorobanFixedPoint]
open SorobanFixedPoint

/-- The share of the supply that is lent out. -/
def curUtil (reserve : MarketReserve) : Contract Address W ℤ := do
  let liabilities ← unwrap (fixedMulCeil reserve.dSupply reserve.dRate scalar12)
  let supply ← unwrap (fixedMulFloor reserve.bSupply reserve.bRate scalar12)
  if liabilities = 0 then
    return 0
  else if liabilities ≥ supply then
    return scalar7
  else
    unwrap (fixedDivCeil liabilities supply scalar7)

/-- The borrow rate: three lines that meet at the target and at 95% utilization. -/
def curIr (reserve : MarketReserve) (curUtil : ℤ) : Contract Address W ℤ := do
  let targetUtil : ℤ := reserve.util
  if curUtil ≤ targetUtil then
    let utilScalar ← unwrap (fixedDivCeil curUtil targetUtil scalar7)
    let slope ← unwrap (fixedMulCeil utilScalar reserve.rOne scalar7)
    let baseRate ← unwrap (checked (slope+reserve.rBase))
    unwrap (fixedMulCeil baseRate reserve.irMod scalar7)
  else if curUtil ≤ 9500000 then
    let above ← unwrap (checked (curUtil-targetUtil))
    let room ← unwrap (checked (9500000-targetUtil))
    let utilScalar ← unwrap (fixedDivCeil above room scalar7)
    let slope ← unwrap (fixedMulCeil utilScalar reserve.rTwo scalar7)
    let kinked ← unwrap (checked (slope+reserve.rOne))
    let baseRate ← unwrap (checked (kinked+reserve.rBase))
    unwrap (fixedMulCeil baseRate reserve.irMod scalar7)
  else
    let above ← unwrap (checked (curUtil-9500000))
    let utilScalar ← unwrap (fixedDivCeil above 500000 scalar7)
    let extraRate ← unwrap (fixedMulCeil utilScalar reserve.rThree scalar7)
    let kinked ← unwrap (checkedUnsigned 32 (reserve.rTwo+reserve.rOne))
    let base ← unwrap (checkedUnsigned 32 (kinked+reserve.rBase))
    let intersection ← unwrap (fixedMulCeil reserve.irMod base scalar7)
    unwrap (checked (extraRate+intersection))

/-- Loads the summary; the estimated APR is the borrow rate as suppliers earn it. -/
def load (e : Env Address W) (market : Address → MarketClient Address W) :
    Contract Address W (VaultSummary Address) := do
  let pool ← getPool
  let asset ← getAsset
  let admin ← getAdmin
  let signer ← getSigner
  let vault ← Vault.getVaultUpdated e pool asset
  let ext ← observe Frame.ext
  let reserve ← ofOption .callee ((market pool).getReserve ext asset)
  let poolConfig ← ofOption .callee ((market pool).getConfig ext)
  let curUtil ← curUtil reserve
  let curIr ← curIr reserve curUtil
  let earned ← unwrap (fixedMulFloor curIr curUtil scalar7)
  let kept ← unwrap (checked (scalar7-poolConfig.bstopRate))
  let estApr ← unwrap (fixedMulFloor earned kept scalar7)
  return {pool, asset, admin, signer, vault, estApr}

end VaultSummary

/-- Returns a vault summary for offchain display. Not for onchain use. -/
def EntryPoints.getVaultSummary {Address W : Type} [SorobanFixedPoint] (e : Env Address W)
    (market : Address → MarketClient Address W) : Contract Address W (VaultSummary Address) :=
  VaultSummary.load e market

end BlendVault
