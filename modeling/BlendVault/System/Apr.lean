import BlendVault.System.ExactPool
import BlendVault.System.RateCurve

/-! The estimated APR of the summary. The computation completes except for a reserve that aims at
no utilization and has none, and what it shows follows the utilization. -/
namespace BlendVault
open FailStop RoundedDivision KinkedCurve SorobanFixedPoint

namespace VaultSummary
variable {Address W α : Type} [SorobanFixedPoint] {reserve : MarketReserve}
  {config : MarketConfig} {f g : Frame Address W} {u ir apr : ℤ}

/-- What is left to compute of the utilization once the two amounts are there. -/
theorem returns_utilization (h : reserve.Tame config) :
    Returns (if reserve.liabilities = 0 then pure 0
      else if reserve.liabilities ≥ reserve.supply then pure scalar7
      else unwrap (fixedDivCeil reserve.liabilities reserve.supply scalar7) :
        Contract Address W ℤ) f u g ↔ u = reserve.utilization ∧ g = f := by
  have hl := h.liabilities_nonneg
  unfold MarketReserve.utilization
  split
  · exact returns_pure
  · split
    · exact returns_pure
    · have hs : 0 < reserve.supply := by omega
      have hfit : InI128 (ceilDiv (reserve.liabilities*scalar7) reserve.supply) :=
        inI128_of_nonneg (ceilDiv_nonneg hs (mul_nonneg hl scalar7_pos.le))
          ((part_le scalar7_pos hs (by omega)).trans (by decide))
      rw [returns_unwrap,fixedDivCeil_eq_some hs,and_iff_right hfit]

/-- The utilization is computed when the two amounts it is taken from fit. -/
theorem returns_curUtil (h : reserve.Tame config) :
    Returns (curUtil reserve : Contract Address W ℤ) f u g ↔
      InI128 reserve.liabilities ∧ InI128 reserve.supply ∧ u = reserve.utilization ∧ g = f := by
  rw [← returns_utilization h]
  simp only [curUtil,returns_unwrap_bind,fixedMulCeil_eq_some scalar12_pos,
    fixedMulFloor_eq_some scalar12_pos]
  constructor
  · rintro ⟨_,⟨hl,rfl⟩,_,⟨hs,rfl⟩,hrest⟩
    exact ⟨hl,hs,hrest⟩
  · rintro ⟨hl,hs,hrest⟩
    exact ⟨_,⟨hl,rfl⟩,_,⟨hs,rfl⟩,hrest⟩

/-- A leg whose end fits is computed in two steps. -/
theorem returns_leg_bind {run rise x a : ℤ} {k : ℤ → Contract Address W ℤ} (hrun : 0 < run)
    (hx : 0 ≤ x) (hle : x ≤ run) :
    Returns (unwrap (fixedDivCeil x run scalar7) >>= fun part =>
      unwrap (fixedMulCeil part rise scalar7) >>= k) f a g ↔
      InI128 (leg scalar7 run rise x) ∧ Returns (k (leg scalar7 run rise x)) f a g := by
  have hpart : InI128 (ceilDiv (x*scalar7) run) :=
    inI128_of_nonneg (ceilDiv_nonneg hrun (mul_nonneg hx scalar7_pos.le))
      ((part_le scalar7_pos hrun hle).trans (by decide))
  simp only [returns_unwrap_bind,fixedDivCeil_eq_some hrun,fixedMulCeil_eq_some scalar7_pos]
  constructor
  · rintro ⟨_,⟨-,rfl⟩,_,⟨hleg,rfl⟩,hk⟩
    exact ⟨hleg,hk⟩
  · rintro ⟨hleg,hk⟩
    exact ⟨_,⟨hpart,rfl⟩,_,⟨hleg,rfl⟩,hk⟩

omit [SorobanFixedPoint] in
theorem returns_checked_bind {x a : ℤ} {k : ℤ → Contract Address W ℤ} (hfit : InI128 x) :
    Returns (unwrap (checked x) >>= k) f a g ↔ Returns (k x) f a g := by
  simp [hfit]

section Legs
variable (h : reserve.Tame config)
include h

theorem returns_curIr_toTarget (hutil : 0 < (reserve.util : ℤ)) (hu : 0 ≤ u)
    (hle : u ≤ reserve.util) :
    Returns (curIr reserve u : Contract Address W ℤ) f ir g ↔
      InI128 (reserve.rateToTarget u) ∧ ir = reserve.rateToTarget u ∧ g = f := by
  have hrates := h.rates_lt
  have hleg := leg_nonneg scalar7_pos hutil (Int.natCast_nonneg reserve.rOne) hu
  have hleg' := leg_le scalar7_pos hutil (Int.natCast_nonneg reserve.rOne) hle
  unfold curIr
  dsimp only
  rw [if_pos hle,returns_leg_bind hutil hu hle]
  simp only [returns_unwrap_bind,returns_unwrap,checked_eq_some,fixedMulCeil_eq_some scalar7_pos]
  constructor
  · rintro ⟨-,_,⟨-,rfl⟩,⟨hfit,hir⟩,hg⟩
    exact ⟨hfit,hir,hg⟩
  · rintro ⟨hfit,hir,hg⟩
    exact ⟨inI128_of_small hleg (by omega),_,⟨inI128_of_small (by omega) (by omega),rfl⟩,
      ⟨hfit,hir⟩,hg⟩

theorem returns_curIr_toKink (hlt : (reserve.util : ℤ) < u) (hle : u ≤ kink) :
    Returns (curIr reserve u : Contract Address W ℤ) f ir g ↔
      InI128 (reserve.rateToKink u) ∧ ir = reserve.rateToKink u ∧ g = f := by
  have hrates := h.rates_lt
  have hroom : 0 < 9500000-(reserve.util : ℤ) := sub_pos.mpr (hlt.trans_le hle)
  have habove : 0 ≤ u-reserve.util := sub_nonneg.mpr hlt.le
  have hleg := leg_nonneg scalar7_pos hroom (Int.natCast_nonneg reserve.rTwo) habove
  have hleg' := leg_le scalar7_pos hroom (Int.natCast_nonneg reserve.rTwo)
    (sub_le_sub_right hle _)
  have hkink : kink = 9500000 := rfl
  unfold curIr
  dsimp only
  rw [if_neg (not_le.mpr hlt),if_pos (show u ≤ 9500000 from hle),
    returns_checked_bind (inI128_of_small habove (by omega)),
    returns_checked_bind (inI128_of_small hroom.le (by omega)),
    returns_leg_bind hroom habove (sub_le_sub_right hle _)]
  simp only [returns_unwrap_bind,returns_unwrap,checked_eq_some,fixedMulCeil_eq_some scalar7_pos]
  constructor
  · rintro ⟨-,_,⟨-,rfl⟩,_,⟨-,rfl⟩,⟨hfit,hir⟩,hg⟩
    exact ⟨hfit,hir,hg⟩
  · rintro ⟨hfit,hir,hg⟩
    exact ⟨inI128_of_small hleg (by omega),_,⟨inI128_of_small (by omega) (by omega),rfl⟩,_,
      ⟨inI128_of_small (by omega) (by omega),rfl⟩,⟨hfit,hir⟩,hg⟩

theorem returns_curIr_beyond (hutil : (reserve.util : ℤ) < u) (hlt : kink < u)
    (hle : u ≤ scalar7) :
    Returns (curIr reserve u : Contract Address W ℤ) f ir g ↔
      InI128 (reserve.rateBeyond u) ∧ ir = reserve.rateBeyond u ∧ g = f := by
  have hrates := h.rates_lt
  obtain ⟨-,hleg,hrest⟩ := h.rateBeyond_nonneg hlt.le
  have hkink : kink = 9500000 := rfl
  have hall : scalar7 = 10000000 := rfl
  have habove : 0 ≤ u-9500000 := by omega
  unfold curIr
  dsimp only
  rw [if_neg (not_le.mpr hutil),if_neg (show ¬ u ≤ 9500000 from not_le.mpr hlt),
    returns_checked_bind (inI128_of_small habove (by omega)),
    returns_leg_bind (by decide) habove (by omega)]
  simp only [returns_unwrap_bind,returns_unwrap,checked_eq_some,checkedUnsigned_eq_some,
    fixedMulCeil_eq_some scalar7_pos]
  constructor
  · rintro ⟨-,_,⟨-,rfl⟩,_,⟨-,rfl⟩,_,⟨-,rfl⟩,⟨hfit,hir⟩,hg⟩
    exact ⟨hfit,hir,hg⟩
  · rintro ⟨hfit,hir,hg⟩
    have hsum : _+_ ≤ i128Max := hfit.2
    rw [hkink] at hleg hsum
    exact ⟨inI128_of_nonneg hleg (by omega),_,⟨by omega,rfl⟩,_,⟨by omega,rfl⟩,_,
      ⟨inI128_of_nonneg hrest (by omega),rfl⟩,⟨hfit,hir⟩,hg⟩

theorem returns_curIr (hu : 0 ≤ u) (hle : u ≤ scalar7)
    (hstart : 0 < (reserve.util : ℤ) ∨ 0 < u) :
    Returns (curIr reserve u : Contract Address W ℤ) f ir g ↔
      InI128 (reserve.borrowRate u) ∧ ir = reserve.borrowRate u ∧ g = f := by
  unfold MarketReserve.borrowRate
  rcases le_or_gt u reserve.util with htarget | htarget
  · rw [join_of_le htarget]
    exact returns_curIr_toTarget h (by omega) hu htarget
  · rw [join_of_lt htarget]
    rcases le_or_gt u kink with hkink | hkink
    · rw [join_of_le hkink]
      exact returns_curIr_toKink h htarget hkink
    · rw [join_of_lt hkink]
      exact returns_curIr_beyond h htarget hkink hle

end Legs

/-- With no utilization to aim at, none at all is divided by zero. -/
theorem curIr_fails (hzero : TrapsOnZero) (hutil : reserve.util = 0) :
    Fails (curIr reserve 0 : Contract Address W ℤ) f .trap := by
  unfold curIr
  dsimp only
  rw [if_pos (Int.natCast_nonneg _),hutil]
  exact Fails.ofOption_bind (hzero _ _)

/-- The estimate, once the pool has answered. -/
def estimate (reserve : MarketReserve) (config : MarketConfig) : Contract Address W ℤ := do
  let curUtil ← curUtil reserve
  let curIr ← curIr reserve curUtil
  let earned ← unwrap (fixedMulFloor curIr curUtil scalar7)
  let kept ← unwrap (checked (scalar7-config.bstopRate))
  unwrap (fixedMulFloor earned kept scalar7)

/-- The vault is set up, and the pool answers with this reserve and this configuration. -/
structure Shows (e : Env Address W) (market : Address → MarketClient Address W)
    (f : Frame Address W) (pool asset admin : Address) (v : VaultData) (reserve : MarketReserve)
    (config : MarketConfig) : Prop where
  serves : f.storage.Serves pool asset
  admin_eq : f.storage.admin = some admin
  refreshed : e.refreshed pool asset f.ext f.storage = some v
  reserve_eq : (market pool).getReserve f.ext asset = some reserve
  config_eq : (market pool).getConfig f.ext = some config

/-- Loading the summary is the estimate with the vault's settings around it. -/
theorem Shows.load_eq {e : Env Address W} {market : Address → MarketClient Address W}
    {pool asset admin : Address} {v : VaultData}
    (h : Shows e market f pool asset admin v reserve config) :
    load e market f = ((fun estApr => (⟨pool,asset,admin,f.storage.signer,v,estApr⟩ :
      VaultSummary Address)) <$> estimate reserve config) f := by
  unfold load
  rw [bind_of_returns (Storage.returns_getPool.mpr ⟨h.serves.pool_eq,rfl⟩),
    bind_of_returns (Storage.returns_getAsset.mpr ⟨h.serves.asset_eq,rfl⟩),
    bind_of_returns (Storage.returns_getAdmin.mpr ⟨h.admin_eq,rfl⟩),
    bind_of_returns (show Returns Storage.getSigner f f.storage.signer f from rfl),
    bind_of_returns (Vault.returns_getVaultUpdated.mpr ⟨h.refreshed,rfl⟩),
    bind_of_returns (returns_observe.mpr ⟨rfl,rfl⟩),
    bind_of_returns (returns_ofOption.mpr ⟨h.reserve_eq,rfl⟩),
    bind_of_returns (returns_ofOption.mpr ⟨h.config_eq,rfl⟩)]
  simp only [estimate,map_bind,bind_pure_comp]

section Estimate
variable (h : reserve.Tame config)
include h

/-- With something lent out or to aim at, the estimate is computed as soon as what it goes
through fits. -/
theorem returns_estimate (hactive : 0 < (reserve.util : ℤ) ∨ 0 < reserve.liabilities) :
    Returns (estimate reserve config : Contract Address W ℤ) f apr g ↔
      reserve.Fits ∧ apr = reserve.supplyRate config ∧ g = f := by
  obtain ⟨hu,hle⟩ := h.utilization_mem
  have hstart : 0 < (reserve.util : ℤ) ∨ 0 < reserve.utilization :=
    hactive.imp_right h.utilization_pos_iff.mpr
  have hrate := h.borrowRate_nonneg hstart hu
  obtain ⟨hearned,hearned'⟩ := MarketReserve.part_mem hrate hu hle
  obtain ⟨hkept,hkept'⟩ := h.kept_mem
  obtain ⟨hapr,hapr'⟩ := MarketReserve.part_mem hearned hkept hkept'
  simp only [estimate,returns_bind,returns_curUtil h,returns_unwrap,checked_eq_some,
    fixedMulFloor_eq_some scalar7_pos]
  constructor
  · rintro ⟨_,_,⟨hl,hs,rfl,rfl⟩,_,_,hir,_,_,⟨⟨-,rfl⟩,rfl⟩,_,_,⟨⟨-,rfl⟩,rfl⟩,⟨-,hestimate⟩,hg⟩
    obtain ⟨hfit,rfl,rfl⟩ := (returns_curIr h hu hle hstart).mp hir
    exact ⟨⟨hl.2,hs.2,hfit.2⟩,hestimate,hg⟩
  · rintro ⟨hfits,hestimate,rfl⟩
    have hfit : ∀ x, 0 ≤ x → x ≤ reserve.borrowRate reserve.utilization → InI128 x :=
      fun x h0 hx => inI128_of_nonneg h0 (hx.trans hfits.borrowRate)
    refine ⟨_,_,⟨inI128_of_nonneg h.liabilities_nonneg hfits.liabilities,
      inI128_of_nonneg h.supply_nonneg hfits.supply,rfl,rfl⟩,_,_,
      (returns_curIr h hu hle hstart).mpr ⟨hfit _ hrate le_rfl,rfl,rfl⟩,_,_,
      ⟨⟨hfit _ hearned hearned',rfl⟩,rfl⟩,_,_,⟨⟨?_,rfl⟩,rfl⟩,
      ⟨hfit _ hapr (hapr'.trans hearned'),hestimate⟩,rfl⟩
    exact inI128_of_nonneg hkept (hkept'.trans (by decide))

/-- An idle reserve that aims at no utilization has no estimate. -/
theorem estimate_fails (hzero : TrapsOnZero) (hfits : reserve.Fits) (hutil : reserve.util = 0)
    (hidle : reserve.liabilities = 0) :
    Fails (estimate reserve config : Contract Address W ℤ) f .trap := by
  have hu : reserve.utilization = 0 := if_pos hidle
  have hcurUtil : Returns (curUtil reserve : Contract Address W ℤ) f 0 f :=
    (returns_curUtil h).mpr ⟨inI128_of_nonneg h.liabilities_nonneg hfits.liabilities,
      inI128_of_nonneg h.supply_nonneg hfits.supply,hu.symm,rfl⟩
  rw [estimate,fails_bind_of_returns hcurUtil,fails_bind]
  exact .inl (curIr_fails hzero hutil)

/-- So an estimate there is was made of a reserve that is not idle, or aims at something. -/
theorem active_of_returns (hzero : TrapsOnZero)
    (hret : Returns (estimate reserve config : Contract Address W ℤ) f apr g) :
    0 < (reserve.util : ℤ) ∨ 0 < reserve.liabilities := by
  have hl := h.liabilities_nonneg
  by_contra hidle
  have hutil : reserve.util = 0 := by omega
  have hu : reserve.utilization = 0 := if_pos (by omega)
  rw [estimate,returns_bind] at hret
  obtain ⟨u,f₁,hcurUtil,hrest⟩ := hret
  obtain ⟨-,-,rfl,rfl⟩ := (returns_curUtil h).mp hcurUtil
  rw [hu,returns_bind] at hrest
  obtain ⟨ir,f₂,hcurIr,-⟩ := hrest
  exact (curIr_fails hzero hutil).not_returns hcurIr

end Estimate

section Load
variable {e : Env Address W} {market : Address → MarketClient Address W}
  {pool asset admin : Address} {v : VaultData} {s : VaultSummary Address}
  (h : Shows e market f pool asset admin v reserve config)
include h

theorem Shows.returns_load : Returns (load e market) f s g ↔
    ∃ apr, Returns (estimate reserve config) f apr g ∧
      s = ⟨pool,asset,admin,f.storage.signer,v,apr⟩ := by
  rw [Returns,h.load_eq]
  exact returns_map

theorem Shows.fails_load {err : Failure} : Fails (load e market) f err ↔
    Fails (estimate reserve config : Contract Address W ℤ) f err := by
  rw [Fails,h.load_eq]
  exact fails_map

/-- The estimate that was loaded, and the borrow rate it is a part of. -/
theorem Shows.estApr_eq (hzero : TrapsOnZero) (htame : reserve.Tame config)
    (hret : Returns (load e market) f s g) :
    (0 < (reserve.util : ℤ) ∨ 0 < reserve.liabilities) ∧
      s.estApr = reserve.supplyRate config ∧
      Returns (curUtil reserve) f reserve.utilization f ∧
      Returns (curIr reserve reserve.utilization) f (reserve.borrowRate reserve.utilization) f := by
  obtain ⟨apr,hestimate,rfl⟩ := h.returns_load.mp hret
  have hactive := active_of_returns htame hzero hestimate
  obtain ⟨hfits,hapr,-⟩ := (returns_estimate htame hactive).mp hestimate
  obtain ⟨hu,hle⟩ := htame.utilization_mem
  have hstart := hactive.imp_right htame.utilization_pos_iff.mpr
  refine ⟨hactive,hapr,?_,?_⟩
  · exact (returns_curUtil htame).mpr ⟨inI128_of_nonneg htame.liabilities_nonneg hfits.liabilities,
      inI128_of_nonneg htame.supply_nonneg hfits.supply,rfl,rfl⟩
  · exact (returns_curIr htame hu hle hstart).mpr
      ⟨inI128_of_nonneg (htame.borrowRate_nonneg hstart hu) hfits.borrowRate,rfl,rfl⟩

end Load

section Results
variable {e e' : Env Address W} {market market' : Address → MarketClient Address W}
  {f' g' : Frame Address W} {pool asset admin pool' asset' admin' : Address} {v v' : VaultData}
  {reserve' : MarketReserve} {s s' : VaultSummary Address}

/-- The summary of a sane reserve loads exactly when the reserve aims at some utilization or has
something lent out; otherwise loading it divides by zero. -/
theorem completes_iff (hzero : TrapsOnZero)
    (h : Shows e market f pool asset admin v reserve config) (hsane : reserve.Sane config)
    (hfits : reserve.Fits) :
    ((∃ s, Returns (EntryPoints.getVaultSummary e market) f s f) ↔
      0 < reserve.util ∨ 0 < reserve.dSupply) ∧
    (¬ (0 < reserve.util ∨ 0 < reserve.dSupply) →
      Fails (EntryPoints.getVaultSummary e market) f .trap) := by
  have hd := hsane.dSupply_nonneg
  have hliabilities : 0 < reserve.dSupply → 0 < reserve.liabilities := fun hpos =>
    ceilDiv_pos scalar12_pos (mul_pos hpos hsane.dRate_pos)
  have hfails : ¬ (0 < reserve.util ∨ 0 < reserve.dSupply) →
      Fails (EntryPoints.getVaultSummary e market) f .trap := by
    intro hidle
    have hd0 : reserve.dSupply = 0 := by omega
    refine h.fails_load.mpr (estimate_fails hsane.toTame hzero hfits (by omega) ?_)
    rw [MarketReserve.liabilities,hd0,zero_mul]
    rfl
  refine ⟨⟨?_,?_⟩,hfails⟩
  · intro hreturns
    obtain ⟨s,hs⟩ := hreturns
    by_contra hidle
    exact (hfails hidle).not_returns hs
  · intro hactive
    have hestimate := (returns_estimate (f := f) hsane.toTame
      (hactive.imp Int.natCast_pos.mpr hliabilities)).mpr ⟨hfits,rfl,rfl⟩
    exact ⟨_,h.returns_load.mpr ⟨_,hestimate,rfl⟩⟩

/-- Of two reserves on the same curve the one with more owed and less supplied shows the higher
estimate, and every estimate lies between nothing and the borrow rate it is computed from. -/
theorem estApr_follows_utilization (hzero : TrapsOnZero)
    (h : Shows e market f pool asset admin v reserve config)
    (h' : Shows e' market' f' pool' asset' admin' v' reserve' config)
    (htame : reserve.Tame config) (htame' : reserve'.Tame config)
    (hcurve : reserve.SameCurve reserve') (hret : Returns (load e market) f s g)
    (hret' : Returns (load e' market') f' s' g')
    (howed : reserve.dSupply*reserve.dRate ≤ reserve'.dSupply*reserve'.dRate)
    (hsupplied : reserve'.bSupply*reserve'.bRate ≤ reserve.bSupply*reserve.bRate) :
    s.estApr ≤ s'.estApr ∧
    (∃ u ir, Returns (curUtil reserve) f u f ∧ Returns (curIr reserve u) f ir f ∧
      0 ≤ s.estApr ∧ s.estApr ≤ ir) ∧
    (∃ u ir, Returns (curUtil reserve') f' u f' ∧ Returns (curIr reserve' u) f' ir f' ∧
      0 ≤ s'.estApr ∧ s'.estApr ≤ ir) := by
  obtain ⟨hactive,hapr,hu,hir⟩ := h.estApr_eq hzero htame hret
  obtain ⟨hactive',hapr',hu',hir'⟩ := h'.estApr_eq hzero htame' hret'
  have hmem := htame.supplyRate_mem hactive
  have hmem' := htame'.supplyRate_mem hactive'
  rw [hapr,hapr']
  refine ⟨?_,⟨_,_,hu,hir,hmem⟩,_,_,hu',hir',hmem'⟩
  exact MarketReserve.supplyRate_mono htame htame' hcurve hactive
    (ceilDiv_mono scalar12_pos howed) (Int.ediv_le_ediv scalar12_pos hsupplied)

end Results

end VaultSummary

section Sample
attribute [local instance] SorobanFixedPoint.documented
open VaultSummary

/-- A pool that answers with this reserve and a backstop rate of a tenth. -/
def referenceMarket (reserve : MarketReserve) : ℕ → MarketClient ℕ ℤ := fun _ =>
  ⟨fun _ _ => some reserve,fun _ => some ⟨1000000⟩⟩

/-- A vault of thirty shares over forty bTokens at a rate of 1.5. -/
def referenceFrame : Frame ℕ ℤ := .fresh (referenceWorld ⟨0,scalar12,30,40⟩ [(7,30)] 40).storage 40

theorem referenceMarket_shows (reserve : MarketReserve) :
    Shows (referenceEnv 1500000000000 0 1) (referenceMarket reserve) referenceFrame 2 3 1
      ⟨0,1500000000000,30,40⟩ reserve ⟨1000000⟩ :=
  ⟨⟨rfl,rfl⟩,rfl,rfl,rfl,rfl⟩

/-- A reserve on a curve with its target at 80% and a rate modifier of 2.5, out of which `owed`
has been lent. -/
def referenceReserve (owed : ℤ) : MarketReserve :=
  ⟨1000000000,1500000000000,owed,2000000000000,25000000,8000000,300000,600000,1200000,50000000⟩

theorem referenceReserve_tame {owed : ℤ} (h : 0 ≤ owed) : (referenceReserve owed).Tame ⟨1000000⟩ := by
  refine ⟨?_,?_,h,?_,?_,?_,?_,?_⟩
  · exact (by decide : (0 : ℤ) ≤ 1000000000)
  · exact (by decide : (0 : ℤ) ≤ 1500000000000)
  · exact (by decide : (0 : ℤ) ≤ 2000000000000)
  · exact (by decide : (0 : ℤ) ≤ 25000000)
  · exact (by decide : ((8000000 : ℕ) : ℤ) ≤ kink)
  · exact (by decide : 300000+600000+1200000 < 2^32)
  · exact (by decide : ((1000000 : ℕ) : ℤ) ≤ scalar7)

/-- The reserve that the vault's own tests configure: no target, and a base rate only. -/
def untargetedReserve : MarketReserve :=
  ⟨1000000000,1500000000000,0,1000000000000,10000000,0,1000000,0,0,0⟩

/-- As long as nobody borrows from it, its summary does not load. -/
theorem unused_reserve_traps : untargetedReserve.Sane ⟨1000000⟩ ∧ untargetedReserve.Fits ∧
    Shows (referenceEnv 1500000000000 0 1) (referenceMarket untargetedReserve) referenceFrame 2 3 1
      ⟨0,1500000000000,30,40⟩ untargetedReserve ⟨1000000⟩ ∧
    Fails (EntryPoints.getVaultSummary (referenceEnv 1500000000000 0 1)
      (referenceMarket untargetedReserve)) referenceFrame .trap :=
  ⟨⟨⟨by decide,by decide,by decide,by decide,by decide,by decide,by decide,by decide⟩,by decide,
      by decide⟩,⟨by decide,by decide,by decide⟩,referenceMarket_shows _,
    failure_eq_some.mp (by decide)⟩

/-- A reserve with 85% lent out. -/
theorem completes_iff_sample : ∃ s, Returns (EntryPoints.getVaultSummary
    (referenceEnv 1500000000000 0 1) (referenceMarket (referenceReserve 637500000)))
    referenceFrame s referenceFrame :=
  (completes_iff SorobanFixedPoint.documented_trapsOnZero (referenceMarket_shows _)
    ⟨referenceReserve_tame (by decide),by decide,by decide⟩
    ⟨by decide,by decide,by decide⟩).1.mpr (.inl (by decide))

/-- Lending out 85% instead of 60% raises the estimate, over the first kink. -/
theorem estApr_follows_utilization_sample : ∃ s s' : VaultSummary ℕ,
    Returns (load (referenceEnv 1500000000000 0 1) (referenceMarket (referenceReserve 450000000)))
      referenceFrame s referenceFrame ∧
    Returns (load (referenceEnv 1500000000000 0 1) (referenceMarket (referenceReserve 637500000)))
      referenceFrame s' referenceFrame ∧ s.estApr ≤ s'.estApr := by
  have hshows := referenceMarket_shows (referenceReserve 450000000)
  have hshows' := referenceMarket_shows (referenceReserve 637500000)
  have htame := referenceReserve_tame (show (0 : ℤ) ≤ 450000000 by decide)
  have htame' := referenceReserve_tame (show (0 : ℤ) ≤ 637500000 by decide)
  have hret := hshows.returns_load.mpr
    ⟨_,(returns_estimate htame (.inl (by decide))).mpr ⟨⟨by decide,by decide,by decide⟩,rfl,rfl⟩,rfl⟩
  have hret' := hshows'.returns_load.mpr
    ⟨_,(returns_estimate htame' (.inl (by decide))).mpr ⟨⟨by decide,by decide,by decide⟩,rfl,rfl⟩,rfl⟩
  exact ⟨_,_,hret,hret',(estApr_follows_utilization SorobanFixedPoint.documented_trapsOnZero hshows
    hshows' htame htame' ⟨rfl,rfl,rfl,rfl,rfl,rfl⟩ hret hret' (by decide) (by decide)).1⟩

/-- The estimate at 85%. -/
example : (referenceReserve 637500000).supplyRate ⟨1000000⟩ = 2486251 := by decide

end Sample
end BlendVault
