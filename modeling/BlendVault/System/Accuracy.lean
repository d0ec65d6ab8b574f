import BlendVault.System.Apr

/-! How accurate the estimated APR is. The exact figure is taken from the same amounts owed and
supplied, on the same curve, without any rounding. What is shown is a few units of the last place
away from it, as many as the slope of the curve and the rate modifier make of one. -/
namespace BlendVault
open FailStop RoundedDivision KinkedCurve Approximation

namespace MarketReserve

/-- What is lent out of the supply, in parts of `scalar7`. -/
def exactUtilization (reserve : MarketReserve) : ℚ :=
  if reserve.liabilities = 0 then 0
  else if reserve.liabilities ≥ reserve.supply then scalar7
  else reserve.liabilities*scalar7/reserve.supply

/-- The borrow rate at `u`, on a curve of three lines. -/
def exactBorrowRate (reserve : MarketReserve) : ℚ → ℚ :=
  join (reserve.util : ℚ)
    (fun u => (exactLeg reserve.util reserve.rOne u+reserve.rBase)*reserve.irMod/scalar7)
    (join (kink : ℚ)
      (fun u => (exactLeg (kink-reserve.util) reserve.rTwo (u-reserve.util)+reserve.rOne+
        reserve.rBase)*reserve.irMod/scalar7)
      (fun u => exactLeg 500000 reserve.rThree (u-kink)+
        reserve.irMod*(reserve.rTwo+reserve.rOne+reserve.rBase)/scalar7))

/-- The supply rate, as what is left of the borrow rate on the part that is lent out. -/
def exactSupplyRate (reserve : MarketReserve) (config : MarketConfig) : ℚ :=
  reserve.exactBorrowRate reserve.exactUtilization*reserve.exactUtilization/scalar7*
    (scalar7-config.bstopRate)/scalar7

/-- What the roundings on each line can add to the borrow rate. -/
def borrowTolerance (reserve : MarketReserve) : ℚ → ℚ :=
  join (reserve.util : ℚ)
    (fun _ => (reserve.rOne/reserve.util+reserve.rOne/scalar7+1)*reserve.irMod/scalar7+1)
    (join (kink : ℚ)
      (fun _ => (reserve.rTwo/(kink-reserve.util)+reserve.rTwo/scalar7+1)*reserve.irMod/scalar7+1)
      (fun _ => reserve.rThree/500000+reserve.rThree/scalar7+1+1))

/-- What they can add to the supply rate, with the rounding of the utilization itself. -/
def tolerance (reserve : MarketReserve) : ℚ :=
  reserve.borrowTolerance reserve.exactUtilization+
    reserve.exactBorrowRate reserve.exactUtilization/scalar7

variable {reserve : MarketReserve} {config : MarketConfig} {u : ℚ}

section Tame
variable (h : reserve.Tame config)
include h

/-- Nothing but rounding up is done to the utilization. -/
theorem Tame.utilization_eq_ceil : reserve.utilization = ⌈reserve.exactUtilization⌉ := by
  have hl := h.liabilities_nonneg
  unfold utilization exactUtilization
  split
  · simp
  · split
    · simp
    · rw [ceilDiv_eq_ceil (by omega)]
      push_cast
      rfl

theorem Tame.exactUtilization_nonneg : 0 ≤ reserve.exactUtilization := by
  have hl : (0 : ℚ) ≤ reserve.liabilities := Int.cast_nonneg h.liabilities_nonneg
  have hs : (0 : ℚ) ≤ reserve.supply := Int.cast_nonneg h.supply_nonneg
  have hc : (0 : ℚ) ≤ scalar7 := Int.cast_nonneg scalar7_pos.le
  unfold exactUtilization
  split
  · exact le_rfl
  · split
    · exact hc
    · exact div_nonneg (mul_nonneg hl hc) hs

theorem Tame.rateToTarget_above (hutil : 0 < (reserve.util : ℤ)) :
    Above ((reserve.rOne/reserve.util+reserve.rOne/scalar7+1)*reserve.irMod/scalar7+1)
      ((exactLeg reserve.util reserve.rOne u+reserve.rBase)*reserve.irMod/scalar7)
      (reserve.rateToTarget ⌈u⌉) := by
  have hleg := leg_above (above_ceil u) scalar7_pos hutil (Int.natCast_nonneg reserve.rOne)
  have hrate := (hleg.add reserve.rBase).scale h.irMod_nonneg scalar7_pos
  simpa only [rateToTarget,Int.cast_natCast,one_mul] using hrate

theorem Tame.rateToKink_above (hroom : 0 < kink-(reserve.util : ℤ)) :
    Above ((reserve.rTwo/(kink-reserve.util)+reserve.rTwo/scalar7+1)*reserve.irMod/scalar7+1)
      ((exactLeg (kink-reserve.util) reserve.rTwo (u-reserve.util)+reserve.rOne+reserve.rBase)*
        reserve.irMod/scalar7) (reserve.rateToKink ⌈u⌉) := by
  have hleg := leg_above ((above_ceil u).sub reserve.util) scalar7_pos hroom
    (Int.natCast_nonneg reserve.rTwo)
  have hrate := ((hleg.add reserve.rOne).add reserve.rBase).scale h.irMod_nonneg scalar7_pos
  simpa only [rateToKink,Int.cast_natCast,Int.cast_sub,one_mul] using hrate

omit h in
/-- The last line starts from a rate that is rounded up by itself. -/
theorem rateBeyond_above : Above (reserve.rThree/500000+reserve.rThree/scalar7+1+1)
    (exactLeg 500000 reserve.rThree (u-kink)+
      reserve.irMod*(reserve.rTwo+reserve.rOne+reserve.rBase)/scalar7)
    (reserve.rateBeyond ⌈u⌉) := by
  have hleg := leg_above ((above_ceil u).sub kink) scalar7_pos (show (0 : ℤ) < 500000 by decide)
    (Int.natCast_nonneg reserve.rThree)
  have hrest := above_ceil
    (((reserve.irMod*((reserve.rTwo+reserve.rOne+reserve.rBase : ℕ) : ℤ) : ℤ) : ℚ)/scalar7)
  rw [← ceilDiv_eq_ceil scalar7_pos] at hrest
  have hrate := hleg.add_above hrest
  unfold rateBeyond
  push_cast at hrate ⊢
  simpa only [one_mul,add_assoc] using hrate

/-- On each line the rate that is computed is at most a little above the exact one. -/
theorem Tame.borrowRate_above (hstart : 0 < (reserve.util : ℤ) ∨ 0 < ⌈u⌉) :
    Above (reserve.borrowTolerance u) (reserve.exactBorrowRate u) (reserve.borrowRate ⌈u⌉) := by
  have hutil : (reserve.util : ℚ) = ((reserve.util : ℤ) : ℚ) := (Int.cast_natCast _).symm
  refine join_above hutil (fun htarget => ?_) fun htarget =>
    join_above rfl (fun hkink => ?_) fun _ => rateBeyond_above
  · apply h.rateToTarget_above
    have hceil : ⌈u⌉ ≤ (reserve.util : ℤ) := Int.ceil_le.mpr (hutil ▸ htarget)
    omega
  · apply h.rateToKink_above
    rw [hutil] at htarget
    exact sub_pos.mpr (Int.cast_lt.mp (htarget.trans_le hkink))

theorem Tame.exactBorrowRate_nonneg (hu : 0 ≤ u) : 0 ≤ reserve.exactBorrowRate u := by
  have hmod : (0 : ℚ) ≤ reserve.irMod := Int.cast_nonneg h.irMod_nonneg
  have hc : (0 : ℚ) ≤ scalar7 := Int.cast_nonneg scalar7_pos.le
  refine le_join (fun _ => ?_) fun htarget => le_join (fun hkink => ?_) fun hkink => ?_
  · have hleg := exactLeg_nonneg (Nat.cast_nonneg (α := ℚ) reserve.util)
      (Nat.cast_nonneg (α := ℚ) reserve.rOne) hu
    positivity
  · have hleg := exactLeg_nonneg (sub_nonneg.mpr (htarget.le.trans hkink))
      (Nat.cast_nonneg (α := ℚ) reserve.rTwo) (sub_nonneg.mpr htarget.le)
    positivity
  · have hleg := exactLeg_nonneg (show (0 : ℚ) ≤ 500000 by norm_num)
      (Nat.cast_nonneg (α := ℚ) reserve.rThree) (sub_nonneg.mpr hkink.le)
    positivity

/-- The supply rate is less than two units too low, and too high by no more than the tolerance. -/
theorem Tame.supplyRate_near (hactive : 0 < (reserve.util : ℤ) ∨ 0 < reserve.liabilities) :
    Near 2 reserve.tolerance (reserve.exactSupplyRate config) (reserve.supplyRate config) := by
  have hu := h.exactUtilization_nonneg
  have hceil := h.utilization_eq_ceil
  have hstart := hactive.imp_right h.utilization_pos_iff.mpr
  rw [hceil] at hstart
  have hrate := h.borrowRate_above hstart
  have hexact := h.exactBorrowRate_nonneg hu
  have hmem := h.utilization_mem.2
  rw [hceil] at hmem
  have hearned := hrate.part (above_ceil _) hexact hu scalar7_pos hmem
  obtain ⟨hkept,hkept'⟩ := h.kept_mem
  have hε : 0 ≤ reserve.tolerance :=
    add_nonneg hrate.pos.le (div_nonneg hexact (Int.cast_nonneg scalar7_pos.le))
  rw [mul_one] at hearned
  have hpart := hearned.part zero_le_one hε hkept scalar7_pos hkept'
  rw [one_add_one_eq_two] at hpart
  unfold supplyRate exactSupplyRate tolerance
  rw [hceil]
  simpa only [Int.cast_sub,Int.cast_natCast] using hpart

end Tame
end MarketReserve

namespace VaultSummary
variable {Address W : Type} [SorobanFixedPoint] {e : Env Address W}
  {market : Address → MarketClient Address W} {f g : Frame Address W} {pool asset admin : Address}
  {v : VaultData} {reserve : MarketReserve} {config : MarketConfig} {s : VaultSummary Address}

/-- The estimate that is shown is accurate. Next to the APR that the same amounts have on the same
curve without any rounding, it is less than two units of the last place too low, and too high by no
more than what the slope of the line, the rate modifier and the rate itself make of one unit. Rounding
the utilization does not take it past the target, the kink or any other whole figure. -/
theorem estApr_accurate (hzero : SorobanFixedPoint.TrapsOnZero)
    (h : Shows e market f pool asset admin v reserve config) (htame : reserve.Tame config)
    (hret : Returns (EntryPoints.getVaultSummary e market) f s g) :
    reserve.exactSupplyRate config-2 < s.estApr ∧
      s.estApr ≤ reserve.exactSupplyRate config+reserve.tolerance ∧
      ∃ u, Returns (curUtil reserve) f u f ∧ u = ⌈reserve.exactUtilization⌉ ∧
        ∀ k : ℤ, u ≤ k ↔ reserve.exactUtilization ≤ k := by
  obtain ⟨hactive,hapr,hcurUtil,-⟩ := h.estApr_eq hzero htame hret
  obtain ⟨hlt,hle⟩ := htame.supplyRate_near hactive
  have hceil := htame.utilization_eq_ceil
  rw [hapr]
  refine ⟨hlt,hle,_,hcurUtil,hceil,fun k => ?_⟩
  rw [hceil]
  exact Int.ceil_le

end VaultSummary

section Sample
attribute [local instance] SorobanFixedPoint.documented
open VaultSummary

/-- At 85% the exact APR is 0.2486250, at most 0.0000007 more is shown, and the rate is taken from the
second line. -/
theorem VaultSummary.estApr_accurate_sample : ∃ s : VaultSummary ℕ,
    Returns (EntryPoints.getVaultSummary (referenceEnv 1500000000000 0 1)
      (referenceMarket (referenceReserve 637500000))) referenceFrame s referenceFrame ∧
    (2486248 : ℚ) < s.estApr ∧ (s.estApr : ℚ) ≤ 2486257 ∧
    ∃ u, Returns (curUtil (referenceReserve 637500000)) referenceFrame u referenceFrame ∧
      (referenceReserve 637500000).util < u ∧ u ≤ kink := by
  have hshows := referenceMarket_shows (referenceReserve 637500000)
  have htame := referenceReserve_tame (show (0 : ℤ) ≤ 637500000 by decide)
  have hret := hshows.returns_load.mpr
    ⟨_,(returns_estimate htame (.inl (by decide))).mpr ⟨⟨by decide,by decide,by decide⟩,rfl,rfl⟩,rfl⟩
  obtain ⟨hlt,hle,u,hcurUtil,-,hsides⟩ := estApr_accurate SorobanFixedPoint.documented_trapsOnZero hshows
    htame hret
  have hexact : (referenceReserve 637500000).exactSupplyRate ⟨1000000⟩ = 2486250 := by decide +kernel
  have htolerance : (referenceReserve 637500000).tolerance ≤ 7 := by decide +kernel
  refine ⟨_,hret,by linarith,by linarith,u,hcurUtil,?_,(hsides kink).mpr (by decide +kernel)⟩
  rw [← not_le,hsides]
  decide +kernel

end Sample
end BlendVault
