import BlendVault.Contract.Summary
import BlendVault.Foundations.KinkedCurve

/-! The rates of a reserve, as exact figures. The borrow rate is a curve with two kinks over the
utilization; it rises throughout, and so does the supply rate that is taken from it. -/
namespace BlendVault
open RoundedDivision KinkedCurve

theorem scalar7_pos : 0 < scalar7 := by decide

/-- Utilization beyond which the borrow rate takes its last leg. -/
def kink : ℤ := 9500000

namespace MarketReserve

/-- What is owed to the reserve. -/
def liabilities (reserve : MarketReserve) : ℤ := ceilDiv (reserve.dSupply*reserve.dRate) scalar12

/-- What has been supplied to the reserve. -/
def supply (reserve : MarketReserve) : ℤ := reserve.bSupply*reserve.bRate/scalar12

def utilization (reserve : MarketReserve) : ℤ :=
  if reserve.liabilities = 0 then 0
  else if reserve.liabilities ≥ reserve.supply then scalar7
  else ceilDiv (reserve.liabilities*scalar7) reserve.supply

/-- The borrow rate on each of the three legs. -/
def rateToTarget (reserve : MarketReserve) (u : ℤ) : ℤ :=
  ceilDiv ((leg scalar7 reserve.util reserve.rOne u+reserve.rBase)*reserve.irMod) scalar7

def rateToKink (reserve : MarketReserve) (u : ℤ) : ℤ :=
  ceilDiv ((leg scalar7 (kink-reserve.util) reserve.rTwo (u-reserve.util)+reserve.rOne+
    reserve.rBase)*reserve.irMod) scalar7

def rateBeyond (reserve : MarketReserve) (u : ℤ) : ℤ :=
  leg scalar7 500000 reserve.rThree (u-kink)+
    ceilDiv (reserve.irMod*((reserve.rTwo+reserve.rOne+reserve.rBase : ℕ) : ℤ)) scalar7

/-- The borrow rate at a utilization of `u`. -/
def borrowRate (reserve : MarketReserve) : ℤ → ℤ :=
  join (reserve.util : ℤ) reserve.rateToTarget (join kink reserve.rateToKink reserve.rateBeyond)

/-- The supply rate: the borrow rate on what is lent out, less the backstop's part. -/
def supplyRate (reserve : MarketReserve) (config : MarketConfig) : ℤ :=
  reserve.borrowRate reserve.utilization*reserve.utilization/scalar7*(scalar7-config.bstopRate)/
    scalar7

/-- A configuration the pool can have, over supplies and rates that are not negative. -/
structure Tame (reserve : MarketReserve) (config : MarketConfig) : Prop where
  bSupply_nonneg : 0 ≤ reserve.bSupply
  bRate_nonneg : 0 ≤ reserve.bRate
  dSupply_nonneg : 0 ≤ reserve.dSupply
  dRate_nonneg : 0 ≤ reserve.dRate
  irMod_nonneg : 0 ≤ reserve.irMod
  util_le : (reserve.util : ℤ) ≤ kink
  rates_lt : reserve.rBase+reserve.rOne+reserve.rTwo < 2^32
  bstop_le : (config.bstopRate : ℤ) ≤ scalar7

/-- The same with rates that are positive. -/
structure Sane (reserve : MarketReserve) (config : MarketConfig) : Prop
    extends Tame reserve config where
  bRate_pos : 0 < reserve.bRate
  dRate_pos : 0 < reserve.dRate

/-- Two reserves that are configured alike, with the same rate modifier. -/
structure SameCurve (reserve reserve' : MarketReserve) : Prop where
  util : reserve.util = reserve'.util
  rBase : reserve.rBase = reserve'.rBase
  rOne : reserve.rOne = reserve'.rOne
  rTwo : reserve.rTwo = reserve'.rTwo
  rThree : reserve.rThree = reserve'.rThree
  irMod : reserve.irMod = reserve'.irMod

/-- The magnitudes the computation goes through fit. -/
structure Fits (reserve : MarketReserve) : Prop where
  liabilities : reserve.liabilities ≤ i128Max
  supply : reserve.supply ≤ i128Max
  borrowRate : reserve.borrowRate reserve.utilization ≤ i128Max

variable {reserve reserve' : MarketReserve} {config : MarketConfig} {u u' : ℤ}

section Tame
variable (h : reserve.Tame config)
include h

theorem Tame.liabilities_nonneg : 0 ≤ reserve.liabilities :=
  ceilDiv_nonneg scalar12_pos (mul_nonneg h.dSupply_nonneg h.dRate_nonneg)

theorem Tame.supply_nonneg : 0 ≤ reserve.supply :=
  ediv_nonneg_of_pos scalar12_pos (mul_nonneg h.bSupply_nonneg h.bRate_nonneg)

/-- Utilization lies between nothing and everything. -/
theorem Tame.utilization_mem : 0 ≤ reserve.utilization ∧ reserve.utilization ≤ scalar7 := by
  have hl := h.liabilities_nonneg
  unfold utilization
  split
  · exact ⟨le_rfl,scalar7_pos.le⟩
  · split
    · exact ⟨scalar7_pos.le,le_rfl⟩
    · have hs : 0 < reserve.supply := by omega
      exact ⟨ceilDiv_nonneg hs (mul_nonneg hl scalar7_pos.le),part_le scalar7_pos hs (by omega)⟩

/-- Nothing is lent out exactly when nothing is owed. -/
theorem Tame.utilization_pos_iff : 0 < reserve.utilization ↔ 0 < reserve.liabilities := by
  have hl := h.liabilities_nonneg
  unfold utilization
  split
  · omega
  · refine iff_of_true ?_ (by omega)
    split
    · exact scalar7_pos
    · exact ceilDiv_pos (by omega) (mul_pos (by omega) scalar7_pos)

theorem Tame.rateBeyond_nonneg (hu : kink ≤ u) : 0 ≤ reserve.rateBeyond u ∧
    0 ≤ leg scalar7 500000 reserve.rThree (u-kink) ∧
    0 ≤ ceilDiv (reserve.irMod*((reserve.rTwo+reserve.rOne+reserve.rBase : ℕ) : ℤ)) scalar7 := by
  have hleg := leg_nonneg scalar7_pos (show (0 : ℤ) < 500000 by decide)
    (Int.natCast_nonneg reserve.rThree) (sub_nonneg.mpr hu)
  have hrest := ceilDiv_nonneg scalar7_pos
    (mul_nonneg h.irMod_nonneg (Int.natCast_nonneg (reserve.rTwo+reserve.rOne+reserve.rBase)))
  exact ⟨add_nonneg hleg hrest,hleg,hrest⟩

/-- A higher base is a higher rate. -/
theorem Tame.scaled_mono {x y : ℤ} (hxy : x ≤ y) :
    ceilDiv (x*reserve.irMod) scalar7 ≤ ceilDiv (y*reserve.irMod) scalar7 :=
  ceilDiv_mono scalar7_pos (mul_le_mul_of_nonneg_right hxy h.irMod_nonneg)

theorem Tame.scaled_nonneg {x : ℤ} (hx : 0 ≤ x) : 0 ≤ ceilDiv (x*reserve.irMod) scalar7 :=
  ceilDiv_nonneg scalar7_pos (mul_nonneg hx h.irMod_nonneg)

/-- The rate reached at the kink, from which the last leg starts. -/
theorem Tame.rateToKink_le (hutil : (reserve.util : ℤ) < u) (hu : u ≤ kink) :
    reserve.rateToKink u ≤
      ceilDiv (reserve.irMod*((reserve.rTwo+reserve.rOne+reserve.rBase : ℕ) : ℤ)) scalar7 := by
  have hleg := leg_le (x := u-reserve.util) scalar7_pos (sub_pos.mpr (hutil.trans_le hu))
    (Int.natCast_nonneg reserve.rTwo) (sub_le_sub_right hu _)
  rw [mul_comm reserve.irMod]
  apply h.scaled_mono
  push_cast
  linarith

/-- Below the target the rate is at most what the other two legs start from. -/
theorem Tame.rateToTarget_le (hutil : 0 < (reserve.util : ℤ)) (hu : u ≤ reserve.util) {rest : ℤ}
    (hrest : 0 ≤ rest) :
    reserve.rateToTarget u ≤ ceilDiv ((rest+reserve.rOne+reserve.rBase)*reserve.irMod) scalar7 := by
  have hleg := leg_le scalar7_pos hutil (Int.natCast_nonneg reserve.rOne) hu
  apply h.scaled_mono
  linarith

/-- The borrow rate never falls, over the kinks either. -/
theorem Tame.borrowRate_mono (hstart : 0 < (reserve.util : ℤ) ∨ 0 < u) (hle : u ≤ u') :
    reserve.borrowRate u ≤ reserve.borrowRate u' := by
  have hutil : u ≤ reserve.util → 0 < (reserve.util : ℤ) := by
    intro hu
    omega
  apply join_le_join hle
  · intro hu'
    apply h.scaled_mono
    exact add_le_add_left (leg_mono scalar7_pos (hutil (hle.trans hu'))
      (Int.natCast_nonneg reserve.rOne) hle) _
  · intro hu hu'
    refine le_join (fun hkink => ?_) fun hkink => ?_
    · exact h.rateToTarget_le (hutil hu) hu (leg_nonneg scalar7_pos
        (sub_pos.mpr (hu'.trans_le hkink)) (Int.natCast_nonneg reserve.rTwo)
        (sub_nonneg.mpr hu'.le))
    · have hbeyond := (h.rateBeyond_nonneg hkink.le).2.1
      have hat := h.rateToTarget_le (hutil hu) hu (Int.natCast_nonneg reserve.rTwo)
      rw [mul_comm] at hat
      unfold rateBeyond
      push_cast
      linarith
  · intro hu
    apply join_le_join hle
    · intro hu'
      apply h.scaled_mono
      have hleg := leg_mono scalar7_pos (sub_pos.mpr ((hu.trans_le hle).trans_le hu'))
        (Int.natCast_nonneg reserve.rTwo) (sub_le_sub_right hle (reserve.util : ℤ))
      linarith
    · intro hkink hkink'
      have hbeyond := (h.rateBeyond_nonneg hkink'.le).2.1
      have hat := h.rateToKink_le hu hkink
      unfold rateBeyond
      linarith
    · intro hkink
      have hleg := leg_mono scalar7_pos (show (0 : ℤ) < 500000 by decide)
        (Int.natCast_nonneg reserve.rThree) (sub_le_sub_right hle kink)
      exact add_le_add_left hleg _

theorem Tame.borrowRate_nonneg (hstart : 0 < (reserve.util : ℤ) ∨ 0 < u) (hu : 0 ≤ u) :
    0 ≤ reserve.borrowRate u := by
  refine le_join (fun hle => ?_) fun hlt => le_join (fun hle => ?_) fun hkink => ?_
  · have hleg := leg_nonneg scalar7_pos (show 0 < (reserve.util : ℤ) by omega)
      (Int.natCast_nonneg reserve.rOne) hu
    exact h.scaled_nonneg (add_nonneg hleg (Int.natCast_nonneg _))
  · have hleg := leg_nonneg scalar7_pos (sub_pos.mpr (hlt.trans_le hle))
      (Int.natCast_nonneg reserve.rTwo) (sub_nonneg.mpr hlt.le)
    exact h.scaled_nonneg
      (add_nonneg (add_nonneg hleg (Int.natCast_nonneg _)) (Int.natCast_nonneg _))
  · exact (h.rateBeyond_nonneg hkink.le).1

end Tame

/-- A part of an amount is none of it or some of it. -/
theorem part_mem {x y : ℤ} (hx : 0 ≤ x) (hy : 0 ≤ y) (hle : y ≤ scalar7) :
    0 ≤ x*y/scalar7 ∧ x*y/scalar7 ≤ x :=
  ⟨ediv_nonneg_of_pos scalar7_pos (mul_nonneg hx hy),
    Int.ediv_le_of_le_mul scalar7_pos (mul_le_mul_of_nonneg_left hle hx)⟩

theorem Tame.kept_mem (h : reserve.Tame config) :
    0 ≤ scalar7-(config.bstopRate : ℤ) ∧ scalar7-(config.bstopRate : ℤ) ≤ scalar7 := by
  have hbstop := h.bstop_le
  omega

/-- More owed against less supplied is a higher utilization. -/
theorem utilization_mono (h : 0 ≤ reserve.liabilities) (h' : reserve'.Tame config)
    (hl : reserve.liabilities ≤ reserve'.liabilities) (hs : reserve'.supply ≤ reserve.supply) :
    reserve.utilization ≤ reserve'.utilization := by
  have hmem := h'.utilization_mem
  have hnone : reserve.liabilities = 0 → reserve.utilization = 0 := fun h0 => if_pos h0
  rcases h.eq_or_lt with h0 | hpos
  · rw [hnone h0.symm]
    exact hmem.1
  · have hpos' : 0 < reserve'.liabilities := hpos.trans_le hl
    unfold utilization
    rw [if_neg hpos.ne',if_neg hpos'.ne']
    by_cases hall' : reserve'.liabilities ≥ reserve'.supply
    · rw [if_pos hall']
      split
      · exact le_rfl
      · exact part_le scalar7_pos (by omega) (by omega)
    · rw [if_neg hall',if_neg (by omega)]
      exact ceilDiv_le_ceilDiv (by omega) hs (mul_nonneg hpos'.le scalar7_pos.le)
        (mul_le_mul_of_nonneg_right hl scalar7_pos.le)

theorem SameCurve.borrowRate_eq (h : reserve.SameCurve reserve') :
    reserve.borrowRate = reserve'.borrowRate := by
  obtain ⟨bSupply,bRate,dSupply,dRate,irMod,util,rBase,rOne,rTwo,rThree⟩ := reserve
  obtain ⟨hutil,hrBase,hrOne,hrTwo,hrThree,hirMod⟩ := h
  dsimp only at *
  subst_vars
  rfl

/-- The supply rate is a part of the borrow rate. -/
theorem Tame.supplyRate_mem (h : reserve.Tame config)
    (hactive : 0 < (reserve.util : ℤ) ∨ 0 < reserve.liabilities) :
    0 ≤ reserve.supplyRate config ∧
      reserve.supplyRate config ≤ reserve.borrowRate reserve.utilization := by
  obtain ⟨hu,hle⟩ := h.utilization_mem
  have hrate := h.borrowRate_nonneg (hactive.imp_right h.utilization_pos_iff.mpr) hu
  obtain ⟨hearned,hearned'⟩ := part_mem hrate hu hle
  obtain ⟨hkept,hkept'⟩ := h.kept_mem
  obtain ⟨hapr,hapr'⟩ := part_mem hearned hkept hkept'
  exact ⟨hapr,hapr'.trans hearned'⟩

/-- More owed against less supplied is a higher supply rate. -/
theorem supplyRate_mono (h : reserve.Tame config) (h' : reserve'.Tame config)
    (hcurve : reserve.SameCurve reserve')
    (hactive : 0 < (reserve.util : ℤ) ∨ 0 < reserve.liabilities)
    (hl : reserve.liabilities ≤ reserve'.liabilities) (hs : reserve'.supply ≤ reserve.supply) :
    reserve.supplyRate config ≤ reserve'.supplyRate config := by
  have hu := h.utilization_mem.1
  have hmono := utilization_mono h.liabilities_nonneg h' hl hs
  have hstart : 0 < (reserve.util : ℤ) ∨ 0 < reserve.utilization :=
    hactive.imp_right h.utilization_pos_iff.mpr
  have hrate : reserve.borrowRate reserve.utilization ≤
      reserve'.borrowRate reserve'.utilization := by
    rw [← hcurve.borrowRate_eq]
    exact h.borrowRate_mono hstart hmono
  have hrate' := (h.borrowRate_nonneg hstart hu).trans hrate
  apply Int.ediv_le_ediv scalar7_pos
  apply mul_le_mul_of_nonneg_right _ h.kept_mem.1
  apply Int.ediv_le_ediv scalar7_pos
  exact mul_le_mul hrate hmono hu hrate'

end MarketReserve

end BlendVault
