import BlendVault.Foundations.RoundedDivision

/-! Signed 128-bit amounts, and the fixed-point trait the vault converts with. The trait
comes from another crate, so only its documented behaviour is assumed of it. -/
namespace BlendVault
open RoundedDivision

/-- 1 with 7 decimal places. -/
def scalar7 : ℤ := 10000000

/-- 1 with 12 decimal places. -/
def scalar12 : ℤ := 1000000000000

lemma scalar12_pos : 0 < scalar12 := by decide

def i64Max : ℤ := 9223372036854775807

def i128Max : ℤ := 170141183460469231731687303715884105727

/-- The values an `i128` can hold. -/
def InI128 (x : ℤ) : Prop := -i128Max-1 ≤ x ∧ x ≤ i128Max

instance (x : ℤ) : Decidable (InI128 x) := inferInstanceAs (Decidable (_ ∧ _))

lemma inI128_of_nonneg {x : ℤ} (h : 0 ≤ x) (hx : x ≤ i128Max) : InI128 x :=
  ⟨(by decide : -i128Max-1 ≤ 0).trans h,hx⟩

lemma inI128_of_small {x : ℤ} (h : 0 ≤ x) (hx : x < 2^64) : InI128 x :=
  inI128_of_nonneg h (hx.le.trans (by decide))

/-- The release profile keeps overflow checks on: an operation whose exact result does not
fit has no result. -/
def checked (x : ℤ) : Option ℤ := if InI128 x then some x else none

@[simp] theorem checked_eq_some {x y : ℤ} : checked x = some y ↔ InI128 x ∧ y = x := by
  by_cases h : InI128 x <;> simp [checked,h,eq_comm]

/-- `u32` and `u64` additions trap in the same way. -/
def checkedUnsigned (bits n : ℕ) : Option ℕ := if n < 2^bits then some n else none

@[simp] theorem checkedUnsigned_eq_some {bits n m : ℕ} :
    checkedUnsigned bits n = some m ↔ n < 2^bits ∧ m = n := by
  by_cases h : n < 2^bits <;> simp [checkedUnsigned,h,eq_comm]

/-- `soroban_fixed_point_math::FixedPoint` for `i128`: the exact quotient rounded as the
name says, or nothing when the intermediate product overflows. The second argument is the
trait's `y`, the third its `denominator`. -/
class FixedPoint where
  fixedMulFloor : ℤ → ℤ → ℤ → Option ℤ
  fixedMulCeil : ℤ → ℤ → ℤ → Option ℤ
  fixedDivFloor : ℤ → ℤ → ℤ → Option ℤ
  fixedDivCeil : ℤ → ℤ → ℤ → Option ℤ
  fixedMulFloor_eq : ∀ x y d, 0 < d → fixedMulFloor x y d = (checked (x*y)).map (·/d)
  fixedMulCeil_eq : ∀ x y d, 0 < d → fixedMulCeil x y d = (checked (x*y)).map (ceilDiv · d)
  fixedDivFloor_eq : ∀ x y d, 0 < y → fixedDivFloor x y d = (checked (x*d)).map (·/y)
  fixedDivCeil_eq : ∀ x y d, 0 < y → fixedDivCeil x y d = (checked (x*d)).map (ceilDiv · y)

namespace FixedPoint

/-- The trait as the crate documents it, with nothing returned for other divisors. -/
@[reducible] def documented : FixedPoint where
  fixedMulFloor x y d := if 0 < d then (checked (x*y)).map (·/d) else none
  fixedMulCeil x y d := if 0 < d then (checked (x*y)).map (ceilDiv · d) else none
  fixedDivFloor x y d := if 0 < y then (checked (x*d)).map (·/y) else none
  fixedDivCeil x y d := if 0 < y then (checked (x*d)).map (ceilDiv · y) else none
  fixedMulFloor_eq _ _ _ h := if_pos h
  fixedMulCeil_eq _ _ _ h := if_pos h
  fixedDivFloor_eq _ _ _ h := if_pos h
  fixedDivCeil_eq _ _ _ h := if_pos h

variable [FixedPoint] {x y d z : ℤ}

theorem fixedMulFloor_eq_some (hd : 0 < d) :
    fixedMulFloor x y d = some z ↔ InI128 (x*y) ∧ z = x*y/d := by
  rw [fixedMulFloor_eq _ _ _ hd,Option.map_eq_some_iff]
  simp only [checked_eq_some]
  constructor
  · intro h
    obtain ⟨w,⟨hw,rfl⟩,rfl⟩ := h
    exact ⟨hw,rfl⟩
  · intro h
    obtain ⟨hw,rfl⟩ := h
    exact ⟨_,⟨hw,rfl⟩,rfl⟩

theorem fixedMulCeil_eq_some (hd : 0 < d) :
    fixedMulCeil x y d = some z ↔ InI128 (x*y) ∧ z = ceilDiv (x*y) d := by
  rw [fixedMulCeil_eq _ _ _ hd,Option.map_eq_some_iff]
  simp only [checked_eq_some]
  constructor
  · intro h
    obtain ⟨w,⟨hw,rfl⟩,rfl⟩ := h
    exact ⟨hw,rfl⟩
  · intro h
    obtain ⟨hw,rfl⟩ := h
    exact ⟨_,⟨hw,rfl⟩,rfl⟩

theorem fixedDivFloor_eq_some (hy : 0 < y) :
    fixedDivFloor x y d = some z ↔ InI128 (x*d) ∧ z = x*d/y := by
  rw [fixedDivFloor_eq _ _ _ hy,← fixedMulFloor_eq _ _ _ hy,fixedMulFloor_eq_some hy]

theorem fixedDivCeil_eq_some (hy : 0 < y) :
    fixedDivCeil x y d = some z ↔ InI128 (x*d) ∧ z = ceilDiv (x*d) y := by
  rw [fixedDivCeil_eq _ _ _ hy,← fixedMulCeil_eq _ _ _ hy,fixedMulCeil_eq_some hy]

end FixedPoint
end BlendVault
