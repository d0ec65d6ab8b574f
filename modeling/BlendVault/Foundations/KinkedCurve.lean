import BlendVault.Foundations.Approximation

/-! Curves with kinks. Two curves joined at a kink rise throughout when each of them does and
the second never lies below the first. The legs are lines in whole numbers, rounded up twice; since
the kinks are whole numbers too, rounding up moves no point over a kink. -/
namespace KinkedCurve
open RoundedDivision Approximation

section Join
variable {α β : Type*} [LinearOrder α] [Preorder β] {k x y : α} {f g : α → β} {b : β}

/-- The curve `f` up to the kink `k` and `g` beyond it. -/
def join (k : α) (f g : α → β) (x : α) : β := if x ≤ k then f x else g x

omit [Preorder β] in
theorem join_of_le (h : x ≤ k) : join k f g x = f x := if_pos h

omit [Preorder β] in
theorem join_of_lt (h : k < x) : join k f g x = g x := if_neg (not_le.mpr h)

theorem le_join (hf : x ≤ k → b ≤ f x) (hg : k < x → b ≤ g x) : b ≤ join k f g x := by
  rcases le_or_gt x k with hx | hx
  · rw [join_of_le hx]
    exact hf hx
  · rw [join_of_lt hx]
    exact hg hx

/-- Between two points the curve rises if either piece does and none falls at the kink. -/
theorem join_le_join (hxy : x ≤ y) (hf : y ≤ k → f x ≤ f y)
    (hkink : x ≤ k → k < y → f x ≤ g y) (hg : k < x → g x ≤ g y) :
    join k f g x ≤ join k f g y := by
  rcases le_or_gt y k with hy | hy
  · rw [join_of_le (hxy.trans hy),join_of_le hy]
    exact hf hy
  · rw [join_of_lt hy]
    rcases le_or_gt x k with hx | hx
    · rw [join_of_le hx]
      exact hkink hx hy
    · rw [join_of_lt hx]
      exact hg hx

end Join

section Leg
variable {scale run rise x y : ℤ}

/-- How far `x` is along `run`, in parts of `scale`, and that part of `rise`. -/
def leg (scale run rise x : ℤ) : ℤ := ceilDiv (ceilDiv (x*scale) run*rise) scale

theorem leg_nonneg (hs : 0 < scale) (hrun : 0 < run) (hrise : 0 ≤ rise) (hx : 0 ≤ x) :
    0 ≤ leg scale run rise x :=
  ceilDiv_nonneg hs (mul_nonneg (ceilDiv_nonneg hrun (mul_nonneg hx hs.le)) hrise)

theorem leg_mono (hs : 0 < scale) (hrun : 0 < run) (hrise : 0 ≤ rise) (h : x ≤ y) :
    leg scale run rise x ≤ leg scale run rise y := by
  apply ceilDiv_mono hs
  apply mul_le_mul_of_nonneg_right _ hrise
  exact ceilDiv_mono hrun (mul_le_mul_of_nonneg_right h hs.le)

/-- No point of the run is further along than its end. -/
theorem part_le (hs : 0 < scale) (hrun : 0 < run) (hx : x ≤ run) :
    ceilDiv (x*scale) run ≤ scale := by
  apply (ceilDiv_le_iff hrun).mpr
  rw [mul_comm scale]
  exact mul_le_mul_of_nonneg_right hx hs.le

/-- A leg ends at its rise. -/
theorem leg_le (hs : 0 < scale) (hrun : 0 < run) (hrise : 0 ≤ rise) (hx : x ≤ run) :
    leg scale run rise x ≤ rise := by
  apply (ceilDiv_le_iff hs).mpr
  rw [mul_comm rise]
  exact mul_le_mul_of_nonneg_right (part_le hs hrun hx) hrise

/-- The leg without rounding. -/
def exactLeg (run rise x : ℚ) : ℚ := x/run*rise

theorem exactLeg_nonneg {run rise x : ℚ} (hrun : 0 ≤ run) (hrise : 0 ≤ rise) (hx : 0 ≤ x) :
    0 ≤ exactLeg run rise x := mul_nonneg (div_nonneg hx hrun) hrise

/-- A leg is too high by what its slope makes of the error, and its two roundings. -/
theorem leg_above {ε q : ℚ} {n : ℤ} (h : Above ε q n) (hs : 0 < scale) (hrun : 0 < run)
    (hrise : 0 ≤ rise) :
    Above (ε*rise/run+rise/scale+1) (exactLeg run rise q) (leg scale run rise n) := by
  have hs' : (scale : ℚ) ≠ 0 := (Int.cast_pos.mpr hs).ne'
  have hrun' : (run : ℚ) ≠ 0 := (Int.cast_pos.mpr hrun).ne'
  have hleg := (h.scale hs.le hrun).scale hrise hs
  have hexact : q*scale/run*rise/scale = exactLeg run rise q := by
    unfold exactLeg
    field_simp
  have herror : (ε*scale/run+1)*rise/scale+1 = ε*rise/run+rise/scale+1 := by
    field_simp
  rwa [hexact,herror] at hleg

/-- The ceiling of a point lies on the same leg. -/
theorem join_above {f' g' : ℤ → ℤ} {f g δ ε : ℚ → ℚ} {k : ℤ} {c q : ℚ} (hc : c = k)
    (hf : q ≤ c → Above (δ q) (f q) (f' ⌈q⌉)) (hg : c < q → Above (ε q) (g q) (g' ⌈q⌉)) :
    Above (join c δ ε q) (join c f g q) (join k f' g' ⌈q⌉) := by
  rcases le_or_gt q c with hq | hq
  · rw [join_of_le hq,join_of_le hq,join_of_le (Int.ceil_le.mpr (hc ▸ hq))]
    exact hf hq
  · rw [join_of_lt hq,join_of_lt hq,join_of_lt (Int.lt_ceil.mpr (hc ▸ hq))]
    exact hg hq

end Leg

end KinkedCurve
