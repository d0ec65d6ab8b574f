import Mathlib.Algebra.Order.Group.Defs
import Mathlib.Algebra.BigOperators.Group.List.Basic
import Mathlib.Tactic.Abel
import Mathlib.Tactic.Linarith

/-! Delegated spending. A grant lets an amount be drawn until some time and replaces the
grant before it; each draw is taken off the grant in force. -/
namespace Delegation

/-- An amount to be drawn at `expires` at the latest. -/
structure Grant (T V : Type*) where
  amount : V
  expires : T
  deriving Repr, DecidableEq

/-- What happens to a delegation. -/
inductive Act (T V : Type*)
  | grant (g : Grant T V)
  | draw (time : T) (amount : V)
  deriving Repr, DecidableEq

variable {T V : Type*}

def Act.granted : Act T V → Option (Grant T V)
  | .grant g => some g
  | .draw _ _ => none

def Act.drawn [Zero V] : Act T V → V
  | .grant _ => 0
  | .draw _ n => n

/-- The last of the grants. -/
def lastGrant (acts : List (Act T V)) : Option (Grant T V) := acts.reverse.findSome? Act.granted

/-- The draws after the last grant, the latest first. -/
def since (acts : List (Act T V)) : List (Act T V) :=
  acts.reverse.takeWhile fun a => a.granted.isNone

/-- What has been drawn since the last grant. -/
def drawn [AddMonoid V] (acts : List (Act T V)) : V := ((since acts).map Act.drawn).sum

/-- What may still be drawn at `time`. -/
def left [LE T] [DecidableLE T] [AddGroup V] (acts : List (Act T V)) (time : T) : V :=
  match lastGrant acts with
  | none => 0
  | some g => if time ≤ g.expires then g.amount-drawn acts else 0

section Append
variable {acts : List (Act T V)} {g : Grant T V} {t : T} {n : V}

@[simp] theorem lastGrant_nil : lastGrant ([] : List (Act T V)) = none := rfl
@[simp] theorem since_nil : since ([] : List (Act T V)) = [] := rfl

@[simp] theorem lastGrant_grant : lastGrant (acts ++ [.grant g]) = some g := by
  simp [lastGrant,List.findSome?,Act.granted]

@[simp] theorem since_grant : since (acts ++ [.grant g]) = [] := by
  simp [since,Act.granted]

@[simp] theorem lastGrant_draw : lastGrant (acts ++ [.draw t n]) = lastGrant acts := by
  simp [lastGrant,List.findSome?,Act.granted]

@[simp] theorem since_draw : since (acts ++ [.draw t n]) = .draw t n :: since acts := by
  simp [since,Act.granted]

@[simp] theorem drawn_nil [AddMonoid V] : drawn ([] : List (Act T V)) = 0 := rfl

@[simp] theorem drawn_grant [AddMonoid V] : drawn (acts ++ [.grant g]) = 0 := by simp [drawn]

@[simp] theorem drawn_draw [AddMonoid V] : drawn (acts ++ [.draw t n]) = n+drawn acts := by
  simp [drawn,Act.drawn]

end Append

section Kept
variable [LE T] [DecidableLE T] [AddCommGroup V] [LinearOrder V] [IsOrderedAddMonoid V]
  {acts : List (Act T V)} {g : Grant T V} {t : T} {n : V}

/-- Every draw was positive and covered by what was left when it was made. -/
inductive Kept : List (Act T V) → Prop
  | nil : Kept []
  | grant {acts : List (Act T V)} (kept : Kept acts) (g : Grant T V) : Kept (acts ++ [.grant g])
  | draw {acts : List (Act T V)} {t : T} {n : V} (kept : Kept acts) (pos : 0 < n)
      (covered : n ≤ left acts t) : Kept (acts ++ [.draw t n])

omit [IsOrderedAddMonoid V] in
/-- Something can be drawn only from an unexpired grant that still has as much. -/
theorem grant_of_covered (hpos : 0 < n) (h : n ≤ left acts t) :
    ∃ g, lastGrant acts = some g ∧ t ≤ g.expires ∧ n ≤ g.amount-drawn acts := by
  unfold left at h
  cases hlast : lastGrant acts with
  | none =>
    rw [hlast] at h
    exact absurd h hpos.not_ge
  | some g =>
    rw [hlast] at h
    dsimp only at h
    by_cases ht : t ≤ g.expires
    · rw [if_pos ht] at h
      exact ⟨g,rfl,ht,h⟩
    · rw [if_neg ht] at h
      exact absurd h hpos.not_ge

/-- No more is drawn than was granted. -/
theorem Kept.drawn_le (h : Kept acts) (hg : lastGrant acts = some g) :
    drawn acts ≤ max 0 g.amount := by
  induction h with
  | nil => cases hg
  | grant _ g' => rw [drawn_grant]; exact le_max_left _ _
  | draw _ hpos hcovered _ =>
    rw [lastGrant_draw] at hg
    obtain ⟨g',hg',-,hle⟩ := grant_of_covered hpos hcovered
    cases hg.symm.trans hg'
    rw [drawn_draw]
    exact (le_sub_iff_add_le.mp hle).trans (le_max_right _ _)

omit [IsOrderedAddMonoid V] in
/-- Nothing is drawn before the first grant. -/
theorem Kept.since_eq_nil (h : Kept acts) (hg : lastGrant acts = none) : since acts = [] := by
  induction h with
  | nil => rfl
  | grant _ g => exact since_grant
  | draw _ hpos hcovered _ =>
    rw [lastGrant_draw] at hg
    obtain ⟨g,hg',-,-⟩ := grant_of_covered hpos hcovered
    cases hg.symm.trans hg'

omit [IsOrderedAddMonoid V] in
/-- Nothing is drawn once the grant has expired. -/
theorem Kept.unexpired (h : Kept acts) (hg : lastGrant acts = some g) :
    ∀ t n, Act.draw t n ∈ since acts → t ≤ g.expires := by
  induction h with
  | nil => cases hg
  | grant _ g' => simp
  | draw _ hpos hcovered ih =>
    rw [lastGrant_draw] at hg
    obtain ⟨g',hg',ht,-⟩ := grant_of_covered hpos hcovered
    cases hg.symm.trans hg'
    intro t' n' hmem
    rw [since_draw] at hmem
    rcases List.mem_cons.mp hmem with heq | hmem
    · cases heq
      exact ht
    · exact ih hg t' n' hmem

/-- The most that can be drawn on what was granted. -/
def Act.ceiling : Act T V → V
  | .grant g => max 0 g.amount
  | .draw _ _ => 0

/-- What may still be drawn on the last grant, unless it expires. -/
def remaining (acts : List (Act T V)) : V :=
  ((lastGrant acts).map fun g => max 0 (g.amount-drawn acts)).getD 0

omit [LE T] [DecidableLE T] [IsOrderedAddMonoid V] in
theorem remaining_of_lastGrant (hg : lastGrant acts = some g) :
    remaining acts = max 0 (g.amount-drawn acts) := by
  rw [remaining,hg]
  rfl

omit [LE T] [DecidableLE T] [IsOrderedAddMonoid V] in
theorem remaining_nonneg (acts : List (Act T V)) : 0 ≤ remaining acts := by
  unfold remaining
  cases lastGrant acts with
  | none => exact le_rfl
  | some g => exact le_max_left _ _

/-- All that has ever been drawn, with what may still be, comes to at most what was granted. -/
theorem Kept.total_drawn_le (h : Kept acts) :
    (acts.map Act.drawn).sum+remaining acts ≤ (acts.map Act.ceiling).sum := by
  induction h with
  | nil => simp [remaining]
  | @grant acts _ g ih =>
    have hremaining : remaining (acts ++ [.grant g]) = max 0 g.amount := by
      rw [remaining_of_lastGrant lastGrant_grant,drawn_grant,sub_zero]
    have hle : (acts.map Act.drawn).sum ≤ (acts.map Act.ceiling).sum :=
      (le_add_of_nonneg_right (remaining_nonneg acts)).trans ih
    simp only [List.map_append,List.map_cons,List.map_nil,List.sum_append,List.sum_cons,List.sum_nil,
      add_zero,hremaining,Act.drawn,Act.ceiling]
    exact add_le_add hle le_rfl
  | @draw acts t n _ hpos hcovered ih =>
    obtain ⟨g,hg,-,hle⟩ := grant_of_covered hpos hcovered
    have hold : remaining acts = g.amount-drawn acts := by
      rw [remaining_of_lastGrant hg]
      exact max_eq_right (hpos.le.trans hle)
    have hnew : remaining (acts ++ [.draw t n]) = g.amount-drawn acts-n := by
      rw [remaining_of_lastGrant (lastGrant_draw.trans hg),drawn_draw,add_comm n,← sub_sub]
      exact max_eq_right (sub_nonneg.mpr hle)
    simp only [List.map_append,List.map_cons,List.map_nil,List.sum_append,List.sum_cons,List.sum_nil,
      add_zero,hnew,Act.drawn,Act.ceiling]
    rw [hold] at ih
    calc
      (acts.map Act.drawn).sum+n+(g.amount-drawn acts-n) =
          (acts.map Act.drawn).sum+(g.amount-drawn acts) := by abel
      _ ≤ (acts.map Act.ceiling).sum := ih

end Kept
end Delegation
