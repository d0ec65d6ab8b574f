import Mathlib.Algebra.BigOperators.Group.List.Basic
import Mathlib.Tactic.Linarith
import Mathlib.Tactic.Ring
import BlendVault.Foundations.RoundedDivision

/-! An account that bears interest. It holds whole units whose rate moves; what is put in buys units
at the rate of the day, rounded down, and what is taken out costs units, rounded up. Units may also
come and go as they are. Whatever the dealings, the units come to be worth what went in, less what
went out, plus the interest, short only of the roundings. -/
namespace Accrual
open RoundedDivision

/-- What happens on one day. -/
inductive Dealing
  | putIn (amount : ℤ)
  | takeOut (amount : ℤ)
  | receive (units : ℤ)
  | rest
  deriving Repr, DecidableEq

/-- A day's rate and what happened at it. -/
structure Entry where
  rate : ℤ
  dealing : Dealing
  deriving Repr, DecidableEq

/-- Whole units, and the rate they were last worth. -/
@[ext] structure Account where
  units : ℤ
  rate : ℤ
  deriving Repr, DecidableEq

/-- The amount that went in. -/
def Entry.net (e : Entry) : ℤ :=
  match e.dealing with
  | .putIn amount => amount
  | .takeOut amount => -amount
  | .receive _ => 0
  | .rest => 0

/-- The worth of the units received. -/
def Entry.gift (e : Entry) : ℤ :=
  match e.dealing with
  | .receive units => units*e.rate
  | _ => 0

/-- The most a dealing can lose to its rounding. -/
def Entry.slack (e : Entry) : ℤ :=
  match e.dealing with
  | .putIn _ => e.rate-1
  | .takeOut _ => e.rate-1
  | .receive _ => 0
  | .rest => 0

namespace Account
variable (k : ℤ) (c : Account) (e : Entry) (es : List Entry)

/-- The value of the units, in `k`-ths of the amounts dealt in. -/
def worth : ℤ := c.units*c.rate

/-- The account after an entry. -/
def after : Account :=
  match e.dealing with
  | .putIn amount => ⟨c.units+amount*k/e.rate,e.rate⟩
  | .takeOut amount => ⟨c.units-ceilDiv (amount*k) e.rate,e.rate⟩
  | .receive units => ⟨c.units+units,e.rate⟩
  | .rest => ⟨c.units,e.rate⟩

/-- The account after all of them. -/
def close : List Entry → Account := List.foldl (after k) c

/-- What the units held have gained each time the rate has moved. -/
def interest (k : ℤ) : Account → List Entry → ℤ
  | _, [] => 0
  | c, e :: es => c.units*(e.rate-c.rate)+interest k (c.after k e) es

@[simp] theorem after_rate : (c.after k e).rate = e.rate := by
  unfold after
  cases e.dealing <;> rfl

@[simp] theorem close_nil : close k c [] = c := rfl
@[simp] theorem close_cons : close k c (e :: es) = close k (c.after k e) es := rfl

@[simp] theorem close_concat : close k c (es ++ [e]) = (close k c es).after k e := by
  simp [close]

@[simp] theorem interest_nil : interest k c [] = 0 := rfl

@[simp] theorem interest_cons :
    interest k c (e :: es) = c.units*(e.rate-c.rate)+interest k (c.after k e) es := rfl

variable {k c e es}

/-- One entry loses less than the worth of a unit. -/
theorem after_worth (hr : 0 < e.rate) :
    (c.after k e).worth ≤ k*e.net+e.gift+c.units*(e.rate-c.rate)+c.worth ∧
      k*e.net+e.gift+c.units*(e.rate-c.rate)+c.worth ≤ (c.after k e).worth+e.slack := by
  obtain ⟨r,dealing⟩ := e
  change 0 < r at hr
  cases dealing with
  | putIn a =>
    have hle := ediv_mul_le (a*k) hr
    have hlt := Int.lt_ediv_add_one_mul_self (a*k) hr
    simp only [Entry.net,Entry.gift,Entry.slack,after,worth]
    constructor <;> linarith [add_mul c.units (a*k/r) r,add_mul (a*k/r) 1 r,mul_sub c.units r c.rate]
  | takeOut a =>
    have hle := le_ceilDiv_mul (a*k) hr
    have hlt : (ceilDiv (a*k) r-1)*r < a*k := (lt_ceilDiv_iff hr).mp (sub_one_lt _)
    simp only [Entry.net,Entry.gift,Entry.slack,after,worth]
    constructor <;> linarith [sub_mul c.units (ceilDiv (a*k) r) r,sub_mul (ceilDiv (a*k) r) 1 r,
      mul_sub c.units r c.rate]
  | receive n =>
    simp only [Entry.net,Entry.gift,Entry.slack,after,worth]
    constructor <;> linarith [add_mul c.units n r,mul_sub c.units r c.rate]
  | rest =>
    simp only [Entry.net,Entry.gift,Entry.slack,after,worth]
    constructor <;> linarith [mul_sub c.units r c.rate]

/-- Over any entries at positive rates the worth is what went in with the interest, short of no
more than the roundings. -/
theorem close_worth (hr : ∀ e ∈ es, 0 < e.rate) :
    (close k c es).worth ≤
        k*(es.map Entry.net).sum+(es.map Entry.gift).sum+interest k c es+c.worth ∧
      k*(es.map Entry.net).sum+(es.map Entry.gift).sum+interest k c es+c.worth ≤
        (close k c es).worth+(es.map Entry.slack).sum := by
  induction es generalizing c with
  | nil => simp
  | cons e es ih =>
    obtain ⟨hle,hge⟩ := after_worth (k := k) (c := c) (hr e List.mem_cons_self)
    obtain ⟨ihle,ihge⟩ := @ih (c.after k e) fun e he => hr e (List.mem_cons_of_mem _ he)
    simp only [close_cons,interest_cons,List.map_cons,List.sum_cons,mul_add]
    constructor <;> linarith

end Account
end Accrual
