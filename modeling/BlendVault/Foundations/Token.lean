import BlendVault.Foundations.Delegation

/-! A token: who holds how much, and who lets whom spend it. Units come and go by minting and burning;
whoever spends another's units draws on a grant. What the units stand for is not its business. -/
namespace Token
open Delegation

structure State (A T : Type*) where
  balance : A → ℤ
  grant : A → A → Option (Grant T ℤ)

inductive Op (A T : Type*)
  | mint (to_ : A) (n : ℤ)
  | burn (from_ : A) (n : ℤ)
  | burnFrom (spender from_ : A) (n : ℤ)
  | transfer (from_ to_ : A) (n : ℤ)
  | transferFrom (spender from_ to_ : A) (n : ℤ)
  | approve (from_ spender : A) (g : Grant T ℤ)
  deriving Repr, DecidableEq

namespace State
variable {A T : Type*}

/-- Before anything has been minted or granted. -/
def blank : State A T := ⟨fun _ => 0,fun _ _ => none⟩

section Updates
variable [DecidableEq A]

def add (s : State A T) (a : A) (n : ℤ) : State A T :=
  {s with balance := fun b => if b = a then s.balance a+n else s.balance b}

/-- Take `n` off a grant. -/
def spend (s : State A T) (from_ spender : A) (n : ℤ) : State A T :=
  {s with grant := fun f p =>
    if f = from_ ∧ p = spender then (s.grant from_ spender).map fun g => ⟨g.amount-n,g.expires⟩
    else s.grant f p}

/-- A grant replaces the one before it. -/
def permit (s : State A T) (from_ spender : A) (g : Grant T ℤ) : State A T :=
  {s with grant := fun f p => if f = from_ ∧ p = spender then some g else s.grant f p}

theorem permit_grant (s : State A T) (from_ spender f p : A) (g : Grant T ℤ) :
    (s.permit from_ spender g).grant f p =
      if f = from_ ∧ p = spender then some g else s.grant f p := rfl

/-- A draw is a grant of what is left. -/
theorem spend_eq_permit {s : State A T} {from_ spender : A} {g : Grant T ℤ}
    (hg : s.grant from_ spender = some g) (n : ℤ) :
    s.spend from_ spender n = s.permit from_ spender ⟨g.amount-n,g.expires⟩ := by
  simp [spend,permit,hg]

/-- What is spent on a grant only lowers it. -/
theorem grant_le_of_spend {s : State A T} {from_ spender : A} {n bound : ℤ} (hpos : 0 < n)
    (hs : ∀ f p g, s.grant f p = some g → g.amount ≤ bound) :
    ∀ f p g, (s.spend from_ spender n).grant f p = some g → g.amount ≤ bound := by
  intro f p g hg
  by_cases hkey : f = from_ ∧ p = spender
  · simp only [spend,if_pos hkey,Option.map_eq_some_iff] at hg
    obtain ⟨g',hg',rfl⟩ := hg
    have hle := hs _ _ _ hg'
    dsimp only
    omega
  · simp only [spend,if_neg hkey] at hg
    exact hs f p g hg

theorem grant_le_of_permit {s : State A T} {from_ spender : A} {g : Grant T ℤ} {bound : ℤ}
    (hg : g.amount ≤ bound) (hs : ∀ f p g, s.grant f p = some g → g.amount ≤ bound) :
    ∀ f p g', (s.permit from_ spender g).grant f p = some g' → g'.amount ≤ bound := by
  intro f p g' hg'
  rw [permit_grant] at hg'
  by_cases hkey : f = from_ ∧ p = spender
  · rw [if_pos hkey] at hg'
    cases hg'
    exact hg
  · rw [if_neg hkey] at hg'
    exact hs f p g' hg'

end Updates

variable [LE T] [DecidableLE T]

/-- What `spender` may spend of `from_` at `now`. -/
def allowed (s : State A T) (from_ spender : A) (now : T) : ℤ :=
  match s.grant from_ spender with
  | none => 0
  | some g => if now ≤ g.expires then g.amount else 0

/-- Something can be spent only on a grant that has not expired. -/
theorem grant_of_allowed {s : State A T} {from_ spender : A} {now : T} {n : ℤ} (hpos : 0 < n)
    (h : n ≤ s.allowed from_ spender now) :
    ∃ g, s.grant from_ spender = some g ∧ now ≤ g.expires ∧ n ≤ g.amount := by
  unfold allowed at h
  cases hg : s.grant from_ spender with
  | none =>
    rw [hg] at h
    exact absurd h (not_le.mpr hpos)
  | some g =>
    rw [hg] at h
    dsimp only at h
    by_cases hnow : now ≤ g.expires
    · rw [if_pos hnow] at h
      exact ⟨g,rfl,hnow,h⟩
    · rw [if_neg hnow] at h
      exact absurd h (not_le.mpr hpos)

variable [DecidableEq A]

/-- A holding covers what is taken from it. -/
def Holds (s : State A T) (from_ : A) (n : ℤ) : Prop := 0 < n ∧ n ≤ s.balance from_

instance (s : State A T) (from_ : A) (n : ℤ) : Decidable (s.Holds from_ n) :=
  inferInstanceAs (Decidable (_ ∧ _))

/-- What an operation does at `now`, if it is allowed. -/
def apply (now : T) (s : State A T) : Op A T → Option (State A T)
  | .mint to_ n => if 0 < n then some (s.add to_ n) else none
  | .burn from_ n => if s.Holds from_ n then some (s.add from_ (-n)) else none
  | .burnFrom spender from_ n =>
    if s.Holds from_ n ∧ n ≤ s.allowed from_ spender now then
      some ((s.spend from_ spender n).add from_ (-n))
    else none
  | .transfer from_ to_ n =>
    if s.Holds from_ n then some ((s.add from_ (-n)).add to_ n) else none
  | .transferFrom spender from_ to_ n =>
    if s.Holds from_ n ∧ n ≤ s.allowed from_ spender now then
      some (((s.spend from_ spender n).add from_ (-n)).add to_ n)
    else none
  | .approve from_ spender g => some (s.permit from_ spender g)

@[simp] theorem isSome_apply_transfer {s : State A T} {now : T} {from_ to_ : A} {n : ℤ} :
    (s.apply now (.transfer from_ to_ n)).isSome = true ↔ s.Holds from_ n := by simp [apply]

@[simp] theorem isSome_apply_transferFrom {s : State A T} {now : T} {spender from_ to_ : A} {n : ℤ} :
    (s.apply now (.transferFrom spender from_ to_ n)).isSome = true ↔
      s.Holds from_ n ∧ n ≤ s.allowed from_ spender now := by simp [apply]

/-- The operations one after another, each at its time, if all of them are allowed. -/
def replay (s : State A T) (ops : List (T × Op A T)) : Option (State A T) :=
  ops.foldlM (fun s p => s.apply p.1 p.2) s

@[simp] theorem replay_nil (s : State A T) : s.replay [] = some s := rfl

@[simp] theorem replay_append (s : State A T) (ops more : List (T × Op A T)) :
    s.replay (ops ++ more) = (s.replay ops).bind (·.replay more) := List.foldlM_append

@[simp] theorem replay_singleton (s : State A T) (p : T × Op A T) :
    s.replay [p] = s.apply p.1 p.2 := by simp [replay]

/-- No grant comes to exceed all that is approved. -/
theorem grant_le_of_apply {s t : State A T} {now : T} {op : Op A T} {bound : ℤ}
    (h : s.apply now op = some t) (hs : ∀ f p g, s.grant f p = some g → g.amount ≤ bound)
    (hop : ∀ f p g, op = .approve f p g → g.amount ≤ bound) :
    ∀ f p g, t.grant f p = some g → g.amount ≤ bound := by
  cases op with
  | mint to_ n =>
    obtain ⟨-,heq⟩ := Option.ite_none_right_eq_some.mp h
    cases heq
    exact hs
  | burn from_ n =>
    obtain ⟨-,heq⟩ := Option.ite_none_right_eq_some.mp h
    cases heq
    exact hs
  | burnFrom spender from_ n =>
    obtain ⟨⟨⟨hpos,-⟩,-⟩,heq⟩ := Option.ite_none_right_eq_some.mp h
    cases heq
    exact grant_le_of_spend hpos hs
  | transfer from_ to_ n =>
    obtain ⟨-,heq⟩ := Option.ite_none_right_eq_some.mp h
    cases heq
    exact hs
  | transferFrom spender from_ to_ n =>
    obtain ⟨⟨⟨hpos,-⟩,-⟩,heq⟩ := Option.ite_none_right_eq_some.mp h
    cases heq
    exact grant_le_of_spend hpos hs
  | approve from_ spender g =>
    cases h
    exact grant_le_of_permit (hop from_ spender g rfl) hs

end State
end Token
