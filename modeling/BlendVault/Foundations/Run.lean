import Mathlib.Data.List.Basic
import Mathlib.Data.List.Forall2

/-! Finite runs of a labelled transition system, the labels in the order in which they
were taken. Invariants may look at the state alone or also at the labels so far. -/

/-- `Run step s ls t`: from `s`, the steps labelled `ls` lead to `t`. -/
inductive Run {σ ℓ : Type*} (step : σ → ℓ → σ → Prop) (s : σ) : List ℓ → σ → Prop
  | nil : Run step s [] s
  | snoc {ls : List ℓ} {l : ℓ} {t u : σ} (run : Run step s ls t) (last : step t l u) :
      Run step s (ls ++ [l]) u

namespace Run
variable {σ ℓ : Type*} {step : σ → ℓ → σ → Prop} {s t : σ} {ls : List ℓ}

/-- A step put in front of a run. -/
theorem cons {l : ℓ} {u : σ} (first : step s l t) (h : Run step t ls u) :
    Run step s (l :: ls) u := by
  induction h with
  | nil => exact .snoc .nil first
  | snoc _ last ih => exact .snoc ih last

theorem eq_of_nil (h : Run step s [] t) : t = s := by
  generalize hls : ([] : List ℓ) = ls at h
  cases h with
  | nil => rfl
  | snoc _ _ => simp at hls

/-- The first step of a run, and the rest of it. -/
theorem of_cons {l : ℓ} {u : σ} (h : Run step s (l :: ls) u) :
    ∃ t, step s l t ∧ Run step t ls u := by
  generalize hms : l :: ls = ms at h
  induction h generalizing ls with
  | nil => cases hms
  | @snoc ms m t u run last ih =>
    cases ms with
    | nil =>
      cases hms
      rw [run.eq_of_nil] at last
      exact ⟨u,last,.nil⟩
    | cons l' ms =>
      obtain ⟨rfl,rfl⟩ := List.cons.inj hms
      obtain ⟨t',hfirst,hrest⟩ := ih rfl
      exact ⟨t',hfirst,.snoc hrest last⟩

/-- What holds at the start and survives every step holds at the end. -/
theorem invariant (I : σ → Prop) (h : Run step s ls t) (start : I s)
    (keep : ∀ t l u, step t l u → I t → I u) : I t := by
  induction h with
  | nil => exact start
  | snoc _ last ih => exact keep _ _ _ last ih

/-- The same for an invariant that also mentions the labels taken so far. -/
theorem history (I : List ℓ → σ → Prop) (h : Run step s ls t) (start : I [] s)
    (keep : ∀ ls t l u, step t l u → I ls t → I (ls ++ [l]) u) : I ls t := by
  induction h with
  | nil => exact start
  | snoc _ last ih => exact keep _ _ _ _ last ih

/-- A run of a narrower step relation is a run of the wider one. -/
theorem mono {step' : σ → ℓ → σ → Prop} (h : Run step s ls t)
    (wider : ∀ t l u, step t l u → step' t l u) : Run step' s ls t := by
  induction h with
  | nil => exact .nil
  | snoc _ last ih => exact .snoc ih (wider _ _ _ last)

/-- Labels that say more make a run of the relation that reads them. -/
theorem relabel {ℓ' : Type*} {step' : σ → ℓ' → σ → Prop} (f : ℓ → ℓ')
    (h : Run (fun s l t => step' s (f l) t) s ls t) : Run step' s (ls.map f) t := by
  induction h with
  | nil => exact .nil
  | snoc _ last ih =>
    rw [List.map_append]
    exact .snoc ih last

/-- Step relations that agree have the same runs. -/
theorem congr {step' : σ → ℓ → σ → Prop} (same : ∀ t l u, step t l u ↔ step' t l u) :
    Run step s ls t ↔ Run step' s ls t :=
  ⟨fun h => h.mono fun t l u => (same t l u).mp,fun h => h.mono fun t l u => (same t l u).mpr⟩

/-- A relation that every step can be followed under carries a run over to another system. -/
theorem simulate {σ' ℓ' : Type*} {step' : σ' → ℓ' → σ' → Prop} (R : σ → σ' → Prop) (f : ℓ → ℓ')
    (h : Run step s ls t) {s' : σ'} (start : R s s')
    (follow : ∀ t l u t', step t l u → R t t' → ∃ u', step' t' (f l) u' ∧ R u u') :
    ∃ t', Run step' s' (ls.map f) t' ∧ R t t' := by
  induction h with
  | nil => exact ⟨s',.nil,start⟩
  | snoc _ last ih =>
    obtain ⟨t',hrun,ht⟩ := ih
    obtain ⟨u',hstep,hu⟩ := follow _ _ _ _ last ht
    rw [List.map_append]
    exact ⟨u',.snoc hrun hstep,hu⟩

/-- The same where the labels to follow under are given, each related to the one it follows. -/
theorem follow {σ' ℓ' : Type*} {step' : σ' → ℓ' → σ' → Prop} (R : σ → σ' → Prop)
    (L : ℓ → ℓ' → Prop) (h : Run step s ls t) {s' : σ'} {ls' : List ℓ'}
    (labels : List.Forall₂ L ls ls') (start : R s s')
    (follow : ∀ t l u t' l', step t l u → L l l' → R t t' → ∃ u', step' t' l' u' ∧ R u u') :
    ∃ t', Run step' s' ls' t' ∧ R t t' := by
  induction h generalizing ls' with
  | nil =>
    cases labels
    exact ⟨s',.nil,start⟩
  | @snoc ls l t u _ last ih =>
    -- the last label of the one list belongs to the last of the other
    rw [← List.forall₂_reverse_iff,List.reverse_append,List.reverse_singleton] at labels
    obtain ⟨l',rest,hl,hrest,heq⟩ := List.forall₂_cons_left_iff.mp labels
    have hlabels : ls' = rest.reverse ++ [l'] := by
      rw [← ls'.reverse_reverse,heq,List.reverse_cons]
    subst hlabels
    have hrest' : List.Forall₂ L ls rest.reverse := by
      rw [← List.forall₂_reverse_iff,List.reverse_reverse]
      exact hrest
    obtain ⟨t',hrun,ht⟩ := ih hrest'
    obtain ⟨u',hstep,hu⟩ := follow _ _ _ _ _ last hl ht
    exact ⟨u',.snoc hrun hstep,hu⟩

/-- A run whose labels all satisfy `P` is one of steps that do. -/
theorem with_labels {P : ℓ → Prop} (h : Run step s ls t) (hP : ∀ l ∈ ls, P l) :
    Run (fun s l t => step s l t ∧ P l) s ls t := by
  induction h with
  | nil => exact .nil
  | snoc _ last ih =>
    refine .snoc (ih fun l hl => hP l (List.mem_append_left _ hl)) ⟨last,hP _ ?_⟩
    exact List.mem_append_right _ (List.mem_singleton_self _)

/-- A run from where an invariant holds is one of steps from where it does. -/
theorem within (I : σ → Prop) (h : Run step s ls t) (start : I s)
    (keep : ∀ t l u, step t l u → I t → I u) : Run (fun s l t => step s l t ∧ I s) s ls t := by
  induction h with
  | nil => exact .nil
  | snoc run last ih => exact .snoc ih ⟨last,run.invariant I start keep⟩

/-- Each step of a run written down with what `f` makes of it. -/
theorem annotate {α : Type*} (f : σ → ℓ → σ → α) (h : Run step s ls t) :
    ∃ ps : List (ℓ × α), ps.map Prod.fst = ls ∧
      Run (fun s p t => step s p.1 t ∧ p.2 = f s p.1 t) s ps t := by
  induction h with
  | nil => exact ⟨[],rfl,.nil⟩
  | @snoc ls l t u _ last ih =>
    obtain ⟨ps,rfl,hrun⟩ := ih
    exact ⟨ps ++ [(l,f t l u)],by simp,.snoc hrun ⟨last,rfl⟩⟩

/-- An invariant and a fact it gives about each label, for every label of the run. -/
theorem forall_labels (I : σ → Prop) (P : ℓ → Prop) (h : Run step s ls t) (start : I s)
    (keep : ∀ t l u, step t l u → I t → I u ∧ P l) : ∀ l ∈ ls, P l := by
  have hrun : I t ∧ ∀ l ∈ ls, P l := by
    refine h.history (fun ls t => I t ∧ ∀ l ∈ ls, P l) ⟨start,by simp⟩ ?_
    rintro ls t l u last ⟨hI,hP⟩
    obtain ⟨hu,hl⟩ := keep t l u last hI
    refine ⟨hu,fun l' hl' => ?_⟩
    rcases List.mem_append.mp hl' with h' | h'
    · exact hP l' h'
    · rwa [List.mem_singleton.mp h']
  exact hrun.2

end Run
