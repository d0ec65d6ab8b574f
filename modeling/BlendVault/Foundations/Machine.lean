import BlendVault.Foundations.Run

/-! Machines that answer one input at a time, and systems that have one of them for a component: a
step either is an input of the machine or passes it by. -/

/-- From a state and an input, the next state and an answer. -/
abbrev Machine (σ ι ο : Type*) := σ → ι → σ × ο

namespace Machine
variable {σ ι ο : Type*} (m : Machine σ ι ο)

/-- The state after a list of inputs, with the answers to them. -/
def run (s : σ) : List ι → σ × List ο
  | [] => (s,[])
  | i :: is =>
    let next := m s i
    let rest := run next.1 is
    (rest.1,next.2 :: rest.2)

/-- One input after the others. -/
theorem run_concat (s : σ) (is : List ι) (i : ι) : run m s (is ++ [i]) =
    ((m (run m s is).1 i).1,(run m s is).2 ++ [(m (run m s is).1 i).2]) := by
  induction is generalizing s with
  | nil => rfl
  | cons j is ih =>
    rw [List.cons_append,run,run,ih]
    rfl

variable {τ ℓ : Type*} {step : τ → ℓ → τ → Prop} {s t : τ} {ls : List ℓ} (p : τ → σ)
  (input : ℓ → Option ι) (answer : ℓ → ο)

/-- What a step means to the component. -/
structure Component (t : τ) (l : ℓ) (u : τ) : Prop where
  takes : ∀ i, input l = some i → m (p t) i = (p u,answer l)
  passes : input l = none → p u = p t

/-- The labels of a run that are inputs of the component. -/
def inputs (ls : List ℓ) : List ι := ls.filterMap input

/-- What the system has answered to them. -/
def answers (ls : List ℓ) : List ο := (ls.filter fun l => (input l).isSome).map answer

/-- A component does along a run of the system what the machine does on its own inputs alone. -/
theorem run_inputs (I : τ → Prop) (h : Run step s ls t) (start : I s)
    (keep : ∀ t l u, step t l u → I t → I u ∧ m.Component p input answer t l u) :
    run m (p s) (inputs input ls) = (p t,answers input answer ls) := by
  have hrun : I t ∧ run m (p s) (inputs input ls) = (p t,answers input answer ls) := by
    refine h.history (fun ls t => I t ∧ run m (p s) (inputs input ls) =
      (p t,answers input answer ls)) ⟨start,rfl⟩ ?_
    rintro ls t l u last ⟨hI,ih⟩
    obtain ⟨hu,hl⟩ := keep t l u last hI
    refine ⟨hu,?_⟩
    unfold inputs answers at ih ⊢
    rw [List.filterMap_append,List.filter_append,List.map_append]
    cases hinput : input l with
    | none => simp [hinput,ih,hl.passes hinput]
    | some i => simp [hinput,run_concat,ih,hl.takes i hinput]
  exact hrun.2

end Machine
