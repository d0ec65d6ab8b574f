import Mathlib.Data.List.AList
import Mathlib.Algebra.BigOperators.Finprod
import Mathlib.Algebra.Order.BigOperators.Group.Finset
import Mathlib.Tactic.Abel

/-! Finite key-value stores whose absent keys read as zero, and the total of their values.
A write changes the total by exactly what it changes at its key. -/

/-- A finite association of values to keys, each key at most once. -/
abbrev FiniteStore (K V : Type*) := AList (fun _ : K => V)

namespace FiniteStore
variable {K V : Type*} [DecidableEq K]

/-- Reading an absent key returns zero. -/
def read [Zero V] (s : FiniteStore K V) (k : K) : V := (s.lookup k).getD 0

/-- Overwrite the value at one key. -/
def write (s : FiniteStore K V) (k : K) (v : V) : FiniteStore K V := s.insert k v

/-- The sum of all stored values. -/
def total [AddCommMonoid V] (s : FiniteStore K V) : V := (s.entries.map Sigma.snd).sum

section Read
variable [Zero V]

@[simp] theorem read_empty (k : K) : read (∅ : FiniteStore K V) k = 0 := rfl

@[simp] theorem read_write_self (s : FiniteStore K V) (k : K) (v : V) :
    read (s.write k v) k = v := by simp [read, write]

theorem read_write_of_ne (s : FiniteStore K V) {j k : K} (v : V) (h : j ≠ k) :
    read (s.write k v) j = read s j := by simp [read, write, AList.lookup_insert_ne h]

theorem read_write (s : FiniteStore K V) (j k : K) (v : V) :
    read (s.write k v) j = if j = k then v else read s j := by
  by_cases h : j = k
  · subst h; simp
  · simp [read_write_of_ne s v h, h]

theorem read_of_notMem {s : FiniteStore K V} {k : K} (h : k ∉ s.keys) : read s k = 0 := by
  rw [read, AList.lookup_eq_none.mpr (by rwa [AList.mem_keys])]
  rfl

end Read

section Total
variable [AddCommGroup V]

omit [DecidableEq K] in
@[simp] theorem total_empty : total (∅ : FiniteStore K V) = 0 := rfl

theorem total_eq_sum_keys (s : FiniteStore K V) :
    total s = ∑ k ∈ s.keys.toFinset, read s k := by
  have hread : ∀ e ∈ s.entries, e.snd = read s e.fst := by
    intro e he
    have h := (List.mem_dlookup_iff s.nodupKeys).mpr he
    change e.snd = (List.dlookup e.fst s.entries).getD 0
    rw [Option.mem_def.mp h]
    rfl
  rw [List.sum_toFinset _ s.keys_nodup, total, AList.keys, List.keys, List.map_map]
  exact congrArg List.sum (List.map_congr_left hread)

/-- The total is the sum over every key there is, stored or not. -/
theorem finsum_read (s : FiniteStore K V) : ∑ᶠ k, read s k = total s := by
  rw [total_eq_sum_keys]
  refine finsum_eq_sum_of_support_subset _ fun k hk => ?_
  by_contra h
  exact hk (read_of_notMem (by simpa using h))

/-- The total may be taken over any finite set of keys outside which everything reads zero. -/
theorem total_eq_sum (s : FiniteStore K V) (T : Finset K) (h : ∀ k ∉ T, read s k = 0) :
    total s = ∑ k ∈ T, read s k := by
  rw [← finsum_read]
  refine finsum_eq_sum_of_support_subset _ fun k hk => ?_
  by_contra hkT
  exact hk (h k (by simpa using hkT))

theorem total_write (s : FiniteStore K V) (k : K) (v : V) :
    total (s.write k v) = total s - read s k + v := by
  classical
  set T := insert k s.keys.toFinset with hT
  have hold := total_eq_sum s T (fun j hj => read_of_notMem (by
    rw [hT, Finset.mem_insert, not_or] at hj
    simpa using hj.2))
  have hnew := total_eq_sum (s.write k v) T (fun j hj => by
    rw [hT, Finset.mem_insert, not_or] at hj
    rw [read_write_of_ne s v hj.1]
    exact read_of_notMem (by simpa using hj.2))
  have hk : k ∈ T := Finset.mem_insert_self _ _
  rw [hold, hnew, ← Finset.add_sum_erase T _ hk, ← Finset.add_sum_erase T _ hk,
    read_write_self, Finset.sum_congr rfl fun j hj => read_write_of_ne s v (Finset.ne_of_mem_erase hj)]
  abel

end Total

/-- Non-negative values over any finite set of keys add up to at most the total. -/
theorem sum_read_le_total (s : FiniteStore K ℤ) (h : ∀ k, 0 ≤ read s k) (T : Finset K) :
    ∑ k ∈ T, read s k ≤ total s := by
  rw [total_eq_sum s (T ∪ s.keys.toFinset) (fun k hk => read_of_notMem (by
    rw [Finset.mem_union, not_or] at hk
    simpa using hk.2))]
  exact Finset.sum_le_sum_of_subset_of_nonneg Finset.subset_union_left fun k _ _ => h k

theorem read_le_total (s : FiniteStore K ℤ) (h : ∀ k, 0 ≤ read s k) (k : K) :
    read s k ≤ total s := by
  simpa using sum_read_le_total s h {k}

theorem read_add_read_le_total (s : FiniteStore K ℤ) (h : ∀ k, 0 ≤ read s k) {j k : K}
    (hjk : j ≠ k) : read s j + read s k ≤ total s := by
  simpa [Finset.sum_pair hjk] using sum_read_le_total s h {j, k}

end FiniteStore
