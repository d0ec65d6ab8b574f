import BlendVault.System.Accounts

/-! A pool that keeps one exact supply position for the vault: it mints bTokens rounding down,
burns them rounding up, and pays less only when the position would not cover the burn. -/
namespace BlendVault
open FailStop RoundedDivision

section Laws
variable {Address W : Type}

/-- The pool answers at the rate `r` throughout the call, and only the vault's own requests
change the vault's position. -/
structure ExactPool (e : Env Address W) (pool asset : Address) (position : W → ℤ) (r : ℤ) :
    Prop where
  rate : ∀ {ext r'}, e.bRate pool asset ext = some r' → r' = r
  reports : ∀ {ext n},
    e.bTokenBalance pool asset e.currentContractAddress ext = some n → n = position ext
  supply : ∀ {ext from_ a moved ext'},
    (e.pool pool).submit ext e.currentContractAddress from_ from_ [⟨asset,a,0⟩] =
      some (moved,ext') → moved = a ∧ position ext' = position ext+a*scalar12/r
  withdraw : ∀ {ext to_ a moved ext'},
    (e.pool pool).submit ext e.currentContractAddress e.currentContractAddress to_ [⟨asset,a,1⟩] =
      some (moved,ext') →
    (ceilDiv (a*scalar12) r ≤ position ext →
      moved = a ∧ position ext' = position ext-ceilDiv (a*scalar12) r) ∧
    (position ext < ceilDiv (a*scalar12) r → moved < a ∧ position ext' = 0)
  claim : ∀ {ext ids claimed ext'},
    (e.pool pool).claim ext e.currentContractAddress ids e.currentContractAddress =
      some (claimed,ext') → position ext' = position ext
  swap : ∀ {router blnd amountIn amountOutMin ext received ext'},
    Swap.Swaps e router blnd asset amountIn amountOutMin ext received ext' →
      position ext' = position ext

variable [DecidableEq Address] [FixedPoint]

/-- A step on an exact pool whose position nobody touched since the last call. -/
structure ExactStep (position : W → ℤ) (w : World Address W) (l : Label Address W)
    (w' : World Address W) : Prop where
  step : Step w l w'
  untouched : position l.found = position w.outside
  exact : ∀ pool asset, w.storage.Serves pool asset →
    ∃ r, 0 < r ∧ ExactPool l.env pool asset position r

/-- A vault deployed before it has any position in the pool. -/
structure ExactDeployed (position : W → ℤ) (w : World Address W) : Prop where
  deployed : Deployed w
  vacant : position w.outside = 0

end Laws

/-- A pool that keeps nothing but the vault's position, at the rate `r`; each claim brings in
`emissions`, which the router swaps one for one. -/
def referenceEnv (r emissions : ℤ) (sequence : ℕ) : Env ℕ ℤ where
  sequence
  timestamp := 0
  currentContractAddress := 0
  signed _ := true
  again _ := false
  maxTtl := 3110399
  evicted _ := true
  pool _ :=
    { submit := fun p _ _ _ requests =>
        match requests with
        | [⟨_,a,0⟩] => if a < 0 then none else some (a,p+a*scalar12/r)
        | [⟨_,a,1⟩] =>
          if ceilDiv (a*scalar12) r ≤ p then some (a,p-ceilDiv (a*scalar12) r)
          else some (p*r/scalar12,0)
        | _ => none
      getReserve := fun _ _ => some ⟨⟨0⟩,⟨r⟩⟩
      getPositions := fun p _ => some fun _ => some p
      claim := fun p _ _ _ => some (emissions,p) }
  router _ := { swapExactTokensForTokens := fun p amountIn _ _ _ _ => some ([amountIn,amountIn],p) }
  token _ := { approve := fun p _ _ _ _ => some p }

theorem referenceEnv_exact {r emissions : ℤ} {sequence pool asset : ℕ} (hr : 0 < r) :
    ExactPool (referenceEnv r emissions sequence) pool asset id r where
  rate h := (Option.some.inj h).symm
  reports h := (Option.some.inj h).symm
  supply {ext from_ a moved ext'} h := by
    change (if a < 0 then none else some (a,ext+a*scalar12/r)) = some (moved,ext') at h
    by_cases ha : a < 0
    · rw [if_pos ha] at h
      cases h
    · rw [if_neg ha] at h
      cases h
      exact ⟨rfl,rfl⟩
  withdraw {ext to_ a moved ext'} h := by
    change (if ceilDiv (a*scalar12) r ≤ ext then some (a,ext-ceilDiv (a*scalar12) r)
      else some (ext*r/scalar12,0)) = some (moved,ext') at h
    by_cases hb : ceilDiv (a*scalar12) r ≤ ext
    · rw [if_pos hb] at h
      cases h
      exact ⟨fun _ => ⟨rfl,rfl⟩,fun hlt => absurd hb (not_le.mpr hlt)⟩
    · rw [if_neg hb] at h
      cases h
      refine ⟨fun hle => absurd hle hb,fun hlt => ⟨?_,rfl⟩⟩
      have hpos : ext*r < a*scalar12 := (lt_ceilDiv_iff hr).mp hlt
      exact Int.ediv_lt_of_lt_mul scalar12_pos hpos
  claim h := by cases h; rfl
  swap {router blnd amountIn amountOutMin ext received ext'} h := by
    obtain ⟨approved,amounts,happrove,hswap,-⟩ := h.swapped
    cases happrove
    cases hswap
    rfl

/-- Calls on the reference pool, each with the rate, the emissions and the ledger it finds. -/
def referenceCalls (cs : List ((ℤ × ℤ × ℕ) × Call ℕ)) : List (Env ℕ ℤ × Call ℕ) :=
  cs.map fun c => (referenceEnv c.1.1 c.1.2.1 c.1.2.2,c.2)

section Reference
variable [FixedPoint]

theorem exactStep_of_referenceCalls {cs : List ((ℤ × ℤ × ℕ) × Call ℕ)}
    (hr : ∀ c ∈ cs, 0 < c.1.1) {t u : World ℕ ℤ} {l : Label ℕ ℤ} (hstep : Step t l u)
    (hfound : l.found = t.outside) (hmem : (l.env,l.call) ∈ referenceCalls cs) :
    ExactStep id t l u := by
  obtain ⟨c,hc,hcall⟩ := List.mem_map.mp hmem
  have henv : referenceEnv c.1.1 c.1.2.1 c.1.2.2 = l.env := congrArg Prod.fst hcall
  refine ⟨hstep,congrArg id hfound,fun pool asset _ => ⟨c.1.1,hr c hc,?_⟩⟩
  rw [← henv]
  exact referenceEnv_exact (hr c hc)

omit [FixedPoint] in
/-- The rates seen in calls on the reference pool are the ones listed. -/
theorem rates_of_referenceCalls {cs : List ((ℤ × ℤ × ℕ) × Call ℕ)} {P : ℤ → Prop}
    (hP : ∀ c ∈ cs, P c.1.1) {s : Storage ℕ} {l : Label ℕ ℤ}
    (hmem : (l.env,l.call) ∈ referenceCalls cs) : l.Rates s P := by
  obtain ⟨c,hc,hcall⟩ := List.mem_map.mp hmem
  have henv : referenceEnv c.1.1 c.1.2.1 c.1.2.2 = l.env := congrArg Prod.fst hcall
  intro pool asset ext r _ hr
  rw [← henv] at hr
  cases hr
  exact hP c hc

omit [FixedPoint] in
theorem call_of_referenceCalls {cs : List ((ℤ × ℤ × ℕ) × Call ℕ)} {P : Call ℕ → Prop}
    (hP : ∀ c ∈ cs, P c.2) {l : Label ℕ ℤ} (hmem : (l.env,l.call) ∈ referenceCalls cs) :
    P l.call := by
  obtain ⟨c,hc,hcall⟩ := List.mem_map.mp hmem
  have hsnd : c.2 = l.call := congrArg Prod.snd hcall
  exact hsnd ▸ hP c hc

omit [FixedPoint] in
theorem exactDeployed_of_deploy {r : ℤ} {w : World ℕ ℤ}
    (h : deploy (referenceEnv r 0 0) 1 2 3 4 0 = some w) : ExactDeployed id w := by
  refine ⟨deploy_deployed h,?_⟩
  cases h
  rfl

/-- A run that is computed on the reference pool is a run on an exact pool. -/
theorem exists_exact_run (r : ℤ) (cs : List ((ℤ × ℤ × ℕ) × Call ℕ)) (hr : ∀ c ∈ cs, 0 < c.1.1)
    (q : List (Label ℕ ℤ) → World ℕ ℤ → Bool)
    (h : (simulate (referenceEnv r 0 0) 1 2 3 4 0 (referenceCalls cs)).any
      (fun p => q p.1 p.2) = true) :
    ∃ w₀ ls w, ExactDeployed id w₀ ∧ Run (ExactStep id) w₀ ls w ∧ q ls w = true := by
  obtain ⟨w₀,ls,w,hdeploy,hrun,hq⟩ :=
    exists_run (fun _ _ _ => exactStep_of_referenceCalls hr) q h
  exact ⟨w₀,ls,w,exactDeployed_of_deploy hdeploy,hrun,hq⟩

end Reference

/-- A vault on the reference pool with the given books. -/
def referenceWorld (vault : VaultData) (holdings : List (ℕ × ℤ)) (position : ℤ) : World ℕ ℤ where
  storage :=
    { admin := some 1, pool := some 2, asset := some 3, blndToken := some 4, router := some 5
      vaultData := some vault
      shares := holdings.foldr (fun h s => s.write h.1 h.2) ∅ }
  outside := position
  sequence := 0

theorem referenceWorld_nonneg {vault : VaultData} {holdings : List (ℕ × ℤ)} {position : ℤ}
    (h : ∀ p ∈ holdings, 0 ≤ p.2) (a : ℕ) :
    0 ≤ (referenceWorld vault holdings position).storage.sharesOf a := by
  change 0 ≤ FiniteStore.read (holdings.foldr _ _) a
  induction holdings with
  | nil => exact le_rfl
  | cons p rest ih =>
    rw [List.foldr_cons,FiniteStore.read_write]
    split
    · exact h p List.mem_cons_self
    · exact ih fun q hq => h q (List.mem_cons_of_mem _ hq)

end BlendVault
