import BlendVault.System.ExactPool

/-! The share balances against the total the vault keeps. Burning and minting move both by
the same amount and a transfer between two accounts moves neither; a transfer from an account
to itself credits it without debiting it. -/
namespace BlendVault
open FailStop

namespace Call
variable {Address : Type} [DecidableEq Address]

/-- A transfer whose sender is its receiver. -/
def SelfTransfer : Call Address → Prop
  | .transfer from_ to_ _ => from_ = to_
  | .transferFrom _ from_ to_ _ => from_ = to_
  | _ => False

/-- The shares a call moves from an account to itself. -/
def selfTransferred : Call Address → ℤ
  | .transfer from_ to_ amount => if from_ = to_ then amount else 0
  | .transferFrom _ from_ to_ amount => if from_ = to_ then amount else 0
  | _ => 0

end Call

section Storage
variable {Address W : Type}

/-- Refreshing the rate changes neither total. -/
theorem Env.refreshed_fund {e : Env Address W} {pool asset : Address} {ext : W}
    {s : Storage Address} {v v₀ : VaultData} (h : e.refreshed pool asset ext s = some v)
    (h₀ : s.vaultData = some v₀) : v.fund = v₀.fund := by
  obtain ⟨v₁,hv₁,-,hv⟩ := Env.refreshed_eq_some.mp h
  obtain rfl := Option.some.inj (h₀.symm.trans hv₁)
  rw [hv]
  rfl

theorem Env.refreshed_totalShares {e : Env Address W} {pool asset : Address} {ext : W}
    {s : Storage Address} {v v₀ : VaultData} (h : e.refreshed pool asset ext s = some v)
    (h₀ : s.vaultData = some v₀) : v.totalShares = v₀.totalShares :=
  congrArg ProRata.Fund.units (Env.refreshed_fund h h₀)

theorem Env.refreshed_totalBTokens {e : Env Address W} {pool asset : Address} {ext : W}
    {s : Storage Address} {v v₀ : VaultData} (h : e.refreshed pool asset ext s = some v)
    (h₀ : s.vaultData = some v₀) : v.totalBTokens = v₀.totalBTokens :=
  congrArg ProRata.Fund.assets (Env.refreshed_fund h h₀)

variable [DecidableEq Address]

theorem Storage.sharesOf_settled (s : Storage Address) (v : VaultData) (user a : Address) (k : ℤ) :
    (s.settled v user k).sharesOf a = if a = user then k else s.sharesOf a :=
  s.sharesOf_withShares a user k

theorem Storage.total_settled (s : Storage Address) (v : VaultData) (user : Address) (k : ℤ) :
    (s.settled v user k).shares.total = s.shares.total-s.sharesOf user+k :=
  FiniteStore.total_write s.shares user k

theorem Storage.sharesOf_moved (s : Storage Address) (from_ to_ a : Address) (amount : ℤ) :
    (s.moved from_ to_ amount).sharesOf a = if a = to_ then s.sharesOf to_+amount else
      if a = from_ then s.sharesOf from_-amount else s.sharesOf a := by
  simp only [moved,sharesOf_withShares]

/-- Between two accounts the debit and the credit cancel; within one only the credit stays. -/
theorem Storage.total_moved (s : Storage Address) (from_ to_ : Address) (amount : ℤ) :
    (s.moved from_ to_ amount).shares.total =
      s.shares.total+if from_ = to_ then amount else 0 := by
  have hdebit := FiniteStore.total_write s.shares from_ (s.sharesOf from_-amount)
  have hcredit := FiniteStore.total_write (s.withShares from_ (s.sharesOf from_-amount)).shares to_
    (s.sharesOf to_+amount)
  have hread := s.sharesOf_withShares to_ from_ (s.sharesOf from_-amount)
  change (s.moved from_ to_ amount).shares.total = _ at hcredit
  change FiniteStore.total (s.withShares from_ _).shares = _-s.sharesOf from_+_ at hdebit
  change FiniteStore.read (s.withShares from_ _).shares to_ = _ at hread
  rw [hcredit,hdebit,hread]
  by_cases h : from_ = to_
  · subst h; simp; omega
  · rw [if_neg h,if_neg (Ne.symm h)]; omega

/-- No balance is negative, and together they exceed the total by `excess`. -/
structure Balanced (excess : ℤ) (s : Storage Address) : Prop where
  nonneg : ∀ a, 0 ≤ s.sharesOf a
  total : ∃ v, s.vaultData = some v ∧ s.shares.total = v.totalShares+excess

end Storage

section Step
variable {Address W : Type} {v : VaultData} {held u b n : ℤ}

theorem VaultData.Withdraws.shares_pos [FixedPoint] {amount : ℤ}
    (h : v.Withdraws held amount u b n) : 0 < n ∧ n ≤ held := by
  cases h with
  | plain cost enough => exact ⟨cost.shares_pos,enough⟩
  | clamped _ _ held_pos _ => exact ⟨held_pos,le_rfl⟩

theorem Exits.shares_pos [FixedPoint] {receiver owner operator : Address} {c : Call Address}
    (h : Exits v held receiver owner operator u b n c) : 0 < n ∧ n ≤ held := by
  cases h with
  | withdraw _ out => exact out.shares_pos
  | redeem shares_pos enough _ _ => exact ⟨shares_pos,enough⟩

variable [DecidableEq Address] {w w' : World Address W} {l : Label Address W}

theorem Exits.selfTransferred [FixedPoint] {receiver owner operator : Address}
    {c : Call Address} (h : Exits v held receiver owner operator u b n c) :
    c.selfTransferred = 0 := by
  cases h <;> rfl

omit [DecidableEq Address] in
theorem Exits.not_selfTransfer [FixedPoint] {receiver owner operator : Address}
    {c : Call Address} (h : Exits v held receiver owner operator u b n c) :
    ¬ c.SelfTransfer := by
  cases h <;> exact not_false

omit [DecidableEq Address] in
theorem Call.Bookless.not_selfTransfer {c : Call Address} (h : c.Bookless) :
    ¬ c.SelfTransfer := by
  cases c <;> first | exact not_false | exact h.elim

theorem Call.Bookless.selfTransferred {c : Call Address} (h : c.Bookless) :
    c.selfTransferred = 0 := by
  cases c <;> first | rfl | exact h.elim

theorem Deployed.balanced (h : Deployed w) : Balanced 0 w.storage := by
  obtain ⟨e,admin,pool,asset,blndToken,found,auths,-,hcreate⟩ := h.created
  obtain ⟨r,-,-,hg⟩ := EntryPoints.returns_constructor.mp hcreate
  rw [show w.storage = _ from congrArg Frame.storage hg]
  exact ⟨fun _ => le_rfl,_,rfl,rfl⟩

variable [FixedPoint] {x : ℤ}

section SharesOf
variable {pool asset : Address} {moved : ℤ}

/-- A deposit changes its receiver's balance only. -/
theorem Mint.sharesOf {receiver from_ operator : Address} {assets : ℤ}
    (h : Mint w l w' pool asset receiver from_ operator v assets moved b n) (a : Address) :
    w'.storage.sharesOf a =
      if a = receiver then w.storage.sharesOf receiver+n else w.storage.sharesOf a := by
  rw [h.books,Storage.sharesOf_settled]

/-- An exit changes its owner's balance only. -/
theorem Burn.sharesOf {receiver owner operator : Address}
    (h : Burn w l w' pool asset receiver owner operator v u moved b n) (a : Address) :
    w'.storage.sharesOf a =
      if a = owner then w.storage.sharesOf owner-n else w.storage.sharesOf a := by
  obtain ⟨t,ht,hbooks⟩ := h.books
  rw [hbooks,Storage.sharesOf_settled,ht.sharesOf]

omit [FixedPoint] in
theorem Move.sharesOf {from_ to_ : Address} {amount : ℤ} (h : Move w l w' from_ to_ amount)
    (a : Address) : w'.storage.sharesOf a = (w.storage.moved from_ to_ amount).sharesOf a :=
  congrArg (FiniteStore.read · a) h.shares

omit [FixedPoint] in
theorem Compound.sharesOf {received : ℤ} (h : Compound w l w' pool asset v received moved b)
    (a : Address) : w'.storage.sharesOf a = w.storage.sharesOf a := by
  rw [h.books]
  rfl

omit [FixedPoint] in
theorem Idle.sharesOf (h : Idle w l w') (a : Address) :
    w'.storage.sharesOf a = w.storage.sharesOf a :=
  congrArg (FiniteStore.read · a) h.shares

end SharesOf

theorem Mint.balanced {pool asset receiver from_ operator : Address} {assets moved : ℤ}
    (h : Mint w l w' pool asset receiver from_ operator v assets moved b n)
    (hw : Balanced x w.storage) : Balanced x w'.storage := by
  obtain ⟨hnonneg,v₀,hv₀,htotal⟩ := hw
  have hS := Env.refreshed_totalShares h.rate hv₀
  have hn := h.mints.shares_pos
  refine ⟨?_,_,h.vaultData,?_⟩
  · intro a
    have ha := hnonneg a
    have hr := hnonneg receiver
    rw [h.sharesOf]
    split <;> omega
  · rw [h.books,Storage.total_settled,htotal,VaultData.minted_totalShares,hS]
    omega

theorem Burn.balanced {pool asset receiver owner operator : Address} {moved : ℤ}
    (h : Burn w l w' pool asset receiver owner operator v u moved b n)
    (hw : Balanced x w.storage) : Balanced x w'.storage := by
  obtain ⟨hnonneg,v₀,hv₀,htotal⟩ := hw
  have hS := Env.refreshed_totalShares h.rate hv₀
  have hn := h.call.shares_pos
  refine ⟨?_,_,h.vaultData,?_⟩
  · intro a
    have ha := hnonneg a
    rw [h.sharesOf]
    split <;> omega
  · obtain ⟨t,ht,hbooks⟩ := h.books
    rw [hbooks,Storage.total_settled,ht.sharesOf,ht.shares,htotal,VaultData.burnt_totalShares,hS]
    omega

omit [FixedPoint] in
theorem Move.balanced {from_ to_ : Address} {amount : ℤ} (h : Move w l w' from_ to_ amount)
    (hw : Balanced x w.storage) :
    Balanced (x+if from_ = to_ then amount else 0) w'.storage := by
  obtain ⟨hnonneg,v₀,hv₀,htotal⟩ := hw
  obtain ⟨hpos,hle,-,-⟩ := h.moves
  refine ⟨?_,v₀,h.vaultData.trans hv₀,?_⟩
  · intro a
    have ha := hnonneg a
    have hto := hnonneg to_
    rw [h.sharesOf,Storage.sharesOf_moved]
    split
    · omega
    · split <;> omega
  · rw [h.shares,Storage.total_moved,htotal]
    omega

omit [FixedPoint] in
theorem Compound.balanced {pool asset : Address} {received moved : ℤ}
    (h : Compound w l w' pool asset v received moved b) (hw : Balanced x w.storage) :
    Balanced x w'.storage := by
  obtain ⟨hnonneg,v₀,hv₀,htotal⟩ := hw
  have hS := Env.refreshed_totalShares h.rate hv₀
  refine ⟨?_,_,h.vaultData,?_⟩
  · intro a
    rw [h.sharesOf]
    exact hnonneg a
  · rw [h.books]
    change w.storage.shares.total = v.totalShares+x
    rw [htotal,hS]

omit [FixedPoint] in
theorem Idle.balanced (h : Idle w l w') (hw : Balanced x w.storage) :
    Balanced x w'.storage := by
  obtain ⟨hnonneg,v₀,hv₀,htotal⟩ := hw
  refine ⟨?_,v₀,h.vaultData.trans hv₀,?_⟩
  · intro a
    rw [h.sharesOf]
    exact hnonneg a
  · rw [h.shares]
    exact htotal

/-- The excess of the balances over the total grows by what the step moves to itself. -/
theorem Step.balanced (h : Step w l w') (hw : Balanced x w.storage) :
    Balanced (x+l.call.selfTransferred) w'.storage := by
  cases h.accounts with
  | mint hm =>
    rw [hm.call]
    simpa only [Call.selfTransferred,add_zero] using hm.balanced hw
  | burn hb =>
    rw [hb.call.selfTransferred,add_zero]
    exact hb.balanced hw
  | @move from_ to_ amount hm =>
    have hcall : l.call.selfTransferred = if from_ = to_ then amount else 0 := by
      rcases hm.call with hc | ⟨spender,hc⟩ <;> rw [hc] <;> rfl
    rw [hcall]
    exact hm.balanced hw
  | compound hc =>
    obtain ⟨_,hcall⟩ := hc.call
    rw [hcall]
    simpa only [Call.selfTransferred,add_zero] using hc.balanced hw
  | idle hi =>
    rw [hi.call.selfTransferred,add_zero]
    exact hi.balanced hw

/-- A transfer that succeeds is of a positive amount. -/
theorem Step.selfTransferred_pos (h : Step w l w') :
    0 ≤ l.call.selfTransferred ∧ (l.call.SelfTransfer ↔ 0 < l.call.selfTransferred) := by
  cases h.accounts with
  | mint hm => simp [hm.call,Call.selfTransferred,Call.SelfTransfer]
  | burn hb => simp [hb.call.selfTransferred,hb.call.not_selfTransfer]
  | @move from_ to_ amount hm =>
    have hpos := hm.moves.amount_pos
    have hcall : l.call.selfTransferred = (if from_ = to_ then amount else 0) ∧
        (l.call.SelfTransfer ↔ from_ = to_) := by
      rcases hm.call with hc | ⟨spender,hc⟩ <;> rw [hc] <;> exact ⟨rfl,Iff.rfl⟩
    rw [hcall.1,hcall.2]
    by_cases hself : from_ = to_ <;> simp [hself,hpos,hpos.le]
  | compound hc =>
    obtain ⟨_,hcall⟩ := hc.call
    simp [hcall,Call.selfTransferred,Call.SelfTransfer]
  | idle hi => simp [hi.call.selfTransferred,hi.call.not_selfTransfer]

end Step

section Run
variable {Address W : Type} [DecidableEq Address]

/-- All the shares the calls of a run moved from an account to itself. -/
def selfTransferredIn (ls : List (Label Address W)) : ℤ :=
  (ls.map fun l => l.call.selfTransferred).sum

theorem selfTransferredIn_concat (ls : List (Label Address W)) (l : Label Address W) :
    selfTransferredIn (ls ++ [l]) = selfTransferredIn ls+l.call.selfTransferred := by
  simp [selfTransferredIn]

theorem selfTransferredIn_eq_zero {ls : List (Label Address W)}
    (h : ∀ l ∈ ls, 0 ≤ l.call.selfTransferred) :
    selfTransferredIn ls = 0 ↔ ∀ l ∈ ls, l.call.selfTransferred = 0 := by
  have hmap : ∀ x ∈ ls.map fun l => l.call.selfTransferred, 0 ≤ x := by
    simpa using h
  constructor
  · intro hsum l hl
    exact List.all_zero_of_le_zero_le_of_sum_eq_zero hmap hsum (List.mem_map_of_mem hl)
  · intro hall
    apply List.sum_eq_zero
    simpa using hall

variable [FixedPoint] {w : World Address W} {ls : List (Label Address W)}

/-- Over a whole run the balances exceed the total by all that was moved to itself. -/
theorem Reaches.balanced (h : Reaches ls w) : Balanced (selfTransferredIn ls) w.storage := by
  obtain ⟨w₀,hdeployed,hrun⟩ := h
  refine hrun.history (fun (ls : List (Label Address W)) (w : World Address W) =>
    Balanced (selfTransferredIn ls) w.storage) hdeployed.balanced ?_
  intro ls t l u hstep hbalanced
  rw [selfTransferredIn_concat]
  exact hstep.balanced hbalanced

theorem Reaches.selfTransferred_pos (h : Reaches ls w) : ∀ l ∈ ls,
    0 ≤ l.call.selfTransferred ∧ (l.call.SelfTransfer ↔ 0 < l.call.selfTransferred) := by
  obtain ⟨w₀,-,hrun⟩ := h
  refine hrun.forall_labels (fun _ => True) _ trivial ?_
  intro t l u hstep _
  exact ⟨trivial,hstep.selfTransferred_pos⟩

/-- The balances add up to `totalShares` exactly when nobody ever transferred shares to
themselves. -/
theorem balances_sum_iff_no_selfTransfer (h : Reaches ls w) :
    ((∀ a, 0 ≤ w.storage.sharesOf a) ∧
      ∃ v, w.storage.vaultData = some v ∧ ∑ᶠ a, w.storage.sharesOf a = v.totalShares) ↔
    ∀ l ∈ ls, ¬ l.call.SelfTransfer := by
  obtain ⟨hnonneg,v,hv,htotal⟩ := h.balanced
  have hpos := h.selfTransferred_pos
  have hzero := selfTransferredIn_eq_zero fun l hl => (hpos l hl).1
  have hsum : ∑ᶠ a, w.storage.sharesOf a = w.storage.shares.total :=
    FiniteStore.finsum_read w.storage.shares
  rw [hsum,htotal]
  constructor
  · intro h l hl
    obtain ⟨_,v',hv',heq⟩ := h
    obtain rfl := Option.some.inj (hv.symm.trans hv')
    have hl0 := hzero.mp (by omega) l hl
    rw [(hpos l hl).2]
    omega
  · intro hnone
    refine ⟨hnonneg,v,hv,?_⟩
    have h0 := hzero.mpr fun l hl => by
      have hl0 := hpos l hl
      have hno := hnone l hl
      rw [hl0.2] at hno
      omega
    omega

end Run

section Sample
attribute [local instance] FixedPoint.documented

/-- One deposit of ten shares, then a transfer between the accounts `from_` and `to_`. -/
def depositAndTransfer (from_ to_ : ℕ) : List (Env ℕ ℤ × Call ℕ) :=
  [(referenceEnv scalar12 0 1,.deposit 10 7 7 7),(referenceEnv scalar12 0 2,.transfer from_ to_ 10)]

/-- Account 7 sends its ten shares to itself and holds twenty of a total of ten. -/
theorem selfTransfer_breaks_sum : ∃ (ls : List (Label ℕ ℤ)) (w : World ℕ ℤ), Reaches ls w ∧
    ¬ ((∀ a, 0 ≤ w.storage.sharesOf a) ∧
      ∃ v, w.storage.vaultData = some v ∧ ∑ᶠ a, w.storage.sharesOf a = v.totalShares) := by
  obtain ⟨ls,w,hreach,hend⟩ := exists_reaches (referenceEnv scalar12 0 0) 1 2 3 4 0
    (depositAndTransfer 7 7)
    (fun _ w => w.storage.vaultData = some ⟨0,scalar12,10,10⟩ ∧ w.storage.shares.total = 20)
    (by decide)
  obtain ⟨hv,htotal⟩ := of_decide_eq_true hend
  refine ⟨ls,w,hreach,?_⟩
  intro h
  obtain ⟨-,v,hv',hsum⟩ := h
  cases hv.symm.trans hv'
  have htwenty : ∑ᶠ a, w.storage.sharesOf a = 20 :=
    (FiniteStore.finsum_read w.storage.shares).trans htotal
  exact absurd (htwenty.symm.trans hsum) (by decide)

/-- Sent to another account, the same shares keep the sum. -/
theorem balances_sum_iff_no_selfTransfer_sample : ∃ (ls : List (Label ℕ ℤ)) (w : World ℕ ℤ),
    ls.map Label.call = [.deposit 10 7 7 7,.transfer 7 8 10] ∧ (∀ a, 0 ≤ w.storage.sharesOf a) ∧
      ∃ v, w.storage.vaultData = some v ∧ ∑ᶠ a, w.storage.sharesOf a = v.totalShares := by
  obtain ⟨ls,w,hreach,hcalls⟩ := exists_reaches (referenceEnv scalar12 0 0) 1 2 3 4 0
    (depositAndTransfer 7 8)
    (fun ls _ => ls.map Label.call = [.deposit 10 7 7 7,.transfer 7 8 10]) (by decide)
  have hcalls := of_decide_eq_true hcalls
  refine ⟨ls,w,hcalls,(balances_sum_iff_no_selfTransfer hreach).mpr ?_⟩
  intro l hl
  have hmem : l.call ∈ ls.map Label.call := List.mem_map_of_mem hl
  rw [hcalls,List.mem_cons,List.mem_singleton] at hmem
  rcases hmem with h | h <;> rw [h]
  · exact not_false
  · exact (by decide : ¬ (7 : ℕ) = 8)

end Sample
end BlendVault
