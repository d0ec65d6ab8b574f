import BlendVault.System.Allowances
import BlendVault.System.Dilution

/-! What an account can lose without signing for it. Every share that others take off it is drawn on
an allowance, so over a whole run they take no more than it has approved, however many spenders there
are and however the approvals follow one another. -/
namespace BlendVault
open FailStop Delegation

section Delegated
variable {Address W : Type} [DecidableEq Address]

/-- What `g` counts of what a call does to a delegation of `a` to somebody else. -/
def Label.delegated (a : Address) (g : Act ℕ ℤ → ℤ) (l : Label Address W) : ℤ :=
  match l.dealing with
  | some (key,act) => if key.from_ = a ∧ key.spender ≠ a then g act else 0
  | none => 0

/-- The shares that others drew on allowances of `a`. -/
def Label.takenFrom (a : Address) (l : Label Address W) : ℤ := l.delegated a Act.drawn

/-- The shares that `a` approved others to draw. -/
def Label.approvedBy (a : Address) (l : Label Address W) : ℤ := l.delegated a Act.ceiling

/-- The spenders a list of calls is about. -/
def spenders (a : Address) (ls : List (Label Address W)) : Finset Address :=
  ((ls.filterMap Label.dealing).map fun d => d.1.spender).toFinset.erase a

variable {l : Label Address W} {ls ms : List (Label Address W)} {a : Address} {S : Finset Address}
  {g : Act ℕ ℤ → ℤ}

/-- A call counts for the one spender it is about. -/
theorem Label.sum_act (ha : a ∉ S)
    (hS : ∀ key act, l.dealing = some (key,act) → key.spender ≠ a → key.spender ∈ S) :
    ∑ s ∈ S, ((l.act ⟨a,s⟩).toList.map g).sum = l.delegated a g := by
  unfold Label.act Label.delegated
  cases hd : l.dealing with
  | none => simp
  | some d =>
    obtain ⟨⟨from_,spender⟩,act⟩ := d
    have hterm : ∀ s ∈ S, (((some ((⟨from_,spender⟩ : AllowanceKey Address),act)).bind fun d =>
        if d.1 = ⟨a,s⟩ then some d.2 else none).toList.map g).sum =
          if spender = s then if from_ = a then g act else 0 else 0 := by
      intro s _
      by_cases hs : spender = s <;> by_cases hf : from_ = a <;> simp [hs,hf]
    rw [Finset.sum_congr rfl hterm,Finset.sum_ite_eq]
    change _ = if from_ = a ∧ spender ≠ a then g act else 0
    by_cases hspender : spender = a
    · rw [if_neg (hspender ▸ ha),if_neg fun h => h.2 hspender]
    · rw [if_pos (hS _ _ hd hspender)]
      by_cases hf : from_ = a
      · rw [if_pos hf,if_pos ⟨hf,hspender⟩]
      · rw [if_neg hf,if_neg fun h => hf h.1]

/-- Counted spender by spender or call by call. -/
theorem sum_acts (ha : a ∉ S) (hS : ∀ l ∈ ls, ∀ key act, l.dealing = some (key,act) →
    key.spender ≠ a → key.spender ∈ S) :
    ∑ s ∈ S, ((acts ⟨a,s⟩ ls).map g).sum = (ls.map (Label.delegated a g)).sum := by
  induction ls with
  | nil => simp [acts]
  | cons l ls ih =>
    have hcons : ∀ s, acts ⟨a,s⟩ (l :: ls) = (l.act ⟨a,s⟩).toList ++ acts ⟨a,s⟩ ls := by
      intro s
      unfold acts
      rw [List.filterMap_cons]
      cases l.act ⟨a,s⟩ <;> rfl
    simp only [hcons,List.map_append,List.sum_append,Finset.sum_add_distrib,List.map_cons,List.sum_cons]
    rw [Label.sum_act ha (hS l List.mem_cons_self),ih fun l' hl' => hS l' (List.mem_cons_of_mem _ hl')]

theorem mem_spenders (hl : l ∈ ls) {key : AllowanceKey Address} {act : Act ℕ ℤ}
    (hd : l.dealing = some (key,act)) (hne : key.spender ≠ a) : key.spender ∈ spenders a ls := by
  refine Finset.mem_erase.mpr ⟨hne,List.mem_toFinset.mpr (List.mem_map.mpr ⟨(key,act),?_,rfl⟩)⟩
  exact List.mem_filterMap.mpr ⟨l,hl,hd⟩

variable [FixedPoint] {w t : World Address W}

/-- Over a run from the constructor others draw no more than was approved. -/
theorem Reaches.taken_le_approved (h : Reaches ls w) (a : Address) :
    (ls.map (Label.takenFrom a)).sum ≤ (ls.map (Label.approvedBy a)).sum := by
  have ha : a ∉ spenders a ls := Finset.notMem_erase _ _
  have hS : ∀ l ∈ ls, ∀ key act, l.dealing = some (key,act) → key.spender ≠ a →
      key.spender ∈ spenders a ls := fun _ hl _ _ hd hne => mem_spenders hl hd hne
  calc
    (ls.map (Label.takenFrom a)).sum = ∑ s ∈ spenders a ls, ((acts ⟨a,s⟩ ls).map Act.drawn).sum :=
      (sum_acts ha hS).symm
    _ ≤ ∑ s ∈ spenders a ls, ((acts ⟨a,s⟩ ls).map Act.ceiling).sum := by
      refine Finset.sum_le_sum fun s hs => ?_
      have hne : a ≠ s := (Finset.ne_of_mem_erase hs).symm
      have hkept := (h.recorded ⟨a,s⟩ hne).kept.total_drawn_le
      exact (le_add_of_nonneg_right (remaining_nonneg _)).trans hkept
    _ = (ls.map (Label.approvedBy a)).sum := sum_acts ha hS

/-- Only the account a call debits loses shares in it. -/
theorem Step.debited_of_falls (h : Step w l t) (hfall : t.storage.sharesOf a < w.storage.sharesOf a) :
    l.call.debited = some a := by
  cases h.accounts with
  | @mint pool asset receiver from_ operator v assets moved b n hm =>
    have hn := hm.mints.shares_pos
    rw [hm.sharesOf] at hfall
    by_cases ha : a = receiver
    · subst ha
      rw [if_pos rfl] at hfall
      omega
    · rw [if_neg ha] at hfall
      omega
  | @burn pool asset receiver owner operator v u moved b n hb =>
    rw [hb.sharesOf] at hfall
    by_cases ha : a = owner
    · rw [ha]
      exact hb.call.debited
    · rw [if_neg ha] at hfall
      omega
  | @move from_ to_ amount hm =>
    have hpos := hm.moves.amount_pos
    rw [hm.sharesOf,Storage.sharesOf_moved] at hfall
    by_cases ha : a = from_
    · rcases hm.call with hc | ⟨spender,hc⟩ <;> rw [hc,ha] <;> rfl
    · by_cases hto : a = to_
      · rw [if_pos hto,← hto] at hfall
        omega
      · rw [if_neg hto,if_neg ha] at hfall
        omega
  | compound hc =>
    rw [hc.sharesOf] at hfall
    omega
  | idle hi =>
    rw [hi.sharesOf] at hfall
    omega

/-- In a call that `a` has not signed it loses no more than others draw on its allowances. -/
theorem Step.loss_le_taken (h : Step w l t) (hunsigned : l.call.debited = some a → a ∉ l.auths) :
    w.storage.sharesOf a ≤ t.storage.sharesOf a+l.takenFrom a ∧ 0 ≤ l.takenFrom a := by
  have hnonneg : 0 ≤ l.takenFrom a := by
    unfold Label.takenFrom Label.delegated
    cases h.authority with
    | grant hdealing => rw [hdealing]; simp [Act.drawn]
    | draw hpos hdealing =>
      rw [hdealing]
      dsimp only [Act.drawn]
      split
      · exact hpos.le
      · exact le_rfl
    | none hdealing => rw [hdealing]
  refine ⟨?_,hnonneg⟩
  by_cases hfall : t.storage.sharesOf a < w.storage.sharesOf a
  · rcases h.authority.falls hfall with hsigned | ⟨spender,n,hne,-,hdealing,-,hle,-⟩
    · exact absurd hsigned (hunsigned (h.debited_of_falls hfall))
    · have htaken : l.takenFrom a = n := by
        simp [Label.takenFrom,Label.delegated,hdealing,Act.drawn,hne.symm]
      omega
  · omega

/-- An account that signs for no debit of its own loses at most what it has ever approved and others
have not yet drawn, whoever acts and in whatever order. -/
theorem unsigned_loss_le_approved (h : Reaches ls w) (hrun : Run Step w ms t)
    (hunsigned : ∀ l ∈ ms, l.call.debited = some a → a ∉ l.auths) :
    w.storage.sharesOf a+(ls.map (Label.takenFrom a)).sum ≤
      t.storage.sharesOf a+((ls ++ ms).map (Label.approvedBy a)).sum := by
  have hloss : w.storage.sharesOf a ≤ t.storage.sharesOf a+(ms.map (Label.takenFrom a)).sum ∧
      Reaches (ls ++ ms) t := by
    refine (hrun.with_labels hunsigned).history (fun ms t => w.storage.sharesOf a ≤
      t.storage.sharesOf a+(ms.map (Label.takenFrom a)).sum ∧ Reaches (ls ++ ms) t) ?_ ?_
    · simpa using h
    · rintro ms t l u ⟨hstep,hl⟩ ⟨hle,w₀,hdeployed,hreach⟩
      have hstep_le := (hstep.loss_le_taken hl).1
      refine ⟨?_,w₀,hdeployed,?_⟩
      · simp only [List.map_append,List.map_cons,List.map_nil,List.sum_append,List.sum_cons,
          List.sum_nil]
        omega
      · rw [← List.append_assoc]
        exact .snoc hreach hstep
  have htaken := hloss.2.taken_le_approved a
  rw [List.map_append,List.sum_append] at htaken
  linarith [hloss.1]

end Delegated

section Sample
attribute [local instance] FixedPoint.documented

/-- Of forty shares approved to two spenders, one of them twice, account 7 loses twenty-six. -/
theorem unsigned_loss_le_approved_sample : ∃ (w t : World ℕ ℤ) (ms : List (Label ℕ ℤ)),
    ms.map Label.call = [.approve 7 8 20 9,.transferFrom 8 7 8 15,.approve 7 9 10 9,
      .approve 7 8 10 9,.redeem 8 8 7 8,.transferFrom 9 7 9 3] ∧
      w.storage.sharesOf 7 ≤ t.storage.sharesOf 7+40 := by
  obtain ⟨ls,w,hreaches,hq⟩ := exists_reaches (referenceEnv scalar12 0 0) 1 2 3 4 0
    (referenceCalls [((scalar12,0,1),.deposit 100 7 7 7)])
    (fun ls w => (ls.map (Label.takenFrom 7)).sum = 0 ∧ (ls.map (Label.approvedBy 7)).sum = 0 ∧
      (replay w (referenceCalls [((scalar12,0,2),.approve 7 8 20 9),
        ((scalar12,0,2),.transferFrom 8 7 8 15),((scalar12,0,3),.approve 7 9 10 9),
        ((scalar12,0,3),.approve 7 8 10 9),((scalar12,0,4),.redeem 8 8 7 8),
        ((scalar12,0,5),.transferFrom 9 7 9 3)])).any
        (fun p => p.1.map Label.call = [.approve 7 8 20 9,.transferFrom 8 7 8 15,
          .approve 7 9 10 9,.approve 7 8 10 9,.redeem 8 8 7 8,.transferFrom 9 7 9 3] ∧
          (p.1.map (Label.approvedBy 7)).sum = 40 ∧
          ∀ l ∈ p.1, l.call.debited = some 7 → 7 ∉ l.auths)) (by decide)
  obtain ⟨htaken,happroved,hq⟩ := of_decide_eq_true hq
  obtain ⟨⟨ms,t⟩,hreplay,hq⟩ := (Option.any_eq_true _ _).mp hq
  obtain ⟨hcalls,happroved',hunsigned⟩ := of_decide_eq_true hq
  have hrun : Run Step w ms t := (replay_run hreplay).mono fun _ _ _ h => h.1
  have hle := unsigned_loss_le_approved hreaches hrun hunsigned
  rw [List.map_append,List.sum_append,htaken,happroved,happroved',add_zero,zero_add] at hle
  exact ⟨w,t,ms,hcalls,hle⟩

end Sample
end BlendVault
