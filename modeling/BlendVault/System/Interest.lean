import BlendVault.Foundations.Accrual
import BlendVault.System.EventLog
import BlendVault.System.Tracking

/-! The vault on an exact pool as an account that bears interest: its bTokens are the units, the
pool's rate the rate. What they are worth is what was supplied, by depositors or out of emissions,
less what was paid out, with the interest, short only of the roundings. -/
namespace BlendVault
open FailStop RoundedDivision Accrual

section Interest
variable {Address W : Type} [DecidableEq Address] [FixedPoint] {position : W → ℤ}
  {ρ : Label Address W → ℤ}

/-- A step on an exact pool whose rate is `ρ`. -/
structure RatedStep (position : W → ℤ) (ρ : Label Address W → ℤ) (w : World Address W)
    (l : Label Address W) (w' : World Address W) : Prop where
  step : Step w l w'
  untouched : position l.found = position w.outside
  rate_pos : 0 < ρ l
  exact : ∀ pool asset, w.storage.Serves pool asset → ExactPool l.env pool asset position (ρ l)

/-- The call as an entry of the account: the one request it made to the pool, if any. -/
def Label.entry (ρ : Label Address W → ℤ) (l : Label Address W) : Entry where
  rate := ρ l
  dealing :=
    match l.flows with
    | [.supplied _ amount _] => .putIn amount
    | [.withdrawn _ amount _] => .takeOut amount
    | _ => .rest

/-- The account the calls lead to, starting from nothing. -/
def accountOf (ρ : Label Address W → ℤ) (ls : List (Label Address W)) : Account :=
  Account.close scalar12 ⟨0,0⟩ (ls.map (Label.entry ρ))

/-- The interest the vault's bTokens have earned over the calls. -/
def interestOf (ρ : Label Address W → ℤ) (ls : List (Label Address W)) : ℤ :=
  Account.interest scalar12 ⟨0,0⟩ (ls.map (Label.entry ρ))

variable {w w' : World Address W} {l : Label Address W} {ls : List (Label Address W)}
  {v v₀ : VaultData} {pool asset receiver from_ owner operator : Address} {u moved b n : ℤ}

omit [DecidableEq Address] [FixedPoint] in
@[simp] theorem accountOf_concat :
    accountOf ρ (ls ++ [l]) = (accountOf ρ ls).after scalar12 (l.entry ρ) := by
  simp [accountOf]

theorem RatedStep.exactStep (h : RatedStep position ρ w l w') : ExactStep position w l w' :=
  ⟨h.step,h.untouched,fun pool asset hserves => ⟨ρ l,h.rate_pos,h.exact pool asset hserves⟩⟩

omit [DecidableEq Address] [FixedPoint] in
/-- No request hands over units. -/
theorem Label.entry_gift : (l.entry ρ).gift = 0 := by
  unfold Label.entry Entry.gift
  rcases l.flows with _ | ⟨_ | _,_ | _⟩ <;> rfl

/-- The call's entry does to the units what the call does to the vault's position, and enters what
was moved. -/
def Enters (position : W → ℤ) (ρ : Label Address W → ℤ) (w : World Address W) (l : Label Address W)
    (w' : World Address W) : Prop :=
  (∀ c : Account, c.units = position w.outside →
    (c.after scalar12 (l.entry ρ)).units = position w'.outside) ∧ (l.entry ρ).net = l.inflow

theorem Mint.enters {assets : ℤ}
    (h : Mint w l w' pool asset receiver from_ operator v assets moved b n)
    (hstep : RatedStep position ρ w l w') : Enters position ρ w l w' := by
  obtain ⟨hmoved,hposition⟩ := (hstep.exact _ _ h.serves).supply h.supplied
  have hentry : l.entry ρ = ⟨ρ l,.putIn assets⟩ := by
    rw [Label.entry,h.flows]
  refine ⟨fun c hc => ?_,?_⟩
  · rw [hentry,hposition,hstep.untouched,← hc]
    rfl
  · rw [hentry,Label.inflow,h.flows,hmoved]
    simp [Entry.net,Flow.inflow]

theorem Burn.enters (h : Burn w l w' pool asset receiver owner operator v u moved b n)
    (hstep : RatedStep position ρ w l w') (hv₀ : w.storage.vaultData = some v₀)
    (hp : v₀.totalBTokens = position l.found) : Enters position ρ w l w' := by
  have hexact := hstep.exact _ _ h.serves
  obtain ⟨-,hmoved,hcovers⟩ := h.tracks hexact hstep.rate_pos hv₀ hp
  have hposition := ((hexact.withdraw h.paid).1 hcovers).2
  have hentry : l.entry ρ = ⟨ρ l,.takeOut u⟩ := by
    rw [Label.entry,h.flows]
  refine ⟨fun c hc => ?_,?_⟩
  · rw [hentry,hposition,hstep.untouched,← hc]
    rfl
  · rw [hentry,Label.inflow,h.flows,hmoved]
    simp [Entry.net,Flow.inflow]

theorem Compound.enters {received : ℤ} (h : Compound w l w' pool asset v received moved b)
    (hstep : RatedStep position ρ w l w') : Enters position ρ w l w' := by
  have hexact := hstep.exact _ _ h.serves
  have hposition := h.position_eq hexact
  obtain ⟨swapped,-,hsupply⟩ := h.inflow
  have hmoved := (hexact.supply hsupply).1
  have hentry : l.entry ρ = ⟨ρ l,.putIn received⟩ := by
    rw [Label.entry,h.flows]
  refine ⟨fun c hc => ?_,?_⟩
  · rw [hentry,hposition,hstep.untouched,← hc]
    rfl
  · rw [hentry,Label.inflow,h.flows,hmoved]
    simp [Entry.net,Flow.inflow]

omit [DecidableEq Address] [FixedPoint] in
/-- A call without a request leaves the position and enters nothing. -/
theorem enters_of_rest (hflows : l.flows = []) (hsame : position w'.outside = position w.outside) :
    Enters position ρ w l w' := by
  have hentry : l.entry ρ = ⟨ρ l,.rest⟩ := by
    rw [Label.entry,hflows]
  refine ⟨fun c hc => ?_,?_⟩
  · rw [hentry,hsame,← hc]
    rfl
  · rw [hentry,Label.inflow,hflows]
    simp [Entry.net]

theorem RatedStep.enters (h : RatedStep position ρ w l w') (hw : Tracks position w) :
    Enters position ρ w l w' := by
  obtain ⟨v₀,hv₀,hp⟩ := hw
  rw [← h.untouched] at hp
  cases h.step.accounts with
  | mint hm => exact hm.enters h
  | burn hb => exact hb.enters h hv₀ hp
  | move hm => exact enters_of_rest hm.flows (by rw [hm.outside,h.untouched])
  | compound hc => exact hc.enters h
  | idle hi =>
    refine enters_of_rest hi.flows ?_
    rcases hi.outside with hout | ⟨pool,asset,ids,hserves,hclaim⟩
    · rw [hout,h.untouched]
    · rw [(h.exact pool asset hserves).claim hclaim,h.untouched]

/-- The vault keeps the account: its units are the position, and what was entered was moved. -/
structure KeepsAccount (position : W → ℤ) (ρ : Label Address W → ℤ) (ls : List (Label Address W))
    (w : World Address W) : Prop where
  tracks : Tracks position w
  units : (accountOf ρ ls).units = position w.outside
  net : ((ls.map (Label.entry ρ)).map Entry.net).sum = (ls.map Label.inflow).sum
  rates : ∀ e ∈ ls.map (Label.entry ρ), 0 < e.rate

theorem keepsAccount_of_run {w₀ : World Address W} (h₀ : ExactDeployed position w₀)
    (hrun : Run (RatedStep position ρ) w₀ ls w) : KeepsAccount position ρ ls w := by
  refine hrun.history (KeepsAccount position ρ)
    ⟨h₀.tracks,h₀.vacant.symm,rfl,by simp⟩ ?_
  intro ls t l u hstep ht
  obtain ⟨hunits,hnet⟩ := hstep.enters ht.tracks
  refine ⟨(hstep.exactStep.tracks ht.tracks).1,?_,?_,?_⟩
  · rw [accountOf_concat]
    exact hunits _ ht.units
  · simp only [List.map_append,List.sum_append,ht.net,List.map_cons,List.map_nil,List.sum_cons,
      List.sum_nil,hnet]
  · intro e he
    rw [List.map_append,List.mem_append] at he
    rcases he with he | he
    · exact ht.rates e he
    · rw [List.map_singleton,List.mem_singleton] at he
      rw [he]
      exact hstep.rate_pos

/-- Everything is accounted for: after any run on an exact pool the vault's bTokens are worth, at
the last rate, what was supplied less what was paid out, with the interest they have earned; less
than the worth of one bToken is lost for each request made to the pool, and nothing is gained. -/
theorem worth_accounted {w₀ t : World Address W} (h₀ : ExactDeployed position w₀)
    (hrun : Run (RatedStep position ρ) w₀ ls t) (hlast : RatedStep position ρ t l w) :
    ∃ v, w.storage.vaultData = some v ∧
      v.totalBTokens*ρ l ≤
        scalar12*((ls ++ [l]).map Label.inflow).sum+interestOf ρ (ls ++ [l]) ∧
      scalar12*((ls ++ [l]).map Label.inflow).sum+interestOf ρ (ls ++ [l]) ≤
        v.totalBTokens*ρ l+(((ls ++ [l]).map (Label.entry ρ)).map Entry.slack).sum := by
  obtain ⟨⟨v,hv,hp⟩,hunits,hnet,hrates⟩ := keepsAccount_of_run h₀ (.snoc hrun hlast)
  have hrate : (accountOf ρ (ls ++ [l])).rate = ρ l := by
    rw [accountOf_concat,Account.after_rate]
    rfl
  have hworth : (accountOf ρ (ls ++ [l])).worth = v.totalBTokens*ρ l := by
    rw [Account.worth,hunits,hrate,hp]
  obtain ⟨hle,hge⟩ := Account.close_worth (k := scalar12) (c := ⟨0,0⟩) hrates
  have hgift : (((ls ++ [l]).map (Label.entry ρ)).map Entry.gift).sum = 0 := by
    apply List.sum_eq_zero
    simp only [List.forall_mem_map]
    exact fun m _ => m.entry_gift
  change (accountOf ρ (ls ++ [l])).worth ≤ scalar12*_+_+interestOf ρ (ls ++ [l])+0*0 at hle
  change scalar12*_+_+interestOf ρ (ls ++ [l])+0*0 ≤ (accountOf ρ (ls ++ [l])).worth+_ at hge
  rw [hnet,hgift,hworth,zero_mul,add_zero,add_zero] at hle hge
  exact ⟨v,hv,hle,hge⟩

end Interest

section Sample
attribute [local instance] FixedPoint.documented

/-- The rate the reference pool reports in a call. -/
def referenceRate (l : Label ℕ ℤ) : ℤ := (l.env.bRate 2 3 l.found).getD 0

theorem ratedStep_of_referenceCalls (cs : List ((ℤ × ℤ × ℕ) × Call ℕ)) (hr : ∀ c ∈ cs, 0 < c.1.1)
    {t u : World ℕ ℤ} {l : Label ℕ ℤ} (hstep : Step t l u) (hfound : l.found = t.outside)
    (hmem : (l.env,l.call) ∈ referenceCalls cs) : RatedStep id referenceRate t l u := by
  obtain ⟨c,hc,hcall⟩ := List.mem_map.mp hmem
  have henv : referenceEnv c.1.1 c.1.2.1 c.1.2.2 = l.env := congrArg Prod.fst hcall
  have hrate : referenceRate l = c.1.1 := by
    rw [referenceRate,← henv]
    rfl
  refine ⟨hstep,hfound,hrate ▸ hr c hc,fun pool asset _ => ?_⟩
  rw [hrate,← henv]
  exact referenceEnv_exact (hr c hc)

/-- A thousand put in at 1.5, emissions of thirty, and four hundred shares redeemed at 1.4: the rate
has fallen by a tenth on 686 bTokens. -/
theorem worth_accounted_sample : ∃ (ls : List (Label ℕ ℤ)) (w : World ℕ ℤ) (v : VaultData),
    ls.map Label.call = [.setRouter 5,.deposit 1000 7 7 7,.claimEmissions 0,.redeem 400 7 7 7] ∧
      w.storage.vaultData = some v ∧ interestOf referenceRate ls = -68600000000000 ∧
      v.totalBTokens*1400000000000 ≤
        scalar12*(ls.map Label.inflow).sum+interestOf referenceRate ls := by
  obtain ⟨w₀,ls,w,hdeploy,hrun,hq⟩ := exists_run (e := referenceEnv 1500000000000 0 0)
    (fun _ _ _ => ratedStep_of_referenceCalls
      [((1500000000000,0,1),.setRouter 5),((1500000000000,0,1),.deposit 1000 7 7 7),
        ((1500000000000,30,2),.claimEmissions 0),((1400000000000,0,3),.redeem 400 7 7 7)] (by decide))
    (fun ls _ => ls.map Label.call =
        [.setRouter 5,.deposit 1000 7 7 7,.claimEmissions 0,.redeem 400 7 7 7] ∧
      ls.map referenceRate = [1500000000000,1500000000000,1500000000000,1400000000000] ∧
      interestOf referenceRate ls = -68600000000000)
    (show (simulate _ 1 2 3 4 0 _).any _ = true by decide)
  obtain ⟨hcalls,hrates,hinterest⟩ := of_decide_eq_true hq
  cases hrun with
  | nil => cases hcalls
  | @snoc ls l t u hrun hlast =>
    have hrate : referenceRate l = 1400000000000 := by
      simpa using congrArg List.getLast? hrates
    obtain ⟨v,hv,hle,-⟩ := worth_accounted (exactDeployed_of_deploy hdeploy) hrun hlast
    rw [hrate] at hle
    exact ⟨_,_,v,hcalls,hv,hinterest,hle⟩

end Sample
end BlendVault
