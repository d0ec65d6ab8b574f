import BlendVault.System.Overflow

/-! What a deposit leaves its depositor with. Into a vault with shares it may cost a bToken and
a share to the roundings; into one without, it takes over whatever bTokens are left. -/
namespace BlendVault
open FailStop RoundedDivision ProRata

namespace VaultData
variable [FixedPoint] {v : VaultData} {amount b s x : ℤ}

theorem Mints.shares_lt (h : v.Mints amount b s) (hS : 0 < v.totalShares)
    (hB : 0 < v.totalBTokens) : b*v.totalShares < (s+1)*v.totalBTokens := by
  rw [h.shares_eq hS hB]
  exact Int.lt_ediv_add_one_mul_self _ hB

/-- With as many shares as bTokens, a share is quoted at a bToken. -/
theorem sharesToBTokensDown_of_par (hS : 0 < v.totalShares)
    (hpar : v.totalBTokens = v.totalShares) (hfit : InI128 (x*v.totalBTokens)) :
    v.sharesToBTokensDown x = some x := by
  refine (sharesToBTokensDown_eq_some hS).mpr ⟨hfit,?_⟩
  rw [quote,v.fund_units,v.fund_assets,hpar,Int.mul_ediv_cancel _ hS.ne']

end VaultData

section Cost
variable {Address W : Type} [DecidableEq Address] [FixedPoint] {e : Env Address W}
  {pool asset user : Address} {f g : Frame Address W} {v : VaultData} {amount b s : ℤ}

/-- Quoted right after a deposit, the shares it minted are worth at most the bTokens supplied,
and less than a bToken and a share's old price below them. -/
theorem deposit_costs_a_share (hv : e.refreshed pool asset f.ext f.storage = some v)
    (hS : 0 < v.totalShares) (hB : 0 < v.totalBTokens)
    (hret : Returns (Vault.deposit e pool asset user amount) f (b,s) g) :
    0 < b ∧ 0 < s ∧ ∃ v' q, g.storage.vaultData = some v' ∧
      v'.totalShares = v.totalShares+s ∧ v'.totalBTokens = v.totalBTokens+b ∧
      q = s*(v.totalBTokens+b)/(v.totalShares+s) ∧
      (InI128 (s*v'.totalBTokens) → v'.sharesToBTokensDown s = some q) ∧
      q ≤ b ∧ v.totalShares*(b-q-1) < v.totalBTokens := by
  obtain ⟨v₀,b₀,s₀,hp,hv₀,hm,-,-,-,hg⟩ := Vault.returns_deposit.mp hret
  cases hp
  cases hv.symm.trans hv₀
  have hs := hm.shares_pos
  have hS' : 0 < v.totalShares+s := add_pos hS hs
  refine ⟨hm.bTokens_pos,hs,v.minted b s,quote (v.fund.issue s b) s,?_,rfl,rfl,rfl,?_,?_,?_⟩
  · rw [hg]
    rfl
  · intro hfit
    exact (VaultData.sharesToBTokensDown_eq_some hS').mpr ⟨hfit,rfl⟩
  · exact quote_issue_le hS' (hm.price hS hB.le)
  · exact issue_loss_lt (f := v.fund) hS hB hs.le (hm.shares_lt hS hB)

end Cost

section Opening
variable {Address W : Type} [DecidableEq Address] [FixedPoint] {w w' : World Address W}
  {l : Label Address W} {v : VaultData}

/-- The call is a deposit into a vault without shares. -/
def Label.Opens (w : World Address W) (l : Label Address W) : Prop :=
  (∃ assets receiver from_ operator, l.call = .deposit assets receiver from_ operator) ∧
    ∃ v, w.storage.vaultData = some v ∧ v.totalShares = 0

/-- At one bRate `convertToAssets` gives the same in both worlds, whatever amount is asked for
as long as its product with the bTokens fits. -/
def SameQuotes (w w' : World Address W) : Prop :=
  ∀ (e e' : Env Address W) (ext ext' : W) (pool asset : Address) (r x a : ℤ) (v' : VaultData),
    w.storage.Serves pool asset → e.bRate pool asset ext = some r →
    e'.bRate pool asset ext' = some r → w'.storage.vaultData = some v' →
    InI128 (x*v'.totalBTokens) →
    (Returns (EntryPoints.convertToAssets e x) (.fresh w.storage ext) a (.fresh w.storage ext) ↔
      Returns (EntryPoints.convertToAssets e' x) (.fresh w'.storage ext') a
        (.fresh w'.storage ext'))

/-- Quotes stay as they were, and the new shares are worth exactly the bTokens supplied. -/
structure OpensHonestly (w w' : World Address W) : Prop where
  quotes : SameQuotes w w'
  worth : ∀ v v', w.storage.vaultData = some v → w'.storage.vaultData = some v' →
    v'.exactBTokens (v'.totalShares-v.totalShares) = v'.totalBTokens-v.totalBTokens

omit [DecidableEq Address] in
/-- A quote takes the stored totals and the bRate. -/
theorem returns_quote {e : Env Address W} {s : Storage Address} {ext : W} {pool asset : Address}
    {r x a : ℤ} (hserves : s.Serves pool asset) (hv : s.vaultData = some v)
    (hr : e.bRate pool asset ext = some r) :
    Returns (EntryPoints.convertToAssets e x) (.fresh s ext) a (.fresh s ext) ↔
      (x ≤ 0 ∧ a = 0) ∨ (0 < x ∧ ∃ d, v.sharesToBTokensDown x = some d ∧
        FixedPoint.fixedMulFloor d r scalar12 = some a) := by
  have hrefreshed := Env.refreshed_of_rate hv hr
  rw [EntryPoints.returns_convertToAssets]
  constructor
  · intro h
    obtain ⟨-,h0 | ⟨hx,pool',asset',v₁,d,hpool,hasset,hv₁,hd,ha⟩⟩ := h
    · exact .inl h0
    · obtain ⟨rfl,rfl⟩ := hserves.unique ⟨hpool,hasset⟩
      cases hrefreshed.symm.trans hv₁
      exact .inr ⟨hx,d,hd,ha⟩
  · intro h
    obtain h0 | ⟨hx,d,hd,ha⟩ := h
    · exact ⟨rfl,.inl h0⟩
    · exact ⟨rfl,.inr ⟨hx,pool,asset,_,d,hserves.pool_eq,hserves.asset_eq,hrefreshed,hd,ha⟩⟩

/-- A first deposit is honest exactly when there are no bTokens for it to take over. -/
theorem Step.opensHonestly_iff (h : Step w l w') (hopens : l.Opens w)
    (hv : w.storage.vaultData = some v) : OpensHonestly w w' ↔ v.totalBTokens = 0 := by
  obtain ⟨⟨assets,receiver,from_,operator,hcall⟩,v₀,hv₀,h0⟩ := hopens
  cases hv.symm.trans hv₀
  cases h.outcome with
  | @deposit e found ext assets moved b n receiver from_ operator pool asset v₁ _ _ serves _ rate
      mints _ _ =>
    have hS := Env.refreshed_totalShares rate hv
    have hB := Env.refreshed_totalBTokens rate hv
    have hn : n = b := mints.shares_eq_of_empty (.inl (hS.trans h0))
    have hb := mints.bTokens_pos
    have hS' : (v₁.minted b n).totalShares = b := by
      rw [VaultData.minted_totalShares,hS,h0,hn,zero_add]
    have hB' : (v₁.minted b n).totalBTokens = v.totalBTokens+b := by
      rw [VaultData.minted_totalBTokens,hB]
    have hv' : (w.storage.settled (v₁.minted b n) receiver
        (w.storage.sharesOf receiver+n)).vaultData = some (v₁.minted b n) := rfl
    constructor
    · intro hhonest
      have hworth := hhonest.worth v _ hv hv'
      rw [h0,sub_zero,VaultData.exactBTokens_totalShares (by omega)] at hworth
      omega
    · intro hempty
      have hpar : (v₁.minted b n).totalBTokens = (v₁.minted b n).totalShares := by omega
      refine ⟨?_,?_⟩
      · intro e₁ e₂ ext₁ ext₂ pool asset r x a v' hserves hr hr' hstored hfit
        cases hv'.symm.trans hstored
        have hserves' : (w.storage.settled (v₁.minted b n) receiver
            (w.storage.sharesOf receiver+n)).Serves pool asset :=
          ⟨hserves.pool_eq,hserves.asset_eq⟩
        rw [returns_quote hserves hv hr,returns_quote hserves' hv' hr',
          VaultData.sharesToBTokensDown_of_par (by omega) hpar hfit,
          show v.sharesToBTokensDown x = some x from if_pos h0]
      · intro v₂ v' hv₂ hstored
        cases hv.symm.trans hv₂
        cases hv'.symm.trans hstored
        rw [h0,sub_zero,VaultData.exactBTokens_totalShares (by omega)]
        omega
  | _ => cases hcall

/-- The runs in which no first deposit finds bTokens are the runs in which every first deposit
leaves the quotes alone and gets what it supplies. -/
theorem first_deposits_honest_iff {w₀ : World Address W} {ls : List (Label Address W)} :
    Run (fun w l w' => Step w l w' ∧
        (l.Opens w → ∀ v, w.storage.vaultData = some v → v.totalBTokens = 0)) w₀ ls w ↔
      Run (fun w l w' => Step w l w' ∧ (l.Opens w → OpensHonestly w w')) w₀ ls w := by
  apply Run.congr
  intro t l u
  refine and_congr_right fun hstep => imp_congr_right fun hopens => ?_
  obtain ⟨v,hv,-⟩ := hopens.2
  rw [hstep.opensHonestly_iff hopens hv]
  constructor
  · intro hempty
    exact hempty v hv
  · intro hempty v' hv'
    cases hv.symm.trans hv'
    exact hempty

end Opening

section Sample
attribute [local instance] FixedPoint.documented

/-- Thirty shares over forty bTokens: a deposit of seven mints five shares, quoted at six. -/
theorem deposit_costs_a_share_sample : ∃ (f g : Frame ℕ ℤ) (q : ℤ),
    Returns (Vault.deposit (referenceEnv scalar12 0 1) 2 3 7 7) f (7,5) g ∧ q ≤ 7 ∧
      30*(7-q-1) < 40 := by
  obtain ⟨g,hret⟩ := value_eq_some.mp (show value
    (Vault.deposit (referenceEnv scalar12 0 1) 2 3 7 7) (.fresh
      (referenceWorld ⟨0,scalar12,30,40⟩ [(7,20),(8,10)] 40).storage 40) = some (7,5) by decide)
  obtain ⟨-,-,v',q,-,-,-,-,-,hle,hlt⟩ := deposit_costs_a_share
    (v := ⟨0,scalar12,30,40⟩) rfl (by decide) (by decide) hret
  exact ⟨_,g,q,hret,hle,hlt⟩

/-- A bToken is left behind by a full exit at a rate of one half. The next depositor supplies one
bToken for one share, quoted at one underlying before the deposit and at two after it. -/
theorem first_deposit_takes_over : ∃ (w₀ : World ℕ ℤ) (ls : List (Label ℕ ℤ)) (w : World ℕ ℤ)
    (l : Label ℕ ℤ) (w' : World ℕ ℤ), Deployed w₀ ∧ Run OrdinaryStep w₀ ls w ∧ Step w l w' ∧
      ls.map Label.call = [.deposit 3 7 7 7,.redeem 3 7 7 7] ∧ l.call = .deposit 1 8 8 8 ∧
      w.storage.vaultData = some ⟨0,500000000000,0,1⟩ ∧
      Returns (EntryPoints.convertToAssets (referenceEnv scalar12 0 3) 1)
        (.fresh w.storage w.outside) 1 (.fresh w.storage w.outside) ∧
      Returns (EntryPoints.convertToAssets (referenceEnv scalar12 0 3) 1)
        (.fresh w'.storage w'.outside) 2 (.fresh w'.storage w'.outside) := by
  obtain ⟨w₀,ls,w,hdeploy,hrun,hq⟩ := exists_run (e := referenceEnv scalar12 0 0)
    (ordinaryStep_of_referenceCalls
      [((scalar12,0,1),.deposit 3 7 7 7),((500000000000,0,2),.redeem 3 7 7 7)]
      (by simp [Call.Trades]) (by decide))
    (fun ls w => ls.map Label.call = [.deposit 3 7 7 7,.redeem 3 7 7 7] ∧
      w.storage.vaultData = some ⟨0,500000000000,0,1⟩ ∧ w.storage.pool = some 2 ∧
      w.storage.asset = some 3 ∧
      (attempt w (referenceEnv scalar12 0 3) (.deposit 1 8 8 8)).any
        (fun p => decide (p.2.storage.vaultData = some ⟨0,scalar12,1,2⟩ ∧
          p.2.storage.pool = some 2 ∧ p.2.storage.asset = some 3)) = true)
    (show (simulate _ 1 2 3 4 0 _).any _ = true by decide)
  obtain ⟨hcalls,hv,hpool,hasset,hattempt⟩ := of_decide_eq_true hq
  obtain ⟨l,w',hstep,-,hcall,-,hq'⟩ := exists_step w (referenceEnv scalar12 0 3)
    (.deposit 1 8 8 8) (fun _ w' => decide (w'.storage.vaultData = some ⟨0,scalar12,1,2⟩ ∧
      w'.storage.pool = some 2 ∧ w'.storage.asset = some 3)) hattempt
  obtain ⟨hv',hpool',hasset'⟩ := of_decide_eq_true hq'
  refine ⟨w₀,ls,w,l,w',deploy_deployed hdeploy,hrun,hstep,hcalls,hcall,hv,?_,?_⟩
  · exact (returns_quote ⟨hpool,hasset⟩ hv rfl).mpr (.inr ⟨by decide,1,by decide,by decide⟩)
  · exact (returns_quote ⟨hpool',hasset'⟩ hv' rfl).mpr (.inr ⟨by decide,2,by decide,by decide⟩)

end Sample
end BlendVault
