import BlendVault.Foundations.Position
import BlendVault.System.Requests

/-! A user who deposits and takes out again while nobody else acts, at a constant bRate. The
bookkeeping then trades with one holder of the vault's bTokens, so that the user gets no more
out than it puts in and its shares were worth. -/
namespace BlendVault
open FailStop RoundedDivision ProRata

/-- The three operations of the bookkeeping. -/
inductive Way
  | deposit
  | withdraw
  | redeem
  deriving Repr, DecidableEq

/-- An operation that has returned: what it was asked for, underlying or for a redemption
shares, and the underlying, bTokens and shares that changed hands. -/
structure Deal where
  way : Way
  amount : ℤ
  underlying : ℤ
  bTokens : ℤ
  shares : ℤ
  deriving Repr, DecidableEq

/-- The shares and the bTokens behind them. -/
def Deal.lot (l : Deal) : Lot ℤ := ⟨l.shares,l.bTokens⟩

def totalDeposited (ls : List Deal) : ℤ :=
  (ls.map fun l => if l.way = .deposit then l.underlying else 0).sum

def totalPaid (ls : List Deal) : ℤ :=
  (ls.map fun l => if l.way = .deposit then 0 else l.underlying).sum

theorem totalDeposited_concat (ls : List Deal) (l : Deal) :
    totalDeposited (ls ++ [l]) = totalDeposited ls+if l.way = .deposit then l.underlying else 0 := by
  simp [totalDeposited]

theorem totalPaid_concat (ls : List Deal) (l : Deal) :
    totalPaid (ls ++ [l]) = totalPaid ls+if l.way = .deposit then 0 else l.underlying := by
  simp [totalPaid]

section Solo
variable {Address W : Type} [DecidableEq Address] [FixedPoint]

/-- One operation by `user`, in whatever environment reports a bRate of `r`. -/
inductive SoloStep (W : Type) (r : ℤ) (user : Address) :
    Storage Address → Deal → Storage Address → Prop
  | deposit (e : Env Address W) (pool asset : Address) (f : Frame Address W) {g amount b n}
      (rate : e.bRate pool asset f.ext = some r)
      (returns : Returns (Vault.deposit e pool asset user amount) f (b,n) g) :
      SoloStep W r user f.storage ⟨.deposit,amount,amount,b,n⟩ g.storage
  | withdraw (e : Env Address W) (pool asset : Address) (f : Frame Address W) {g amount u b n}
      (rate : e.bRate pool asset f.ext = some r)
      (returns : Returns (Vault.withdraw e pool asset user amount) f (u,b,n) g) :
      SoloStep W r user f.storage ⟨.withdraw,amount,u,b,n⟩ g.storage
  | redeem (e : Env Address W) (pool asset : Address) (f : Frame Address W) {g shares u b}
      (rate : e.bRate pool asset f.ext = some r)
      (returns : Returns (Vault.redeem e pool asset user shares) f (u,b) g) :
      SoloStep W r user f.storage ⟨.redeem,shares,u,b,shares⟩ g.storage

/-- What an operation does, from totals `v` and a balance of `held`. -/
inductive Effect (v : VaultData) (held : ℤ) : Deal → VaultData → ℤ → Prop
  | deposit {amount b n} (mints : v.Mints amount b n) :
      Effect v held ⟨.deposit,amount,amount,b,n⟩ (v.minted b n) (held+n)
  | withdraw {amount u b n} (out : v.Withdraws held amount u b n) (releases : v.Releases b n) :
      Effect v held ⟨.withdraw,amount,u,b,n⟩ (v.burnt b n) (held-n)
  | redeem {n u b} (shares_pos : 0 < n) (enough : n ≤ held) (value : v.Values n u b)
      (underlying_pos : 0 < u) (releases : v.Releases b n) :
      Effect v held ⟨.redeem,n,u,b,n⟩ (v.burnt b n) (held-n)

/-- The stored totals are those of the fund, and the user's balance is what is held of it. -/
structure Storage.Holds (s : Storage Address) (user : Address) (p : Position ℤ) : Prop where
  fund : ∃ v, s.vaultData = some v ∧ v.fund = p.fund
  held : s.sharesOf user = p.held

variable {r : ℤ} {user : Address} {s t : Storage Address} {l : Deal} {v v' : VaultData}
  {held held' : ℤ} {p : Position ℤ} {ls : List Deal}

omit [FixedPoint] in
theorem Env.holds_of_refreshed {e : Env Address W} {pool asset : Address} {ext : W}
    (user : Address) (hv : e.refreshed pool asset ext s = some v) :
    s.Holds user ⟨v.fund,s.sharesOf user⟩ := by
  obtain ⟨w,hw,-,-⟩ := Env.refreshed_eq_some.mp hv
  exact ⟨⟨w,hw,(Env.refreshed_fund hv hw).symm⟩,rfl⟩

omit [FixedPoint] [DecidableEq Address] in
theorem Env.bRate_of_refreshed {e : Env Address W} {pool asset : Address} {ext : W}
    (hv : e.refreshed pool asset ext s = some v) (hrate : e.bRate pool asset ext = some r) :
    v.bRate = r := by
  obtain ⟨-,-,hr,-⟩ := Env.refreshed_eq_some.mp hv
  exact Option.some.inj (hr.symm.trans hrate)

omit [FixedPoint] in
theorem Storage.holds_settled : (s.settled v user held).Holds user ⟨v.fund,held⟩ := by
  refine ⟨⟨v,rfl,rfl⟩,?_⟩
  rw [Storage.sharesOf_settled]
  exact if_pos rfl

/-- Every operation has one of the three effects. -/
theorem SoloStep.effect (h : SoloStep W r user s l t) : ∃ v v' held', v.bRate = r ∧
    s.Holds user ⟨v.fund,s.sharesOf user⟩ ∧ t.Holds user ⟨v'.fund,held'⟩ ∧
      Effect v (s.sharesOf user) l v' held' := by
  cases h with
  | deposit e pool asset f rate returns =>
    obtain ⟨v,b,n,hp,hv,hm,-,-,-,rfl⟩ := Vault.returns_deposit.mp returns
    cases hp
    exact ⟨v,_,_,Env.bRate_of_refreshed hv rate,Env.holds_of_refreshed user hv,
      Storage.holds_settled,.deposit hm⟩
  | withdraw e pool asset f rate returns =>
    obtain ⟨v,u,b,n,hp,hv,hw,hrel,-,rfl⟩ := Vault.returns_withdraw.mp returns
    cases hp
    exact ⟨v,_,_,Env.bRate_of_refreshed hv rate,Env.holds_of_refreshed user hv,
      Storage.holds_settled,.withdraw hw hrel⟩
  | redeem e pool asset f rate returns =>
    obtain ⟨v,u,b,hp,hv,h0,hle,hval,hu,hrel,-,rfl⟩ := Vault.returns_redeem.mp returns
    cases hp
    exact ⟨v,_,_,Env.bRate_of_refreshed hv rate,Env.holds_of_refreshed user hv,
      Storage.holds_settled,.redeem h0 hle hval hu hrel⟩

namespace Effect
variable (h : Effect v held l v' held')
include h

/-- The bTokens minted are worth at most the deposit, and those burnt at least the payment. -/
theorem worth (hr : 0 < v.bRate) :
    (l.way = .deposit → l.bTokens*v.bRate ≤ l.underlying*scalar12) ∧
    (l.way ≠ .deposit → l.underlying*scalar12 ≤ l.bTokens*v.bRate) := by
  cases h with
  | deposit mints =>
    refine ⟨fun _ => ?_,fun hne => absurd rfl hne⟩
    rw [mints.bTokens_eq hr]
    exact ediv_mul_le _ hr
  | withdraw out _ =>
    refine ⟨fun hd => (nomatch hd),fun _ => ?_⟩
    rw [out.bTokens_eq hr]
    exact le_ceilDiv_mul _ hr
  | redeem _ _ value _ _ =>
    refine ⟨fun hd => (nomatch hd),fun _ => ?_⟩
    rw [value.bTokens_eq hr]
    exact le_ceilDiv_mul _ hr

theorem buys (hB : 0 ≤ v.totalBTokens) (hway : l.way = .deposit) :
    Position.Buys ⟨v.fund,held⟩ l.lot ⟨v'.fund,held'⟩ := by
  cases h with
  | deposit mints =>
    exact ⟨mints.shares_pos,mints.bTokens_pos.le,fun hS => mints.price hS hB,rfl⟩
  | withdraw _ _ => cases hway
  | redeem _ _ _ _ _ => cases hway

theorem sells (hr : 0 < v.bRate) (hway : l.way ≠ .deposit) :
    Position.Sells ⟨v.fund,held⟩ l.lot ⟨v'.fund,held'⟩ := by
  cases h with
  | deposit _ => exact absurd rfl hway
  | withdraw out releases =>
    obtain ⟨hpos,hle⟩ := out.shares_pos
    exact ⟨hpos,hle,releases.shares_le,releases.bTokens_le,
      out.price hr (hpos.trans_le releases.shares_le) releases.bTokens_le,rfl⟩
  | redeem shares_pos enough value _ releases =>
    exact ⟨shares_pos,enough,releases.shares_le,releases.bTokens_le,
      value.price hr (shares_pos.trans_le releases.shares_le),rfl⟩

end Effect

omit [FixedPoint] in
theorem Storage.Holds.unique {q : Position ℤ} (h : s.Holds user p) (h' : s.Holds user q) :
    p = q := by
  obtain ⟨⟨v,hv,hp⟩,hheld⟩ := h
  obtain ⟨⟨v',hv',hq⟩,hheld'⟩ := h'
  cases hv.symm.trans hv'
  exact Position.ext (hp.symm.trans hq) (hheld.symm.trans hheld')

/-- The storage shows the position, and its assets are not overdrawn. -/
def Storage.Shows (user : Address) (s : Storage Address) (p : Position ℤ) : Prop :=
  s.Holds user p ∧ 0 ≤ p.fund.assets

section Step
variable (h : SoloStep W r user s l t) (hr : 0 < r)
include h hr

/-- A deposit is a purchase of shares. -/
theorem SoloStep.buys (hs : s.Shows user p) (hway : l.way = .deposit) :
    ∃ q, p.Buys l.lot q ∧ t.Shows user q := by
  obtain ⟨v,v',held',rfl,hs',ht,heffect⟩ := h.effect
  cases hs.1.unique hs'
  have hbuys := heffect.buys hs.2 hway
  have hassets : v'.fund.assets = v.fund.assets+l.lot.assets :=
    congrArg (fun q : Position ℤ => q.fund.assets) hbuys.result
  exact ⟨_,hbuys,ht,hassets ▸ add_nonneg hs.2 hbuys.assets_nonneg⟩

/-- A withdrawal or a redemption is a sale. -/
theorem SoloStep.sells (hs : s.Shows user p) (hway : l.way ≠ .deposit) :
    ∃ q, p.Sells l.lot q ∧ t.Shows user q := by
  obtain ⟨v,v',held',rfl,hs',ht,heffect⟩ := h.effect
  cases hs.1.unique hs'
  have hsells := heffect.sells hr hway
  have hassets : v'.fund.assets = v.fund.assets-l.lot.assets :=
    congrArg (fun q : Position ℤ => q.fund.assets) hsells.result
  exact ⟨_,hsells,ht,hassets ▸ sub_nonneg.mpr hsells.assets_le⟩

theorem SoloStep.trades (hs : s.Shows user p) : ∃ q, p.Trades l.lot q ∧ t.Shows user q := by
  by_cases hway : l.way = .deposit
  · obtain ⟨q,hbuys,ht⟩ := h.buys hr hs hway
    exact ⟨q,.inl hbuys,ht⟩
  · obtain ⟨q,hsells,ht⟩ := h.sells hr hs hway
    exact ⟨q,.inr hsells,ht⟩

theorem SoloStep.worth :
    (l.way = .deposit → l.bTokens*r ≤ l.underlying*scalar12) ∧
    (l.way ≠ .deposit → l.underlying*scalar12 ≤ l.bTokens*r) := by
  obtain ⟨v,v',held',rfl,-,-,heffect⟩ := h.effect
  exact heffect.worth hr

end Step

/-- What has been paid beyond what was deposited is covered by the bTokens that are gone. -/
theorem paid_le_released (hr : 0 < r) (hs : s.Shows user p) (hrun : Run (SoloStep W r user) s ls t) :
    ∃ q, t.Shows user q ∧
      scalar12*(totalPaid ls-totalDeposited ls) ≤ r*(p.fund.assets-q.fund.assets) := by
  refine hrun.history (fun ls t => ∃ q, t.Shows user q ∧
    scalar12*(totalPaid ls-totalDeposited ls) ≤ r*(p.fund.assets-q.fund.assets)) ⟨p,hs,?_⟩ ?_
  · simp [totalPaid,totalDeposited]
  · rintro ls t l u last ⟨q,ht,hle⟩
    rw [totalPaid_concat,totalDeposited_concat]
    by_cases hway : l.way = .deposit
    · obtain ⟨q',hbuys,hu⟩ := last.buys hr ht hway
      have hworth := (last.worth hr).1 hway
      have hassets : q'.fund.assets = q.fund.assets+l.bTokens :=
        congrArg (fun q : Position ℤ => q.fund.assets) hbuys.result
      refine ⟨q',hu,?_⟩
      rw [if_pos hway,if_pos hway,hassets]
      linarith
    · obtain ⟨q',hsells,hu⟩ := last.sells hr ht hway
      have hworth := (last.worth hr).2 hway
      have hassets : q'.fund.assets = q.fund.assets-l.bTokens :=
        congrArg (fun q : Position ℤ => q.fund.assets) hsells.result
      refine ⟨q',hu,?_⟩
      rw [if_neg hway,if_neg hway,hassets]
      linarith

/-- A user who acts alone gets no more out than it puts in and its shares were worth exactly. -/
theorem alone_never_profits {v₀ : VaultData} (hv₀ : s.vaultData = some v₀) (hr : 0 < r)
    (hstart : (0 < v₀.totalShares ∧ 0 < v₀.totalBTokens) ∨
      (v₀.totalShares = 0 ∧ v₀.totalBTokens = 0))
    (hheld : 0 ≤ s.sharesOf user) (hle : s.sharesOf user ≤ v₀.totalShares)
    (hrun : Run (SoloStep W r user) s ls t) :
    v₀.totalShares*scalar12*totalPaid ls ≤
      v₀.totalShares*scalar12*totalDeposited ls+s.sharesOf user*v₀.totalBTokens*r ∧
    (v₀.totalShares = 0 → totalPaid ls ≤ totalDeposited ls) := by
  have hB : 0 ≤ v₀.totalBTokens := by omega
  have hs : s.Shows user ⟨v₀.fund,s.sharesOf user⟩ := ⟨⟨⟨v₀,hv₀,rfl⟩,rfl⟩,hB⟩
  obtain ⟨q,ht,hpaid⟩ := paid_le_released hr hs hrun
  obtain ⟨q',htrades,ht'⟩ := hrun.simulate (Storage.Shows user) Deal.lot hs
    fun _ _ _ _ hstep hshows => hstep.trades hr hshows
  cases ht.1.unique ht'.1
  obtain ⟨hassets,hkeep⟩ := Position.others_keep hheld hle hB htrades
  simp only [VaultData.fund_units,VaultData.fund_assets] at hpaid hkeep
  constructor
  · have hlost : v₀.totalShares*(v₀.totalBTokens-q.fund.assets) ≤
        s.sharesOf user*v₀.totalBTokens := by linarith
    have hscaled := mul_le_mul_of_nonneg_left hpaid (hheld.trans hle)
    have hworth := mul_le_mul_of_nonneg_right hlost hr.le
    linarith
  · intro hS
    have hB₀ : v₀.totalBTokens = 0 := by omega
    rw [hB₀] at hpaid
    have hneg : scalar12*(totalPaid ls-totalDeposited ls) ≤ 0 :=
      hpaid.trans (mul_nonpos_of_nonneg_of_nonpos hr.le (by omega))
    have := nonpos_of_mul_nonpos_right hneg scalar12_pos
    omega

end Solo

section Sample
attribute [local instance] FixedPoint.documented

/-- The holder of twenty of thirty shares in forty bTokens puts eleven in and takes fourteen out,
at a rate of 1.1. -/
theorem alone_never_profits_sample : ∃ (s t : Storage ℕ) (ls : List Deal),
    Run (SoloStep ℤ 1100000000000 7) s ls t ∧ s.sharesOf 7 = 20 ∧
      s.vaultData = some ⟨0,scalar12,30,40⟩ ∧ totalDeposited ls = 11 ∧ totalPaid ls = 14 ∧
      30*scalar12*totalPaid ls ≤ 30*scalar12*totalDeposited ls+20*40*1100000000000 := by
  have hrun : Run (SoloStep ℤ 1100000000000 7)
      (referenceWorld ⟨0,scalar12,30,40⟩ [(7,20),(8,10)] 40).storage
      [⟨.deposit,11,11,10,7⟩,⟨.redeem,7,9,9,7⟩,⟨.withdraw,5,5,5,4⟩] _ :=
    .cons (.deposit (referenceEnv 1100000000000 0 1) 2 3 (.fresh _ 40) rfl rfl)
      (.cons (.redeem (referenceEnv 1100000000000 0 1) 2 3 (.fresh _ 40) rfl rfl)
        (.cons (.withdraw (referenceEnv 1100000000000 0 1) 2 3 (.fresh _ 40) rfl rfl) .nil))
  have hbound := alone_never_profits rfl (by decide) (.inl (by decide)) (by decide) (by decide) hrun
  exact ⟨_,_,_,hrun,rfl,rfl,rfl,rfl,hbound.1⟩

end Sample
end BlendVault
