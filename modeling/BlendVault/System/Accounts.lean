import BlendVault.System.Inversion

/-! One step of the deployed vault as a move on its books: the totals, the balances, and
what crossed the border to the pool. -/
namespace BlendVault
open FailStop

/-- Whatever rate the vault's reserve reports during the call satisfies `P`. -/
def Label.Rates {Address W : Type} (l : Label Address W) (s : Storage Address) (P : ℤ → Prop) :
    Prop := ∀ pool asset ext r, s.Serves pool asset → l.env.bRate pool asset ext = some r → P r

theorem Label.Rates.of_refreshed {Address W : Type} {l : Label Address W}
    {s : Storage Address} {P : ℤ → Prop} {pool asset : Address} {ext : W} {v : VaultData}
    (h : l.Rates s P) (hs : s.Serves pool asset)
    (hv : l.env.refreshed pool asset ext s = some v) : P v.bRate := by
  obtain ⟨_,-,hr,-⟩ := Env.refreshed_eq_some.mp hv
  exact h pool asset ext v.bRate hs hr

/-- A claim finds the vault's position at least where the vault's own books had it. -/
def Label.ReportsNoLess {Address W : Type} (w : World Address W) (l : Label Address W)
    (w' : World Address W) : Prop :=
  ∀ m pool asset v b, l.call = .claimEmissions m → w.storage.Serves pool asset →
    w.storage.vaultData = some v →
    l.env.bTokenBalance pool asset l.env.currentContractAddress w'.outside = some b →
      v.totalBTokens ≤ b

/-- The calls that may return without touching the books. -/
def Call.Bookless {Address : Type} : Call Address → Prop
  | .approve _ _ _ _ => True
  | .claimEmissions _ => True
  | .setAdmin _ => True
  | .setSigner _ => True
  | .setRouter _ => True
  | _ => False

/-- The calls that mint and burn shares. -/
def Call.Trades {Address : Type} : Call Address → Prop
  | .deposit _ _ _ _ => True
  | .withdraw _ _ _ _ => True
  | .redeem _ _ _ _ => True
  | _ => False

/-- The underlying an exit that pays `u` states in its event. -/
def Call.stated {Address : Type} (u : ℤ) : Call Address → ℤ
  | .withdraw assets _ _ _ => assets
  | _ => u

section Accounts
variable {Address W : Type} [DecidableEq Address] [FixedPoint]

/-- The two ways out: of `held` shares the call burns `n`, for `u` underlying and `b` bTokens. -/
inductive Exits (v : VaultData) (held : ℤ) (receiver owner operator : Address) (u b n : ℤ) :
    Call Address → Prop
  | withdraw {assets : ℤ} (assets_pos : 0 < assets) (out : v.Withdraws held assets u b n) :
      Exits v held receiver owner operator u b n (.withdraw assets receiver owner operator)
  | redeem (shares_pos : 0 < n) (enough : n ≤ held) (value : v.Values n u b)
      (underlying_pos : 0 < u) :
      Exits v held receiver owner operator u b n (.redeem n receiver owner operator)

/-- A deposit: the pool is supplied first, the shares are minted after. -/
structure Mint (w : World Address W) (l : Label Address W) (w' : World Address W)
    (pool asset receiver from_ operator : Address) (v : VaultData) (assets moved b n : ℤ) :
    Prop where
  call : l.call = .deposit assets receiver from_ operator
  serves : w.storage.Serves pool asset
  assets_pos : 0 < assets
  supplied : (l.env.pool pool).submit l.found l.env.currentContractAddress from_ from_
    [⟨asset,assets,0⟩] = some (moved,w'.outside)
  rate : l.env.refreshed pool asset w'.outside w.storage = some v
  mints : v.Mints assets b n
  shares_fit : InI128 (v.totalShares+n)
  bTokens_fit : InI128 (v.totalBTokens+b)
  result : l.result = some n
  books : w'.storage =
    w.storage.settled (v.minted b n) receiver (w.storage.sharesOf receiver+n)
  flows : l.flows = [.supplied from_ assets moved]
  events : l.events = [.vaultDeposit pool asset from_ assets n b]

/-- A withdrawal or redemption: the shares are burnt first, the pool pays after. -/
structure Burn (w : World Address W) (l : Label Address W) (w' : World Address W)
    (pool asset receiver owner operator : Address) (v : VaultData) (u moved b n : ℤ) :
    Prop where
  call : Exits v (w.storage.sharesOf owner) receiver owner operator u b n l.call
  serves : w.storage.Serves pool asset
  rate : l.env.refreshed pool asset l.found w.storage = some v
  releases : v.Releases b n
  paid : (l.env.pool pool).submit l.found l.env.currentContractAddress
    l.env.currentContractAddress receiver [⟨asset,u,1⟩] = some (moved,w'.outside)
  books : ∃ t, w.storage.Delegates l.env owner operator n t ∧
    w'.storage = t.settled (v.burnt b n) owner (w.storage.sharesOf owner-n)
  flows : l.flows = [.withdrawn receiver u moved]

/-- The claim pays out, and the swap turns it into `received` of the asset. -/
def Label.Brings (l : Label Address W) (pool asset : Address) (received : ℤ) (swapped : W) :
    Prop :=
  ∃ blnd router amountOutMin ids claimed ext,
    (l.env.pool pool).claim l.found l.env.currentContractAddress ids l.env.currentContractAddress =
      some (claimed,ext) ∧
    claimed ≠ 0 ∧ Swap.Swaps l.env router blnd asset claimed amountOutMin ext received swapped

/-- Emissions claimed, swapped and supplied; the reported position becomes the total. -/
structure Compound (w : World Address W) (l : Label Address W) (w' : World Address W)
    (pool asset : Address) (v : VaultData) (received moved b : ℤ) : Prop where
  call : ∃ amountOutMin, l.call = .claimEmissions amountOutMin
  serves : w.storage.Serves pool asset
  inflow : ∃ swapped, l.Brings pool asset received swapped ∧
    (l.env.pool pool).submit swapped l.env.currentContractAddress l.env.currentContractAddress
      l.env.currentContractAddress [⟨asset,received,0⟩] = some (moved,w'.outside)
  rate : l.env.refreshed pool asset w'.outside w.storage = some v
  reported : l.env.bTokenBalance pool asset l.env.currentContractAddress w'.outside = some b
  result : l.result = some received
  books : w'.storage = w.storage.withVaultData {v with totalBTokens := b}
  flows : l.flows = [.supplied l.env.currentContractAddress received moved]

/-- A transfer between two accounts, by the owner or on an allowance. -/
structure Move (w : World Address W) (l : Label Address W) (w' : World Address W)
    (from_ to_ : Address) (amount : ℤ) : Prop where
  call : l.call = .transfer from_ to_ amount ∨
    ∃ spender, l.call = .transferFrom spender from_ to_ amount
  moves : w.storage.Moves from_ to_ amount
  vaultData : w'.storage.vaultData = w.storage.vaultData
  shares : w'.storage.shares = (w.storage.moved from_ to_ amount).shares
  outside : w'.outside = l.found
  flows : l.flows = []

/-- A call that leaves the books alone; at most it finds that there is nothing to claim. -/
structure Idle (w : World Address W) (l : Label Address W) (w' : World Address W) : Prop where
  call : l.call.Bookless
  vaultData : w'.storage.vaultData = w.storage.vaultData
  shares : w'.storage.shares = w.storage.shares
  outside : w'.outside = l.found ∨ ∃ pool asset ids, w.storage.Serves pool asset ∧
    (l.env.pool pool).claim l.found l.env.currentContractAddress ids l.env.currentContractAddress =
      some (0,w'.outside)
  flows : l.flows = []

section VaultData
variable {w w' : World Address W} {l : Label Address W} {v : VaultData} {moved b n : ℤ}

theorem Mint.vaultData {pool asset receiver from_ operator : Address} {assets : ℤ}
    (h : Mint w l w' pool asset receiver from_ operator v assets moved b n) :
    w'.storage.vaultData = some (v.minted b n) := by
  rw [h.books]
  rfl

theorem Burn.vaultData {pool asset receiver owner operator : Address} {u : ℤ}
    (h : Burn w l w' pool asset receiver owner operator v u moved b n) :
    w'.storage.vaultData = some (v.burnt b n) := by
  obtain ⟨t,-,hbooks⟩ := h.books
  rw [hbooks]
  rfl

omit [DecidableEq Address] [FixedPoint] in
theorem Compound.vaultData {pool asset : Address} {received : ℤ}
    (h : Compound w l w' pool asset v received moved b) :
    w'.storage.vaultData = some {v with totalBTokens := b} := by
  rw [h.books]
  rfl

end VaultData

/-- The five things a step can do to the books. -/
inductive Accounts (w : World Address W) (l : Label Address W) (w' : World Address W) : Prop
  | mint {pool asset receiver from_ operator v assets moved b n}
      (h : Mint w l w' pool asset receiver from_ operator v assets moved b n)
  | burn {pool asset receiver owner operator v u moved b n}
      (h : Burn w l w' pool asset receiver owner operator v u moved b n)
  | move {from_ to_ amount} (h : Move w l w' from_ to_ amount)
  | compound {pool asset v received moved b} (h : Compound w l w' pool asset v received moved b)
  | idle (h : Idle w l w')

/-- A deposit or an exit, with the event of the exit; the other has its own. -/
inductive Trade (w : World Address W) (l : Label Address W) (w' : World Address W) : Prop
  | mint {pool asset receiver from_ operator v assets moved b n}
      (h : Mint w l w' pool asset receiver from_ operator v assets moved b n)
  | burn {pool asset receiver owner operator v u moved b n}
      (h : Burn w l w' pool asset receiver owner operator v u moved b n)
      (events : l.events = [.vaultWithdraw pool asset owner (l.call.stated u) n b])

section Step
variable {w w' : World Address W} {l : Label Address W}

theorem Trade.accounts (h : Trade w l w') : Accounts w l w' := by
  cases h with
  | mint hm => exact .mint hm
  | burn hb _ => exact .burn hb

theorem Step.trade (h : Step w l w') (htrades : l.call.Trades) : Trade w l w' := by
  cases h.outcome with
  | deposit _ assets_pos serves supplied rate mints shares_fit bTokens_fit =>
    exact .mint
      ⟨rfl,serves,assets_pos,supplied,rate,mints,shares_fit,bTokens_fit,rfl,rfl,rfl,rfl⟩
  | withdraw _ assets_pos serves rate out releases delegates paid =>
    exact .burn
      ⟨.withdraw assets_pos out,serves,rate,releases,paid,⟨_,delegates,rfl⟩,rfl⟩ rfl
  | redeem _ shares_pos serves rate enough value underlying_pos releases delegates paid =>
    exact .burn ⟨.redeem shares_pos enough value underlying_pos,serves,rate,releases,paid,
      ⟨_,delegates,rfl⟩,rfl⟩ rfl
  | _ => exact htrades.elim

/-- Every step does one of five things to the books. -/
theorem Step.accounts (h : Step w l w') : Accounts w l w' := by
  have htrade := h.trade
  cases h.outcome with
  | deposit => exact (htrade trivial).accounts
  | withdraw => exact (htrade trivial).accounts
  | redeem => exact (htrade trivial).accounts
  | transfer _ moves => exact .move ⟨.inl rfl,moves,rfl,rfl,rfl,rfl⟩
  | transferFrom _ _ moves => exact .move ⟨.inr ⟨_,rfl⟩,moves,rfl,rfl,rfl,rfl⟩
  | claimNothing serves claimed =>
    exact .idle ⟨trivial,rfl,rfl,.inr ⟨_,_,_,serves,claimed⟩,rfl⟩
  | compound serves claimed_eq claimed_ne swaps supplied_eq rate reported =>
    exact .compound ⟨⟨_,rfl⟩,serves,⟨_,⟨_,_,_,_,_,_,claimed_eq,claimed_ne,swaps⟩,supplied_eq⟩,rate,
      reported,rfl,rfl,rfl⟩
  | approve | setAdmin | setSigner | setRouter => exact .idle ⟨trivial,rfl,rfl,.inl rfl,rfl⟩

end Step

end Accounts
end BlendVault
