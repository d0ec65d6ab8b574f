import BlendVault.Contract.Storage

/-! Calls into the Blend pool and the Soroswap router. The pool's requests are recorded
together with the underlying they moved. -/
namespace BlendVault
open FailStop

/-- The b_rate the pool reports for a reserve. -/
def Env.bRate {Address W : Type} (e : Env Address W) (pool reserve : Address) (ext : W) :
    Option ℤ := ((e.pool pool).getReserve ext reserve).map (·.data.bRate)

/-- The supply position the pool reports for `vault`, an absent one being zero. -/
def Env.bTokenBalance {Address W : Type} (e : Env Address W) (pool reserve vault : Address)
    (ext : W) : Option ℤ := do
  let res ← (e.pool pool).getReserve ext reserve
  let supply ← (e.pool pool).getPositions ext vault
  return (supply res.config.index).getD 0

namespace Pool
variable {Address W : Type}

/-- `PoolClient::submit` with a single request. -/
def submit (e : Env Address W) (pool from_ spender to_ : Address) (request : Request Address) :
    Contract Address W ℤ := do
  let ext ← observe Frame.ext
  let (moved,ext) ← ofOption .callee ((e.pool pool).submit ext from_ spender to_ [request])
  update fun f => {f with ext}
  return moved

def record (flow : Flow Address) : Contract Address W Unit :=
  update fun f => {f with flows := f.flows ++ [flow]}

/-- Executes a supply of a specific reserve into the underlying pool on behalf of the vault. -/
def supply (e : Env Address W) (pool reserve from_ : Address) (amount : ℤ) :
    Contract Address W Unit := do
  let moved ← submit e pool e.currentContractAddress from_ from_ ⟨reserve,amount,0⟩
  record (.supplied from_ amount moved)

/-- Executes a withdrawal of a specific reserve from the underlying pool on behalf of the
vault. -/
def withdraw (e : Env Address W) (pool reserve to_ : Address) (amount : ℤ) :
    Contract Address W Unit := do
  let moved ← submit e pool e.currentContractAddress e.currentContractAddress to_
    ⟨reserve,amount,1⟩
  record (.withdrawn to_ amount moved)

def claim (e : Env Address W) (pool : Address) (reserveTokenIds : List ℕ) (to_ : Address) :
    Contract Address W ℤ := do
  let ext ← observe Frame.ext
  let (claimed,ext) ←
    ofOption .callee ((e.pool pool).claim ext e.currentContractAddress reserveTokenIds to_)
  update fun f => {f with ext}
  return claimed

def getReserve (e : Env Address W) (pool reserve : Address) : Contract Address W Reserve := do
  let ext ← observe Frame.ext
  ofOption .callee ((e.pool pool).getReserve ext reserve)

def reserveBRate (e : Env Address W) (pool reserve : Address) : Contract Address W ℤ := do
  return (← getReserve e pool reserve).data.bRate

/-- Token ID = reserve_index * 2 + 1 -/
def reserveSupplyTokenId (e : Env Address W) (pool reserve : Address) :
    Contract Address W ℕ := do
  unwrap (checkedUnsigned 32 ((← getReserve e pool reserve).config.index*2+1))

/-- The vault's actual bToken balance for a reserve, read from the pool's positions. -/
def vaultBTokenBalance (e : Env Address W) (pool reserve vault : Address) :
    Contract Address W ℤ := do
  let reserveIndex := (← getReserve e pool reserve).config.index
  let ext ← observe Frame.ext
  let supply ← ofOption .callee ((e.pool pool).getPositions ext vault)
  return (supply reserveIndex).getD 0

end Pool

namespace Swap
variable {Address W : Type}

/-- Swaps `amountIn` of `blnd` for `asset` via the Soroswap router. -/
def swapBlndForAsset (e : Env Address W) (router blnd asset : Address)
    (amountIn amountOutMin : ℤ) : Contract Address W ℤ := do
  let expiration ← unwrap (checkedUnsigned 32 (e.sequence+1))
  let ext ← observe Frame.ext
  let ext ← ofOption .callee
    ((e.token blnd).approve ext e.currentContractAddress router amountIn expiration)
  let path := [blnd,asset]
  let deadline ← unwrap (checkedUnsigned 64 (e.timestamp+300))
  let (amounts,ext) ← ofOption .callee ((e.router router).swapExactTokensForTokens ext amountIn
    amountOutMin path e.currentContractAddress deadline)
  update fun f => {f with ext}
  unwrap amounts[1]?

end Swap

section Returns
variable {Address W α : Type} {e : Env Address W} {pool reserve : Address}
  {f g : Frame Address W} {a : α}

namespace Pool

@[simp] theorem returns_supply_bind {from_ : Address} {amount : ℤ}
    {k : Unit → Contract Address W α} :
    Returns (supply e pool reserve from_ amount >>= k) f a g ↔
      ∃ moved ext, (e.pool pool).submit f.ext e.currentContractAddress from_ from_
          [⟨reserve,amount,0⟩] = some (moved,ext) ∧
        Returns (k ()) {f with ext, flows := f.flows ++ [.supplied from_ amount moved]} a g := by
  simp [supply,submit,record]

@[simp] theorem returns_withdraw_bind {to_ : Address} {amount : ℤ}
    {k : Unit → Contract Address W α} :
    Returns (withdraw e pool reserve to_ amount >>= k) f a g ↔
      ∃ moved ext, (e.pool pool).submit f.ext e.currentContractAddress
          e.currentContractAddress to_ [⟨reserve,amount,1⟩] = some (moved,ext) ∧
        Returns (k ()) {f with ext, flows := f.flows ++ [.withdrawn to_ amount moved]} a g := by
  simp [withdraw,submit,record]

@[simp] theorem returns_claim_bind {ids : List ℕ} {to_ : Address}
    {k : ℤ → Contract Address W α} :
    Returns (claim e pool ids to_ >>= k) f a g ↔
      ∃ claimed ext,
        (e.pool pool).claim f.ext e.currentContractAddress ids to_ = some (claimed,ext) ∧
          Returns (k claimed) {f with ext} a g := by
  simp [claim]

@[simp] theorem returns_reserveBRate {r : ℤ} :
    Returns (reserveBRate e pool reserve) f r g ↔
      e.bRate pool reserve f.ext = some r ∧ g = f := by
  simp only [reserveBRate,getReserve,Env.bRate,bind_pure_comp,returns_map,returns_observe_bind,
    returns_ofOption,Option.map_eq_some_iff]
  constructor
  · rintro ⟨r,⟨hr,hg⟩,rfl⟩
    exact ⟨⟨r,hr,rfl⟩,hg⟩
  · rintro ⟨⟨r,hr,rfl⟩,hg⟩
    exact ⟨r,⟨hr,hg⟩,rfl⟩

@[simp] theorem returns_reserveBRate_bind {k : ℤ → Contract Address W α} :
    Returns (reserveBRate e pool reserve >>= k) f a g ↔
      ∃ r, e.bRate pool reserve f.ext = some r ∧ Returns (k r) f a g :=
  returns_bind_of_read fun _ _ => returns_reserveBRate

@[simp] theorem returns_reserveSupplyTokenId_bind {k : ℕ → Contract Address W α} :
    Returns (reserveSupplyTokenId e pool reserve >>= k) f a g ↔
      ∃ r, (e.pool pool).getReserve f.ext reserve = some r ∧ r.config.index*2+1 < 2^32 ∧
        Returns (k (r.config.index*2+1)) f a g := by
  simp only [reserveSupplyTokenId,getReserve,bind_assoc,returns_observe_bind,
    returns_ofOption_bind,returns_unwrap_bind,checkedUnsigned_eq_some]
  constructor
  · rintro ⟨r,hr,_,⟨hid,rfl⟩,hk⟩
    exact ⟨r,hr,hid,hk⟩
  · rintro ⟨r,hr,hid,hk⟩
    exact ⟨r,hr,_,⟨hid,rfl⟩,hk⟩

@[simp] theorem returns_vaultBTokenBalance_bind {vault : Address}
    {k : ℤ → Contract Address W α} :
    Returns (vaultBTokenBalance e pool reserve vault >>= k) f a g ↔
      ∃ n, e.bTokenBalance pool reserve vault f.ext = some n ∧ Returns (k n) f a g := by
  simp only [vaultBTokenBalance,getReserve,bind_assoc,pure_bind,returns_observe_bind,
    returns_ofOption_bind,Env.bTokenBalance,Option.bind_eq_bind,Option.bind_eq_some_iff,
    Option.pure_def,Option.some.injEq]
  constructor
  · rintro ⟨r,hr,supply,hs,hk⟩
    exact ⟨_,⟨r,hr,supply,hs,rfl⟩,hk⟩
  · rintro ⟨_,⟨r,hr,supply,hs,rfl⟩,hk⟩
    exact ⟨r,hr,supply,hs,hk⟩

end Pool

namespace Swap

/-- A swap approves the router first; what it brings in is the second amount reported. -/
structure Swaps (e : Env Address W) (router blnd asset : Address) (amountIn amountOutMin : ℤ)
    (before : W) (received : ℤ) (after : W) : Prop where
  expiration : e.sequence+1 < 2^32
  deadline : e.timestamp+300 < 2^64
  swapped : ∃ approved amounts,
    (e.token blnd).approve before e.currentContractAddress router amountIn (e.sequence+1) =
      some approved ∧
    (e.router router).swapExactTokensForTokens approved amountIn amountOutMin [blnd,asset]
      e.currentContractAddress (e.timestamp+300) = some (amounts,after) ∧
    amounts[1]? = some received

theorem returns_swapBlndForAsset_bind {router blnd asset : Address} {amountIn amountOutMin : ℤ}
    {k : ℤ → Contract Address W α} :
    Returns (swapBlndForAsset e router blnd asset amountIn amountOutMin >>= k) f a g ↔
      ∃ received ext, Swaps e router blnd asset amountIn amountOutMin f.ext received ext ∧
        Returns (k received) {f with ext} a g := by
  simp only [swapBlndForAsset,bind_assoc,returns_observe_bind,returns_ofOption_bind,
    returns_unwrap_bind,returns_update_bind,checkedUnsigned_eq_some]
  constructor
  · rintro ⟨_,⟨hexp,rfl⟩,mid,hmid,_,⟨hdead,rfl⟩,⟨amounts,ext⟩,hswap,n,hn,hk⟩
    exact ⟨n,ext,⟨hexp,hdead,mid,amounts,hmid,hswap,hn⟩,hk⟩
  · rintro ⟨n,ext,⟨hexp,hdead,mid,amounts,hmid,hswap,hn⟩,hk⟩
    exact ⟨_,⟨hexp,rfl⟩,mid,hmid,_,⟨hdead,rfl⟩,⟨amounts,ext⟩,hswap,n,hn,hk⟩

end Swap
end Returns
end BlendVault
