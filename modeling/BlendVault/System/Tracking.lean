import BlendVault.System.Balances

/-! The vault's count of its bTokens against the position an exact pool keeps for it. -/
namespace BlendVault
open FailStop RoundedDivision

/-- The books count the bTokens the pool holds for the vault. -/
def Tracks {Address W : Type} (position : W → ℤ) (w : World Address W) : Prop :=
  ∃ v, w.storage.vaultData = some v ∧ v.totalBTokens = position w.outside

section Tracking
variable {Address W : Type} [DecidableEq Address] [FixedPoint] {position : W → ℤ}
  {w w' : World Address W} {l : Label Address W} {v v₀ : VaultData} {u moved b n r : ℤ}

omit [DecidableEq Address] in
theorem Exits.bTokens_eq {held : ℤ} {receiver owner operator : Address} {c : Call Address}
    (h : Exits v held receiver owner operator u b n c) (hr : 0 < v.bRate) :
    b = ceilDiv (u*scalar12) v.bRate := by
  cases h with
  | withdraw _ out => exact out.bTokens_eq hr
  | redeem _ _ value _ => exact value.bTokens_eq hr

omit [DecidableEq Address] [FixedPoint] in
theorem ExactPool.refreshed {e : Env Address W} {pool asset : Address} {ext : W}
    {s : Storage Address} (h : ExactPool e pool asset position r)
    (hv : e.refreshed pool asset ext s = some v) : v.bRate = r := by
  obtain ⟨_,-,hr,-⟩ := Env.refreshed_eq_some.mp hv
  exact h.rate hr

/-- What the vault mints itself is what the pool adds to its position. -/
theorem Mint.tracks {pool asset receiver from_ operator : Address} {assets : ℤ}
    (h : Mint w l w' pool asset receiver from_ operator v assets moved b n)
    (hpool : ExactPool l.env pool asset position r) (hr : 0 < r)
    (hv₀ : w.storage.vaultData = some v₀) (hp : v₀.totalBTokens = position l.found) :
    Tracks position w' ∧ moved = assets := by
  have hrate := hpool.refreshed h.rate
  have hB := Env.refreshed_totalBTokens h.rate hv₀
  obtain ⟨hmoved,hposition⟩ := hpool.supply h.supplied
  refine ⟨⟨_,h.vaultData,?_⟩,hmoved⟩
  rw [VaultData.minted_totalBTokens,hB,hp,hposition,h.mints.bTokens_eq (hrate ▸ hr),hrate]

/-- What the vault burns is what the pool burns, and there is always enough of it. -/
theorem Burn.tracks {pool asset receiver owner operator : Address}
    (h : Burn w l w' pool asset receiver owner operator v u moved b n)
    (hpool : ExactPool l.env pool asset position r) (hr : 0 < r)
    (hv₀ : w.storage.vaultData = some v₀) (hp : v₀.totalBTokens = position l.found) :
    Tracks position w' ∧ moved = u ∧ ceilDiv (u*scalar12) r ≤ position l.found := by
  have hrate := hpool.refreshed h.rate
  have hB := Env.refreshed_totalBTokens h.rate hv₀
  have hb := h.call.bTokens_eq (hrate ▸ hr)
  rw [hrate] at hb
  have hcovers : ceilDiv (u*scalar12) r ≤ position l.found := by
    rw [← hb,← hp,← hB]
    exact h.releases.bTokens_le
  obtain ⟨hmoved,hposition⟩ := (hpool.withdraw h.paid).1 hcovers
  refine ⟨⟨_,h.vaultData,?_⟩,hmoved,hcovers⟩
  rw [VaultData.burnt_totalBTokens,hB,hp,hposition,← hb]

omit [DecidableEq Address] [FixedPoint] in
/-- After a claim the books repeat what the pool reports. -/
theorem Compound.tracks {pool asset : Address} {received : ℤ}
    (h : Compound w l w' pool asset v received moved b)
    (hpool : ExactPool l.env pool asset position r) : Tracks position w' :=
  ⟨_,h.vaultData,hpool.reports h.reported⟩

omit [DecidableEq Address] [FixedPoint] in
/-- A claim moves the position only by what it supplies. -/
theorem Compound.position_eq {pool asset : Address} {received : ℤ}
    (h : Compound w l w' pool asset v received moved b)
    (hpool : ExactPool l.env pool asset position r) :
    position w'.outside = position l.found+received*scalar12/r := by
  obtain ⟨swapped,⟨blnd,router,m,ids,claimed,ext,hclaim,-,hswap⟩,hsupply⟩ := h.inflow
  rw [(hpool.supply hsupply).2,hpool.swap hswap,hpool.claim hclaim]

omit [FixedPoint] in
theorem Move.tracks {from_ to_ : Address} {amount : ℤ} (h : Move w l w' from_ to_ amount)
    (hv₀ : w.storage.vaultData = some v₀) (hp : v₀.totalBTokens = position l.found) :
    Tracks position w' :=
  ⟨v₀,h.vaultData.trans hv₀,by rw [hp,h.outside]⟩

omit [DecidableEq Address] [FixedPoint] in
theorem Idle.tracks (h : Idle w l w') (hv₀ : w.storage.vaultData = some v₀)
    (hp : v₀.totalBTokens = position l.found)
    (hpool : ∀ pool asset, w.storage.Serves pool asset →
      ∃ r, 0 < r ∧ ExactPool l.env pool asset position r) : Tracks position w' := by
  refine ⟨v₀,h.vaultData.trans hv₀,?_⟩
  rcases h.outside with hout | ⟨pool,asset,ids,hserves,hclaim⟩
  · rw [hp,hout]
  · obtain ⟨r,-,hexact⟩ := hpool pool asset hserves
    rw [hp,hexact.claim hclaim]

/-- A step keeps the count exact, and a payment is made in full without the pool running
out of the vault's position. -/
theorem ExactStep.tracks (h : ExactStep position w l w') (hw : Tracks position w) :
    Tracks position w' ∧ ∀ to_ amount moved, .withdrawn to_ amount moved ∈ l.flows →
      moved = amount ∧ ∀ pool asset r, w.storage.Serves pool asset →
        l.env.bRate pool asset l.found = some r → ceilDiv (amount*scalar12) r ≤ position l.found := by
  obtain ⟨hstep,huntouched,hexact⟩ := h
  obtain ⟨v₀,hv₀,hp⟩ := hw
  rw [← huntouched] at hp
  cases hstep.accounts with
  | mint hm =>
    obtain ⟨r,hr,hpool⟩ := hexact _ _ hm.serves
    refine ⟨(hm.tracks hpool hr hv₀ hp).1,?_⟩
    rw [hm.flows]
    simp
  | burn hb =>
    obtain ⟨r,hr,hpool⟩ := hexact _ _ hb.serves
    obtain ⟨htracks,hmoved,hcovers⟩ := hb.tracks hpool hr hv₀ hp
    refine ⟨htracks,?_⟩
    intro to_ amount moved hmem
    rw [hb.flows,List.mem_singleton] at hmem
    cases hmem
    refine ⟨hmoved,?_⟩
    intro pool asset r' hserves hrate
    obtain ⟨rfl,rfl⟩ := hb.serves.unique hserves
    rwa [hpool.rate hrate]
  | move hm =>
    refine ⟨hm.tracks hv₀ hp,?_⟩
    rw [hm.flows]
    simp
  | compound hc =>
    obtain ⟨r,hr,hpool⟩ := hexact _ _ hc.serves
    refine ⟨hc.tracks hpool,?_⟩
    rw [hc.flows]
    simp
  | idle hi =>
    refine ⟨hi.tracks hv₀ hp hexact,?_⟩
    rw [hi.flows]
    simp

omit [FixedPoint] in
theorem ExactDeployed.tracks (h : ExactDeployed position w) : Tracks position w := by
  obtain ⟨e,admin,pool,asset,blndToken,found,auths,-,hcreate⟩ := h.deployed.created
  obtain ⟨r,-,-,hg⟩ := EntryPoints.returns_constructor.mp hcreate
  have hstorage : w.storage = _ := congrArg Frame.storage hg
  rw [Tracks,hstorage]
  exact ⟨_,rfl,h.vacant.symm⟩

end Tracking

section Sample
attribute [local instance] FixedPoint.documented

end Sample
end BlendVault
