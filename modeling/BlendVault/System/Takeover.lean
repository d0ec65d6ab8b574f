import BlendVault.Foundations.Doubling
import BlendVault.System.Errors

/-! How far a transfer to oneself reaches. It credits without debiting, so whoever holds a single
share can make it all of them, redeem the whole vault, and leave nothing that the others could get
out. -/
namespace BlendVault
open FailStop ProRata RoundedDivision

section Takeover
variable {Address W : Type} [DecidableEq Address] [FixedPoint] {w w₀ t t' : World Address W}
  {l : Label Address W} {ls : List (Label Address W)} {e : Env Address W} {thief : Address}
  {v : VaultData} {T x y k r : ℤ}

/-- What `thief` has on the way, with everything else as it was in `w`. -/
structure Inflated (w : World Address W) (e : Env Address W) (thief : Address) (x : ℤ)
    (t : World Address W) : Prop where
  held : t.storage.sharesOf thief = x
  others : ∀ a, a ≠ thief → t.storage.sharesOf a = w.storage.sharesOf a
  vaultData : t.storage.vaultData = w.storage.vaultData
  settings : t.storage.settings = w.storage.settings
  outside : t.outside = w.outside
  later : t.sequence ≤ e.sequence

/-- A transfer of `k` shares to oneself, as the vault reports it. -/
def selfTransfer (w : World Address W) (e : Env Address W) (thief : Address) (k : ℤ) :
    Label Address W :=
  ⟨e,.transfer thief thief k,w.outside,none,[thief],[.transfer thief thief k],[]⟩

/-- It goes through whatever its amount, within the balance, and credits it. -/
theorem Inflated.step (h : Inflated w e thief x t) (hsigned : e.signed thief = true)
    (hx : 0 < x) (hT : T ≤ i128Max) (hgrows : Grows T x k y) :
    ∃ t', Step t (selfTransfer w e thief k) t' ∧ Inflated w e thief y t' := by
  have hle := hgrows.le
  have hpos := hgrows.pos
  have hwithin := hgrows.within
  have hy := hgrows.eq
  have hmoves : t.storage.Moves thief thief k := by
    refine ⟨hpos,by rw [h.held]; exact hle,?_,?_⟩
    · rw [h.held]
      exact inI128_of_nonneg (by omega) (by omega)
    · rw [h.held]
      exact inI128_of_nonneg (by omega) (by omega)
  refine ⟨⟨t.storage.moved thief thief k,w.outside,e.sequence⟩,⟨h.later,rfl,?_⟩,?_⟩
  · refine returns_map.mpr ⟨(),EntryPoints.returns_transfer.mpr ⟨?_,hmoves,rfl⟩,rfl⟩
    exact ⟨by simp [Frame.fresh],hsigned,trivial⟩
  · refine ⟨?_,?_,h.vaultData,h.settings,rfl,le_rfl⟩
    · rw [Storage.sharesOf_moved,if_pos rfl,h.held,hy]
    · intro a ha
      rw [Storage.sharesOf_moved,if_neg ha,if_neg ha,h.others a ha]

/-- Again and again, up to any bound. -/
theorem Inflated.run {ks : List ℤ} (h : Inflated w e thief x t) (hsigned : e.signed thief = true)
    (hx : 0 < x) (hT : T ≤ i128Max) (hgrows : Run (Grows T) x ks y) :
    ∃ t', Run Step t (ks.map (selfTransfer w e thief)) t' ∧ Inflated w e thief y t' := by
  have hfollow : ∀ x k y t, Grows T x k y → 0 < x ∧ Inflated w e thief x t →
      ∃ t', Step t (selfTransfer w e thief k) t' ∧ 0 < y ∧ Inflated w e thief y t' := by
    rintro x k y t hgrows ⟨hx,h⟩
    obtain ⟨t',hstep,h'⟩ := h.step hsigned hx hT hgrows
    have hpos := hgrows.pos
    have hy := hgrows.eq
    exact ⟨t',hstep,by omega,h'⟩
  obtain ⟨t',hrun,-,hinflated⟩ := hgrows.simulate
    (fun x t => 0 < x ∧ Inflated w e thief x t) (selfTransfer w e thief) ⟨hx,h⟩ hfollow
  exact ⟨t',hrun,hinflated⟩

end Takeover

section Sample
attribute [local instance] FixedPoint.documented

end Sample
end BlendVault
