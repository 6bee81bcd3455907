import Mathlib.Data.List.Perm.Basic
import XredisCrdt.Clock.VectorClock

/-!
# The filter of a shared full sync

A peer says with `REPLCONF min-vc` and `REPLCONF backstream` from which clocks on
it needs objects; the node keeps that as the `filterVectorClock` of the peer's
client. `crdtReplicationCron` starts one merge save for all peers that wait, with
the minimum of their filters.
-/

namespace XredisCrdt.Clock

open Lib.KeyedMerge List Option VectorClock

/-- The options of `REPLCONF` that change `filterVectorClock`. -/
inductive FilterOption
  | minVc (text : Bytes)
  | backstream (text : Bytes)
  deriving DecidableEq

def FilterOption.text : FilterOption → Bytes
  | .minVc t => t
  | .backstream t => t

/-- `replconfCommand` on `c->filterVectorClock`, at a node of gid `gid`. The rest
of what `min-vc` does, keeping the clock and adding its gids to `peer_set`, does
not concern the filter. -/
def replconfFilter (gid : Nat) (filterVectorClock : Units) : FilterOption → Option Units
  | .minVc t => do
    let vclock ← sdsToVectorClock t
    addVectorClockUnit filterVectorClock gid (getVcuFromVc vclock gid)
  | .backstream t => do
    let vc ← sdsToVectorClock t
    vectorClockMerge filterVectorClock vc

/-- A new client got the filter from `REPLCONF` options, one of them `min-vc`. -/
def BuiltBy (gid : Nat) (opts : List FilterOption) (filterVectorClock : Units) : Prop :=
  opts.foldlM (replconfFilter gid) [] = some filterVectorClock ∧
    ∃ t, FilterOption.minVc t ∈ opts

/-- The text of an option is a clock, in which no gid comes twice. `replconfCommand` does
not check that. -/
def FilterOption.IsClock (o : FilterOption) : Prop :=
  ∃ v : VectorClock, sdsToVectorClock o.text = some v.units

/-- A filter that was built from texts of clocks. -/
def Built (gid : Nat) (filterVectorClock : Units) : Prop :=
  ∃ opts, BuiltBy gid opts filterVectorClock ∧ ∀ o ∈ opts, o.IsClock

/-! ## What the options build -/

theorem replconfFilter_units {gid : Gid} (v : VectorClock) {o : FilterOption}
    (ho : o.IsClock) : ∃ v' : VectorClock, replconfFilter gid v.units o = some v'.units ∧
      ((∃ t, o = .minVc t) ∨ v.listed gid ≠ none → v'.listed gid ≠ none) := by
  obtain ⟨w, hw⟩ := ho
  cases o with
  | minVc t =>
    refine ⟨v.add gid (getVcuFromVc w.units gid), ?_, ?_⟩
    · simp only [FilterOption.text] at hw
      simp only [replconfFilter, hw, bind_eq_bind, bind_some]
      exact v.addVectorClockUnit_units gid _
    · intro _
      rw [add_listed, if_pos rfl]
      simp
  | backstream t =>
    refine ⟨v.merge w, ?_, ?_⟩
    · simp only [FilterOption.text] at hw
      simp only [replconfFilter, hw, bind_eq_bind, bind_some]
      exact v.vectorClockMerge_units w
    · rintro (⟨t, ht⟩ | hv)
      · cases ht
      · rw [merge_listed]
        obtain ⟨n, hn⟩ := ne_none_iff_exists'.1 hv
        rw [hn]
        cases w.listed gid <;> simp [combine]

theorem foldlM_replconfFilter (gid : Gid) {opts : List FilterOption} (v : VectorClock)
    (ho : ∀ o ∈ opts, o.IsClock) :
    ∃ v' : VectorClock, opts.foldlM (replconfFilter gid) v.units = some v'.units ∧
      ((∃ t, .minVc t ∈ opts) ∨ v.listed gid ≠ none → v'.listed gid ≠ none) := by
  induction opts generalizing v with
  | nil => exact ⟨v, rfl, by simp⟩
  | cons o opts ih =>
    obtain ⟨v₁, h₁, hl₁⟩ := replconfFilter_units v (ho o (by simp))
    obtain ⟨v₂, h₂, hl₂⟩ := ih v₁ fun p hp => ho p (by simp [hp])
    refine ⟨v₂, ?_, ?_⟩
    · rw [foldlM_cons, h₁]
      exact h₂
    · rintro (⟨t, ht⟩ | hv)
      · rcases mem_cons.1 ht with ht | ht
        · exact hl₂ (.inr (hl₁ (.inl ⟨t, ht.symm⟩)))
        · exact hl₂ (.inl ⟨t, ht⟩)
      · exact hl₂ (.inr (hl₁ (.inr hv)))

/-- A built filter is a clock and not null. -/
theorem Built.clock {gid : Gid} {filter : Units} (h : Built gid filter) :
    ∃ v : VectorClock, filter = v.units ∧ v.units ≠ [] := by
  obtain ⟨opts, ⟨hfold, hmin⟩, htexts⟩ := h
  obtain ⟨v, hv, hlisted⟩ := foldlM_replconfFilter gid null htexts
  obtain ⟨n, hn⟩ := ne_none_iff_exists'.1 (hlisted (.inl hmin))
  refine ⟨v, ?_, units_ne_nil_of_listed hn⟩
  exact some.inj (hfold.symm.trans hv)

/-! ## The loop on clocks -/

/-- `m` lets through what `v` lets through. -/
def Covers (m v : VectorClock) : Prop := ∀ g n, v.listed g = some n → ∃ k ≤ n, m.listed g = some k

theorem Covers.refl (v : VectorClock) : Covers v v := fun _ n h => ⟨n, le_refl n, h⟩

theorem Covers.trans {u v w : VectorClock} (h : Covers u v) (h' : Covers v w) : Covers u w := by
  intro g n hn
  obtain ⟨k, hk, hv⟩ := h' g n hn
  obtain ⟨j, hj, hu⟩ := h g k hv
  exact ⟨j, hj.trans hk, hu⟩

end XredisCrdt.Clock
