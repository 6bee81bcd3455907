import XredisCrdt.Evict.Pool

/-!
# Which tombstone is evicted

The design of eviction gives a tombstone a score that grows with its closeness to the clock
of the process and takes the smallest score first: what every site has long seen goes
before what was deleted just now. `tombstoneGetIdle` is such a score. But the pool keeps the
largest scores, and `freeMemoryIfNeeded` walks it from the back, as it does for keys, where
a large score is an idle key. So the newest tombstone of the pool goes first.
-/

namespace XredisCrdt.Evict

open Lib.Largest Clock List

/-! ## The score -/

/-- The divisor for a gid that is `diff` behind. -/
def behind (diff : Int) : Int := if diff > 0 then diff + 1 else 1

section Score

variable (crdtGid : Nat) {a b : VectorClock} (process : VectorClock)

/-- Within a `long long`. -/
def Fits (n : Int) : Prop := -2 ^ 63 ≤ n ∧ n < 2 ^ 63

end Score

/-! ## The pick -/

/-- The candidates in the pool, from the first slot on. -/
def Pool.entries (p : Pool) : List Entry := p.slots.filterMap (Slot.entry p.buffers)

/-- `deleted_keys` of the databases, with the clocks of the tombstones. -/
abbrev Tombstones := Nat → Bytes → Option VectorClock

/-- The clock of the tombstone that a candidate names. -/
def Tombstones.clock (tombs : Tombstones) (e : Entry) : Option VectorClock := tombs e.dbid e.key

/-- What the walk of `freeMemoryIfNeeded` finds. -/
def Tombstones.found (tombs : Tombstones) (dbid : Nat) (key : Bytes) : Bool :=
  (tombs dbid key).isSome

theorem Holds.entries {p : Pool} {l : List Entry} (h : Holds p l) : p.entries = l := by
  obtain ⟨occ, free, hslots, hview, hfree⟩ := h.shape
  have hnone : free.filterMap (Slot.entry p.buffers) = [] := by
    rw [filterMap_eq_nil_iff]
    intro s hs
    rw [Slot.entry, hfree s hs]
    rfl
  have hmap : occ.filterMap (Slot.entry p.buffers) =
      (occ.map (Slot.entry p.buffers)).filterMap id := by
    rw [filterMap_map]
    rfl
  rw [Pool.entries, hslots, filterMap_append, hnone, append_nil, hmap, hview, filterMap_map]
  exact filterMap_some

end XredisCrdt.Evict
