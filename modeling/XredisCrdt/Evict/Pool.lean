import XredisCrdt.Lib.Largest
import XredisCrdt.Clock.VectorClock
import Mathlib.Data.List.GetD
import Mathlib.Logic.Function.Basic

/-!
# The eviction pool (`evict.c`)

`EvictionPoolLRU` has 16 slots. `evictionPoolPopulate` and `evictionTombstonePoolPopulate`
insert sampled keys in the order of their score `idle`, and `freeMemoryIfNeeded` walks the
slots backward and takes entries out. A slot owns a buffer, `cached`, in which keys of up
to 255 bytes are kept; entries move between slots by `memmove`, and the buffers with them.

What the pool is for is `Lib.Largest`: a sorted list of the best candidates. `Holds p l`
says that the slots of `p` are the list `l`.
-/

namespace XredisCrdt.Evict

open Lib.Largest Clock List

/-! ## The source -/

/-- `EVPOOL_SIZE`. -/
def evpoolSize : Nat := 16

/-- `EVPOOL_CACHED_SDS_SIZE`. -/
def evpoolCachedSdsSize : Nat := 255

/-- What a `key` pointer leads to: the buffer of a slot, or a string of its own made by
`sdsdup`. -/
inductive KeyRef
  | cached (buffer : Nat)
  | own (s : Bytes)
  deriving DecidableEq

/-- `struct evictionPoolEntry`; `cached` is the address of the buffer. -/
structure Slot where
  idle : Nat
  key : Option KeyRef
  cached : Nat
  dbid : Nat
  deriving DecidableEq, Inhabited

/-- The slots, and what the buffers hold. -/
structure Pool where
  slots : List Slot
  buffers : Nat → Bytes

def memmove {α : Type} (l : List α) (dst src n : Nat) : List α :=
  l.take dst ++ (l.drop src).take n ++ l.drop (dst + n)

/-- The first slot that is empty or has a score that is not smaller. -/
def findSlot (idle : Nat) : List Slot → Nat
  | [] => 0
  | s :: slots => if s.key.isSome ∧ s.idle < idle then findSlot idle slots + 1 else 0

/-- Make a slot free for a score: its index and the slots after the move, or `none` if the
score is not taken. -/
def makeRoom (slots : List Slot) (idle : Nat) : Option (Nat × List Slot) :=
  let k := findSlot idle slots
  let last := slots.getD (evpoolSize - 1) default
  if k = 0 ∧ last.key ≠ none then none
  else if k < evpoolSize ∧ (slots.getD k default).key = none then some (k, slots)
  else if last.key = none then
    -- free space on the right
    let moved := memmove slots (k + 1) k (evpoolSize - k - 1)
    some (k, moved.modify k fun s => { s with cached := last.cached })
  else
    -- the first slot goes; `sdsfree` of its key is not visible here
    let first := slots.getD 0 default
    let moved := memmove slots 0 1 (k - 1)
    some (k - 1, moved.modify (k - 1) fun s => { s with cached := first.cached })

/-- The body of the loops of both populate functions. -/
def insert (p : Pool) (dbid : Nat) (key : Bytes) (idle : Nat) : Pool :=
  match makeRoom p.slots idle with
  | none => p
  | some (k, slots) =>
    let s := slots.getD k default
    if key.length > evpoolCachedSdsSize then
      { p with slots := slots.set k { s with key := some (.own key), idle := idle, dbid := dbid } }
    else
      { slots := slots.set k { s with key := some (.cached s.cached), idle := idle, dbid := dbid }
        buffers := Function.update p.buffers s.cached key }

/-- A sampled key with its score. -/
structure Sample where
  key : Bytes
  idle : Nat
  deriving DecidableEq

/-- The loop of both functions over the samples of one database. -/
def populate (dbid : Nat) (samples : List Sample) (p : Pool) : Pool :=
  samples.foldl (fun p s => insert p dbid s.key s.idle) p

/-- The policies that use the pool. -/
inductive Policy
  | lru
  | lfu
  | volatileTtl
  deriving DecidableEq

/-- A sampled key with what the policies look at: `estimateObjectIdleTime`,
`LFUDecrAndReturn` (eight bits) and the time it expires. -/
structure KeySample where
  key : Bytes
  idleTime : Nat
  frequency : Nat
  expire : Int

/-- The score of a key as an `unsigned long long`. -/
def Policy.idle (policy : Policy) (s : KeySample) : Nat :=
  match policy with
  | .lru => s.idleTime
  | .lfu => 255 - s.frequency
  | .volatileTtl => ((ullongMax - s.expire) % 2 ^ 64).toNat

def evictionPoolPopulate (policy : Policy) (dbid : Nat) (samples : List KeySample) : Pool → Pool :=
  populate dbid (samples.map fun s => ⟨s.key, policy.idle s⟩)

/-- `gid_idle_max`. -/
def gidIdleMax : Int := 1073741824

/-- What a unit `u` of the process clock adds to the score, where the process clock has
`len` units. -/
def gidIdle (crdtGid len : Nat) (vc : Units) (u : ClockUnit) : Int :=
  let diff : Int := u.clock - getVcuFromVc vc u.gid
  let weights : Int := if u.gid = crdtGid then len else 1
  gidIdleMax * weights / (if diff > 0 then diff + 1 else 1)

def tombstoneGetIdle (crdtGid : Nat) (vc processVc : Units) : Int :=
  processVc.foldl (fun idle u => idle + gidIdle crdtGid processVc.length vc u) 1

/-- A sampled tombstone with its clock, `getVc`. -/
structure TombstoneSample where
  key : Bytes
  vc : Units

def evictionTombstonePoolPopulate (crdtGid : Nat) (processVc : Units) (dbid : Nat)
    (samples : List TombstoneSample) : Pool → Pool :=
  populate dbid (samples.map fun s =>
    ⟨s.key, (tombstoneGetIdle crdtGid s.vc processVc % 2 ^ 64).toNat⟩)

/-- The text of a key. -/
def KeyRef.text (buffers : Nat → Bytes) : KeyRef → Bytes
  | .cached b => buffers b
  | .own s => s

/-- Remove the entry from the pool. -/
def Pool.remove (p : Pool) (k : Nat) : Pool :=
  let s := p.slots.getD k default
  { p with slots := p.slots.set k { s with key := none, idle := 0 } }

/-- The walk from slot `k - 1` down to the first one in `freeMemoryIfNeeded`; `found` says
whether the dictionary of the database has the key. -/
def walkBack (found : Nat → Bytes → Bool) : Nat → Pool → Option (Nat × Bytes) × Pool
  | 0, p => (none, p)
  | k + 1, p =>
    let s := p.slots.getD k default
    match s.key with
    | none => walkBack found k p
    | some ref =>
      if found s.dbid (ref.text p.buffers) then (some (s.dbid, ref.text p.buffers), p.remove k)
      else walkBack found k (p.remove k)

/-- The pick of `freeMemoryIfNeeded`. -/
def pick (found : Nat → Bytes → Bool) (p : Pool) : Option (Nat × Bytes) × Pool :=
  walkBack found evpoolSize p

/-! ## What the pool is for -/

/-- A candidate. -/
structure Entry where
  dbid : Nat
  key : Bytes
  idle : Nat
  deriving DecidableEq

/-- The candidate that a slot holds. -/
def Slot.entry (buffers : Nat → Bytes) (s : Slot) : Option Entry :=
  s.key.map fun ref => ⟨s.dbid, ref.text buffers, s.idle⟩

/-- A key in a buffer is in the buffer of its slot. -/
def Slot.Owns (s : Slot) : Prop := ∀ b, s.key = some (.cached b) → b = s.cached

/-- The occupied slots are the candidates `l` in order, and the slots share no buffer. -/
structure Holds (p : Pool) (l : List Entry) : Prop where
  shape : ∃ occ free, p.slots = occ ++ free ∧ occ.map (Slot.entry p.buffers) = l.map some ∧
    ∀ s ∈ free, s.key = none
  size : p.slots.length = evpoolSize
  owns : ∀ s ∈ p.slots, s.Owns
  buffers : (p.slots.map Slot.cached).Perm (List.range evpoolSize)
  sorted : Ascending Entry.idle l

variable {buffers : Nat → Bytes} {e : Entry} {l : List Entry} {occ : List Slot} {p : Pool}
  {s : Slot}

/-- The slot that a sample gets, with the buffer `c`. -/
def placed (dbid : Nat) (key : Bytes) (idle c : Nat) : Slot :=
  ⟨idle, some (if key.length > evpoolCachedSdsSize then .own key else .cached c), c, dbid⟩

section

variable {occ free : List Slot} (hocc : ∀ s ∈ occ, s.key.isSome)
  (hfree : ∀ s ∈ free, s.key = none) (hsize : (occ ++ free).length = evpoolSize)

include hocc hfree hsize

end

theorem Owns.placed (dbid : Nat) (key : Bytes) (idle c : Nat) : (placed dbid key idle c).Owns := by
  intro b hb
  unfold Evict.placed at hb ⊢
  dsimp only at hb ⊢
  split_ifs at hb
  · cases hb
  · exact (KeyRef.cached.inj (Option.some.inj hb)).symm

open Entry

theorem Holds.length_le (h : Holds p l) : l.length ≤ evpoolSize := by
  obtain ⟨occ, free, hslots, hview, -⟩ := h.shape
  have hlen : occ.length = l.length := by simpa using congrArg List.length hview
  have hsize := h.size
  rw [hslots, length_append] at hsize
  omega

/-- What happens to the pool. -/
inductive Act
  | keys (policy : Policy) (dbid : Nat) (samples : List KeySample)
  | tombstones (crdtGid : Nat) (processVc : Units) (dbid : Nat) (samples : List TombstoneSample)
  | pick (found : Nat → Bytes → Bool)

def Act.run (p : Pool) : Act → Pool
  | .keys policy dbid samples => evictionPoolPopulate policy dbid samples p
  | .tombstones crdtGid processVc dbid samples =>
    evictionTombstonePoolPopulate crdtGid processVc dbid samples p
  | .pick found => (Evict.pick found p).2

end XredisCrdt.Evict
