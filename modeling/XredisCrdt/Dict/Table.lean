import XredisCrdt.Lib.ReverseBits
import XredisCrdt.Util

/-!
# Hash tables with incremental rehashing

A dictionary has two tables of chained buckets. While it is rehashed, entries move bucket
by bucket from the first one to the second, and new ones go to the second. `Ok` says that
the sizes are powers of two, that every entry is in the bucket of its hash, and that the
counters are right; every operation keeps it, and keeps every entry that it is not asked
to remove.
-/

namespace XredisCrdt.Hash

open Lib.ReverseBits List Option

variable {K V : Type}

/-- `dictht`. A table that is `NULL` has no buckets. -/
structure Dictht (K V : Type) where
  table : List (List (K × V))
  used : Nat

namespace Dictht

def size (t : Dictht K V) : Nat := t.table.length

def sizemask (t : Dictht K V) : BitVec 64 := BitVec.ofNat 64 (t.size - 1)

def bucket (t : Dictht K V) (i : Nat) : List (K × V) := t.table.getD i []

/-- A table after `_dictReset`. -/
def reset : Dictht K V := ⟨[], 0⟩

/-- The bucket of a key. -/
def index (hash : K → BitVec 64) (t : Dictht K V) (key : K) : Nat := (hash key &&& t.sizemask).toNat

/-- Put an entry in front of its bucket. -/
def push (hash : K → BitVec 64) (t : Dictht K V) (e : K × V) : Dictht K V :=
  ⟨t.table.set (t.index hash e.1) (e :: t.bucket (t.index hash e.1)), t.used + 1⟩

/-- All entries. -/
def entries (t : Dictht K V) : List (K × V) := t.table.flatten

end Dictht

/-- `dict`; `rehashidx` is `none` for -1. -/
structure Dict (K V : Type) where
  ht0 : Dictht K V
  ht1 : Dictht K V
  rehashidx : Option Nat
  iterators : Nat

namespace Dict

/-- `dictIsRehashing`. -/
def isRehashing (d : Dict K V) : Bool := d.rehashidx.isSome

/-- `dictSize`. -/
def dictSize (d : Dict K V) : Nat := d.ht0.used + d.ht1.used

def entries (d : Dict K V) : List (K × V) := d.ht0.entries ++ d.ht1.entries

/-- `dictCreate`. -/
def create : Dict K V := ⟨.reset, .reset, none, 0⟩

end Dict

open Dictht Dict

/-! ## Resizing -/

def initialSize : Nat := 4

/-- The loop of `_dictNextPower`. -/
def nextPowerLoop (size : Nat) : Nat → Nat → Nat
  | 0, i => i
  | fuel + 1, i => if i ≥ size then i else nextPowerLoop size fuel (i * 2)

/-- `_dictNextPower`: below `LONG_MAX` the loop ends before `i` overflows. -/
def dictNextPower (size : Nat) : Nat :=
  if size ≥ 2 ^ 63 - 1 then 2 ^ 63 else nextPowerLoop size 61 initialSize

/-- `dictExpand`, and `none` for `DICT_ERR`. -/
def dictExpand (d : Dict K V) (size : Nat) : Option (Dict K V) :=
  if d.isRehashing ∨ d.ht0.used > size then none
  else if dictNextPower size = d.ht0.size then none
  else
    let n : Dictht K V := ⟨List.replicate (dictNextPower size) [], 0⟩
    if d.ht0.table.isEmpty then some { d with ht0 := n }
    else some { d with ht1 := n, rehashidx := some 0 }

/-- `dictResize`, with `dict_can_resize`. -/
def dictResize (canResize : Bool) (d : Dict K V) : Option (Dict K V) :=
  if !canResize ∨ d.isRehashing then none
  else
    let minimal : Int := toInt d.ht0.used
    dictExpand d (if minimal < initialSize then initialSize else minimal.toNat)

/-- `dict_force_resize_ratio` and `dict_expand_max_idle_size`. -/
structure Settings where
  forceResizeRatio : Nat
  expandMaxIdleSize : Nat

/-- `_dictExpandIfNeeded`, and `none` for `DICT_ERR`. -/
def dictExpandIfNeeded (cfg : Settings) (canResize : Bool) (d : Dict K V) : Option (Dict K V) :=
  if d.isRehashing then some d
  else if d.ht0.size = 0 then dictExpand d initialSize
  else if d.ht0.used ≥ d.ht0.size ∧
      (canResize ∨ d.ht0.used / d.ht0.size > cfg.forceResizeRatio) then
    let min2x := dictNextPower d.ht0.used
    if min2x > d.ht0.used ∧ (2 * min2x - d.ht0.used) % 2 ^ 64 > cfg.expandMaxIdleSize then
      dictExpand d min2x
    else dictExpand d (d.ht0.used * 2 % 2 ^ 64)
  else some d

/-! ## Rehashing -/

/-- The inner loop of `dictRehash`: go on to the first bucket that is not empty. The
result has the empty buckets that may still be visited; at 0 the function returns. -/
def skipEmpty (t : Dictht K V) : Nat → Nat → Nat × Nat
  | 0, idx => (0, idx)
  | visits + 1, idx =>
    if (t.bucket idx).isEmpty then skipEmpty t visits (idx + 1) else (visits + 1, idx)

variable (hash : K → BitVec 64)

/-- Move all entries of a bucket. -/
def moveBucket (d : Dict K V) (idx : Nat) : Dict K V :=
  { d with
    ht0 := ⟨d.ht0.table.set idx [], d.ht0.used - (d.ht0.bucket idx).length⟩
    ht1 := (d.ht0.bucket idx).foldl (Dictht.push hash) d.ht1
    rehashidx := some (idx + 1) }

/-- The end of `dictRehash`: with nothing left in the first table the second one takes its
place. The Boolean says that there is more to do. -/
def finishRehash (d : Dict K V) : Dict K V × Bool :=
  if d.ht0.used = 0 then ({ d with ht0 := d.ht1, ht1 := .reset, rehashidx := none }, false)
  else (d, true)

/-- The outer loop of `dictRehash`. -/
def rehashLoop : Nat → Nat → Dict K V → Dict K V × Bool
  | 0, _, d => finishRehash d
  | n + 1, visits, d =>
    if d.ht0.used = 0 then finishRehash d
    else
      match skipEmpty d.ht0 visits (d.rehashidx.getD 0) with
      | (0, idx) => ({ d with rehashidx := some idx }, true)
      | (visits + 1, idx) => rehashLoop n (visits + 1) (moveBucket hash d idx)

def dictRehash (d : Dict K V) (n : Nat) : Dict K V × Bool :=
  if d.isRehashing then rehashLoop hash n (n * 10) d else (d, false)

/-- `_dictRehashStep`, where it is called: only while rehashing. -/
def dictRehashStep (d : Dict K V) : Dict K V :=
  if d.isRehashing ∧ d.iterators = 0 then (dictRehash hash d 1).1 else d

/-! ## Entries -/

section Entries

variable [DecidableEq K]

/-- The entry of a key in a table. -/
def findIn (t : Dictht K V) (key : K) : Option (K × V) :=
  (t.bucket (t.index hash key)).find? fun e => e.1 = key

/-- The entry of a key, in the second table only while rehashing. -/
def lookup (d : Dict K V) (key : K) : Option (K × V) :=
  (findIn hash d.ht0 key).or (if d.isRehashing then findIn hash d.ht1 key else none)

/-- `dictFind`. -/
def dictFind (d : Dict K V) (key : K) : Dict K V × Option (K × V) :=
  if d.dictSize = 0 then (d, none)
  else
    let d := dictRehashStep hash d
    (d, lookup hash d key)

/-- Put a new entry into the table for new entries. -/
def insertEntry (d : Dict K V) (e : K × V) : Dict K V :=
  if d.isRehashing then { d with ht1 := d.ht1.push hash e } else { d with ht0 := d.ht0.push hash e }

/-- `dictAdd`: `dictAddRaw` and the value. The Boolean says that the key was added. -/
def dictAdd (cfg : Settings) (canResize : Bool) (d : Dict K V) (key : K) (val : V) :
    Dict K V × Bool :=
  let d := dictRehashStep hash d
  match dictExpandIfNeeded cfg canResize d with
  | none => (d, false)
  | some d =>
    match lookup hash d key with
    | some _ => (d, false)
    | none => (insertEntry hash d (key, val), true)

/-- The value of the first entry with the key. -/
def setVal (key : K) (val : V) : List (K × V) → List (K × V)
  | [] => []
  | e :: l => if e.1 = key then (key, val) :: l else e :: setVal key val l

/-- A table with another value for a key. -/
def setIn (t : Dictht K V) (key : K) (val : V) : Dictht K V :=
  { t with table := t.table.set (t.index hash key) (setVal key val (t.bucket (t.index hash key))) }

/-- `dictReplace`. -/
def dictReplace (cfg : Settings) (canResize : Bool) (d : Dict K V) (key : K) (val : V) : Dict K V :=
  let (d, added) := dictAdd hash cfg canResize d key val
  if added then d
  else if (findIn hash d.ht0 key).isSome then { d with ht0 := setIn hash d.ht0 key val }
  else { d with ht1 := setIn hash d.ht1 key val }

/-- Unlink the first entry with the key from its chain. -/
def unlink (t : Dictht K V) (key : K) : Dictht K V :=
  ⟨t.table.set (t.index hash key) ((t.bucket (t.index hash key)).eraseP fun e => e.1 = key),
    t.used - 1⟩

/-- `dictGenericDelete`, for `dictDelete` and `dictUnlink`. -/
def dictDelete (d : Dict K V) (key : K) : Dict K V :=
  if d.dictSize = 0 then d
  else
    let d := dictRehashStep hash d
    if (findIn hash d.ht0 key).isSome then { d with ht0 := unlink hash d.ht0 key }
    else if d.isRehashing ∧ (findIn hash d.ht1 key).isSome then
      { d with ht1 := unlink hash d.ht1 key }
    else d

end Entries

/-! ## Tables in order -/

/-- A table in order. -/
structure Dictht.Ok (t : Dictht K V) : Prop where
  size : t.size = 0 ∨ ∃ k, k ≤ 63 ∧ t.size = 2 ^ k
  placed : ∀ i, ∀ e ∈ t.bucket i, t.index hash e.1 = i
  used : t.used = t.entries.length

variable {hash}

variable {b : List (K × V)} {canResize : Bool} {cfg : Settings} {d d' : Dict K V} {e : K × V}
  {i k r used : Nat} {t : Dictht K V}

theorem mem_entries : e ∈ t.entries ↔ ∃ i, e ∈ t.bucket i := by
  unfold Dictht.entries Dictht.bucket
  constructor
  · intro h
    obtain ⟨b, hb, he⟩ := mem_flatten.1 h
    obtain ⟨i, hi, rfl⟩ := mem_iff_getElem.1 hb
    exact ⟨i, by simpa [getD_eq_getElem?_getD, hi] using he⟩
  · rintro ⟨i, he⟩
    rw [getD_eq_getElem?_getD] at he
    cases hb : t.table[i]? with
    | none => simp [hb] at he
    | some b =>
      rw [hb] at he
      exact mem_flatten.2 ⟨b, mem_of_getElem? hb, he⟩

theorem bucket_of_size_le (h : t.size ≤ i) : t.bucket i = [] := by
  unfold Dictht.bucket
  rw [getD_eq_getElem?_getD, getElem?_eq_none h]
  rfl

theorem lt_size_of_mem (h : e ∈ t.bucket i) : i < t.size := by
  by_contra hge
  rw [bucket_of_size_le (by omega)] at h
  cases h

theorem sizemask_eq (h : t.size = 2 ^ k) : t.sizemask = lowMask 64 k := by
  rw [Dictht.sizemask, h, lowMask]

theorem index_eq (hk : k ≤ 63) (h : t.size = 2 ^ k) (key : K) :
    t.index hash key = (hash key).toNat % 2 ^ k := by
  rw [Dictht.index, sizemask_eq h, toNat_and_lowMask (by omega)]

theorem Dictht.Ok.index_lt (h : t.Ok hash) (hsize : t.size ≠ 0) (key : K) :
    t.index hash key < t.size := by
  obtain hzero | ⟨k, hk, hpow⟩ := h.size
  · exact absurd hzero hsize
  · rw [index_eq hk hpow, hpow]
    exact Nat.mod_lt _ (Nat.two_pow_pos k)

section SetBucket

variable {t : Dictht K V} {i used : Nat} {b : List (K × V)}

theorem size_set : (⟨t.table.set i b, used⟩ : Dictht K V).size = t.size := length_set

theorem index_set (key : K) :
    (⟨t.table.set i b, used⟩ : Dictht K V).index hash key = t.index hash key := by
  simp [Dictht.index, Dictht.sizemask, Dictht.size]

theorem bucket_set (hi : i < t.size) (j : Nat) :
    (⟨t.table.set i b, used⟩ : Dictht K V).bucket j = if j = i then b else t.bucket j := by
  have hlt : i < t.table.length := hi
  by_cases hj : j = i
  · subst hj
    simp [Dictht.bucket, getD_eq_getElem?_getD, hlt]
  · have hij : i ≠ j := fun h => hj h.symm
    simp [Dictht.bucket, getD_eq_getElem?_getD, hj, hij]

/-- Another content for a bucket, and the old one beside it. -/
theorem entries_set (used : Nat) (b : List (K × V)) (hi : i < t.size) :
    ((⟨t.table.set i b, used⟩ : Dictht K V).entries ++ t.bucket i).Perm (t.entries ++ b) := by
  obtain ⟨table, n⟩ := t
  unfold Dictht.size at hi
  unfold Dictht.entries Dictht.bucket
  simp only at hi ⊢
  induction table generalizing i with
  | nil => simp at hi
  | cons c table ih =>
    cases i with
    | zero =>
      simp only [set_cons_zero, flatten_cons, getD_cons_zero]
      rw [append_assoc]
      exact perm_append_comm.trans (perm_append_comm.append_right b)
    | succ i =>
      simp only [set_cons_succ, flatten_cons, getD_cons_succ, append_assoc]
      exact (ih (by simpa using hi)).append_left c

/-- Another content for a bucket. -/
theorem Dictht.Ok.set (h : t.Ok hash) (hi : i < t.size) (hb : ∀ e ∈ b, t.index hash e.1 = i)
    (hused : used + (t.bucket i).length = t.used + b.length) :
    (⟨t.table.set i b, used⟩ : Dictht K V).Ok hash := by
  refine ⟨by rw [size_set]; exact h.size, fun j e he => ?_, ?_⟩
  · rw [index_set]
    rw [bucket_set hi] at he
    split at he
    · next hj => rw [hj]; exact hb e he
    · exact h.placed j e he
  · have hlen := (entries_set used b hi).length_eq
    have hold := h.used
    show used = _
    simp only [length_append] at hlen
    omega

/-- A bucket is a part of its table. -/
theorem Dictht.Ok.length_bucket_le (h : t.Ok hash) (hi : i < t.size) :
    (t.bucket i).length ≤ t.used := by
  have hlen := (entries_set 0 [] hi).length_eq
  have hold := h.used
  simp only [length_append, length_nil] at hlen
  omega

end SetBucket

theorem ok_reset : (Dictht.reset : Dictht K V).Ok hash :=
  ⟨.inl rfl, fun i e he => by simp [Dictht.bucket, Dictht.reset] at he, rfl⟩

/-- A new entry. -/
theorem ok_push (h : t.Ok hash) (hsize : t.size ≠ 0) (e : K × V) :
    (t.push hash e).Ok hash ∧ (t.push hash e).size = t.size ∧
      (t.push hash e).entries.Perm (e :: t.entries) := by
  have hi := h.index_lt hsize e.1
  refine ⟨h.set hi (fun x hx => ?_) ?_, size_set, ?_⟩
  · obtain rfl | hx := mem_cons.1 hx
    · rfl
    · exact h.placed _ x hx
  · simp
    omega
  · -- the bucket stands on both sides
    have hperm := entries_set (t.used + 1) (e :: t.bucket (t.index hash e.1)) hi
    exact (perm_append_right_iff _).1 (hperm.trans perm_middle)

theorem ok_foldl_push (h : t.Ok hash) (hsize : t.size ≠ 0) (l : List (K × V)) :
    (l.foldl (Dictht.push hash) t).Ok hash ∧ (l.foldl (Dictht.push hash) t).size = t.size ∧
      (l.foldl (Dictht.push hash) t).entries.Perm (l ++ t.entries) := by
  induction l generalizing t with
  | nil => exact ⟨h, rfl, .refl _⟩
  | cons e l ih =>
    obtain ⟨hok, hsame, hperm⟩ := ok_push h hsize e
    obtain ⟨hok', hsame', hperm'⟩ := ih hok (by rw [hsame]; exact hsize)
    refine ⟨hok', hsame'.trans hsame, ?_⟩
    exact (hperm'.trans (hperm.append_left l)).trans perm_middle

/-! ## Dictionaries in order -/

variable (hash) in
/-- A dictionary in order: the second table is there exactly while rehashing, and then the
buckets before `rehashidx` are empty. -/
structure Dict.Ok (d : Dict K V) : Prop where
  ht0 : d.ht0.Ok hash
  ht1 : d.ht1.Ok hash
  idle : d.rehashidx = none → d.ht1.size = 0
  rehashing : ∀ r, d.rehashidx = some r →
    d.ht0.size ≠ 0 ∧ d.ht1.size ≠ 0 ∧ ∀ i < r, d.ht0.bucket i = []

theorem ok_create : (Dict.create : Dict K V).Ok hash :=
  ⟨ok_reset, ok_reset, fun _ => rfl, fun r hr => by cases hr⟩

theorem mem_dict_entries : e ∈ d.entries ↔ e ∈ d.ht0.entries ∨ e ∈ d.ht1.entries := mem_append

theorem entries_eq_nil_of_size (h : t.size = 0) : t.entries = [] := by
  have hnil : t.table = [] := length_eq_zero_iff.1 h
  rw [Dictht.entries, hnil]
  rfl

/-! ### Resizing -/

theorem nextPowerLoop_eq (size : Nat) {fuel : Nat} (hk : k + fuel ≤ 63) :
    ∃ j, j ≤ 63 ∧ nextPowerLoop size fuel (2 ^ k) = 2 ^ j := by
  induction fuel generalizing k with
  | zero => exact ⟨k, by omega, rfl⟩
  | succ fuel ih =>
    rw [nextPowerLoop]
    split
    · exact ⟨k, by omega, rfl⟩
    · rw [← Nat.pow_succ]
      exact ih (by omega)

theorem dictNextPower_eq (size : Nat) : ∃ k, k ≤ 63 ∧ dictNextPower size = 2 ^ k := by
  unfold dictNextPower
  split
  · exact ⟨63, by omega, rfl⟩
  · exact nextPowerLoop_eq size (k := 2) (by omega)

/-- A new table. -/
theorem ok_replicate (hash : K → BitVec 64) (V : Type) (size : Nat) :
    (⟨List.replicate (dictNextPower size) [], 0⟩ : Dictht K V).Ok hash ∧
      (⟨List.replicate (dictNextPower size) [], 0⟩ : Dictht K V).size ≠ 0 ∧
      (⟨List.replicate (dictNextPower size) [], 0⟩ : Dictht K V).entries = [] := by
  obtain ⟨k, hk, hpow⟩ := dictNextPower_eq size
  have hentries : (⟨List.replicate (dictNextPower size) [], 0⟩ : Dictht K V).entries = [] := by
    simp [Dictht.entries]
  refine ⟨⟨.inr ⟨k, hk, by simp [Dictht.size, hpow]⟩, fun i e he => ?_, by rw [hentries]; rfl⟩, ?_,
    hentries⟩
  · have hmem := mem_entries.2 ⟨i, he⟩
    rw [hentries] at hmem
    cases hmem
  · have hpos := Nat.two_pow_pos k
    simp only [Dictht.size, length_replicate, hpow]
    omega

/-- What an operation that only moves entries keeps. -/
structure Keeps (hash : K → BitVec 64) (d d' : Dict K V) : Prop where
  ok : d'.Ok hash
  perm : d'.entries.Perm d.entries

theorem Keeps.refl (h : d.Ok hash) : Keeps hash d d := ⟨h, .refl _⟩

theorem Keeps.trans {d'' : Dict K V} (h : Keeps hash d d') (h' : Keeps hash d' d'') :
    Keeps hash d d'' := ⟨h'.ok, h'.perm.trans h.perm⟩

/-- The size of the larger table. -/
def Dict.maxSize (d : Dict K V) : Nat := max d.ht0.size d.ht1.size

/-- Rehashing makes no table. -/
structure Rehashed (hash : K → BitVec 64) (d d' : Dict K V) : Prop extends Keeps hash d d' where
  size_le : d'.maxSize ≤ d.maxSize

theorem Rehashed.refl (h : d.Ok hash) : Rehashed hash d d := ⟨.refl h, Nat.le_refl _⟩

theorem Rehashed.trans {d'' : Dict K V} (h : Rehashed hash d d') (h' : Rehashed hash d' d'') :
    Rehashed hash d d'' := ⟨h.toKeeps.trans h'.toKeeps, h'.size_le.trans h.size_le⟩

theorem keeps_dictExpand (h : d.Ok hash) {size : Nat} (hexpand : dictExpand d size = some d') :
    Keeps hash d d' := by
  obtain ⟨hok, hsize, hentries⟩ := ok_replicate hash V size
  unfold dictExpand at hexpand
  obtain ⟨hidle, hexpand⟩ := ite_none_left_eq_some.1 hexpand
  obtain ⟨-, hexpand⟩ := ite_none_left_eq_some.1 hexpand
  have hnone : d.rehashidx = none := by
    cases hr : d.rehashidx with
    | none => rfl
    | some r => exact absurd (.inl (by simp [Dict.isRehashing, hr])) hidle
  have hempty : d.ht1.entries = [] := entries_eq_nil_of_size (h.idle hnone)
  split at hexpand
  · next hnull =>
    -- the first table is made
    cases hexpand
    have hold : d.ht0.entries = [] :=
      entries_eq_nil_of_size (by rw [Dictht.size, List.isEmpty_iff.1 hnull]; rfl)
    refine ⟨⟨hok, h.ht1, h.idle, fun r hr => ?_⟩, ?_⟩
    · rw [hnone] at hr
      cases hr
    · simp only [Dict.entries, hentries, hold, List.Perm.refl]
  · next hnull =>
    -- the second table is made, and rehashing starts
    cases hexpand
    refine ⟨⟨h.ht0, hok, (fun hr => by cases hr), fun r hr => ⟨?_, hsize, ?_⟩⟩, ?_⟩
    · intro hzero
      exact hnull (by rw [List.isEmpty_iff]; exact length_eq_zero_iff.1 hzero)
    · obtain rfl := some.inj hr
      exact fun i hi => absurd hi (Nat.not_lt_zero i)
    · simp only [Dict.entries, hentries, hempty, List.Perm.refl]

theorem dictExpandIfNeeded_cases (h : dictExpandIfNeeded cfg canResize d = some d') :
    d' = d ∧ (d.isRehashing = true ∨ d.ht0.size ≠ 0) ∨ ∃ size, dictExpand d size = some d' := by
  unfold dictExpandIfNeeded at h
  split at h
  · next hre => exact .inl ⟨(some.inj h).symm, .inl hre⟩
  · split at h
    · exact .inr ⟨_, h⟩
    · next hsize =>
      split at h
      · dsimp only at h
        split at h
        · exact .inr ⟨_, h⟩
        · exact .inr ⟨_, h⟩
      · exact .inl ⟨(some.inj h).symm, .inr hsize⟩

theorem keeps_dictExpandIfNeeded (h : d.Ok hash)
    (hexpand : dictExpandIfNeeded cfg canResize d = some d') :
    Keeps hash d d' := by
  obtain ⟨rfl, -⟩ | ⟨size, hsize⟩ := dictExpandIfNeeded_cases hexpand
  · exact .refl h
  · exact keeps_dictExpand h hsize

/-- After it there is a table. -/
theorem size_ne_zero_of_dictExpandIfNeeded (h : d.Ok hash)
    (hexpand : dictExpandIfNeeded cfg canResize d = some d') :
    d'.ht0.size ≠ 0 := by
  obtain ⟨rfl, hre | hsize⟩ | ⟨size, hsome⟩ := dictExpandIfNeeded_cases hexpand
  · obtain ⟨r, hr⟩ := isSome_iff_exists.1 hre
    exact (h.rehashing r hr).1
  · exact hsize
  · unfold dictExpand at hsome
    obtain ⟨-, hsome⟩ := ite_none_left_eq_some.1 hsome
    obtain ⟨-, hsome⟩ := ite_none_left_eq_some.1 hsome
    split at hsome
    · cases hsome
      exact (ok_replicate hash V size).2.1
    · next hnull =>
      cases hsome
      intro hzero
      exact hnull (by rw [List.isEmpty_iff]; exact length_eq_zero_iff.1 hzero)

/-! ### Rehashing -/

/-- The search ends at a bucket that is not empty, or when it has visited enough. -/
theorem skipEmpty_spec (t : Dictht K V) (visits idx : Nat) :
    (∀ i, idx ≤ i → i < (skipEmpty t visits idx).2 → t.bucket i = []) ∧
      ((skipEmpty t visits idx).1 ≠ 0 → t.bucket (skipEmpty t visits idx).2 ≠ []) := by
  induction visits generalizing idx with
  | zero =>
    refine ⟨fun i hi hlt => ?_, fun hne => absurd rfl hne⟩
    simp only [skipEmpty] at hlt
    omega
  | succ visits ih =>
    unfold skipEmpty
    split
    · next hempty =>
      obtain ⟨hskipped, hfound⟩ := ih (idx + 1)
      refine ⟨fun i hi hlt => ?_, hfound⟩
      by_cases heq : i = idx
      · subst heq
        exact List.isEmpty_iff.1 hempty
      · exact hskipped i (by omega) hlt
    · next hfull =>
      refine ⟨fun i hi hlt => ?_, fun _ hnil => hfull (by rw [List.isEmpty_iff]; exact hnil)⟩
      simp only at hlt
      omega

/-- The assertion of `dictRehash`: with entries left there is a bucket to move from
`rehashidx` on, so that the search stays inside the table. -/
theorem exists_bucket_of_used (h : d.Ok hash) (hr : d.rehashidx = some r) (hused : d.ht0.used ≠ 0) :
    ∃ i, r ≤ i ∧ i < d.ht0.size ∧ d.ht0.bucket i ≠ [] := by
  have hne : d.ht0.entries ≠ [] := by
    intro hnil
    rw [h.ht0.used, hnil] at hused
    exact hused rfl
  obtain ⟨e, he⟩ := exists_mem_of_ne_nil _ hne
  obtain ⟨i, hi⟩ := mem_entries.1 he
  refine ⟨i, ?_, lt_size_of_mem hi, fun hnil => by rw [hnil] at hi; cases hi⟩
  by_contra hlt
  rw [(h.rehashing r hr).2.2 i (by omega)] at hi
  cases hi

theorem keeps_moveBucket (h : d.Ok hash) {idx : Nat} (hr : d.rehashidx = some r)
    (hskipped : ∀ i, r ≤ i → i < idx → d.ht0.bucket i = []) (hfull : d.ht0.bucket idx ≠ []) :
    Rehashed hash d (moveBucket hash d idx) := by
  obtain ⟨hsize0, hsize1, hbehind⟩ := h.rehashing r hr
  have hidx : idx < d.ht0.size := by
    by_contra hge
    exact hfull (bucket_of_size_le (by omega))
  have hlen := h.ht0.length_bucket_le hidx
  have hok0 : (⟨d.ht0.table.set idx [], d.ht0.used - (d.ht0.bucket idx).length⟩ : Dictht K V).Ok
      hash := h.ht0.set hidx (fun e he => by cases he) (by simp only [length_nil]; omega)
  obtain ⟨hok1, hsame, hperm⟩ := ok_foldl_push h.ht1 hsize1 (d.ht0.bucket idx)
  refine ⟨⟨⟨hok0, hok1, (fun hnone => by cases hnone), fun r' hr' => ⟨?_, ?_, fun i hi => ?_⟩⟩, ?_⟩,
    ?_⟩
  · show (⟨_, _⟩ : Dictht K V).size ≠ 0
    rw [size_set]
    exact hsize0
  · exact fun hzero => hsize1 (hsame.symm.trans hzero)
  · obtain rfl : idx + 1 = r' := some.inj hr'
    show (⟨_, _⟩ : Dictht K V).bucket i = []
    rw [bucket_set hidx]
    split
    · rfl
    · by_cases hlt : i < r
      · exact hbehind i hlt
      · exact hskipped i (by omega) (by omega)
  · -- what leaves the first table comes in front of the second
    have hset := entries_set (d.ht0.used - (d.ht0.bucket idx).length) [] hidx
    rw [append_nil] at hset
    refine (hperm.append_left _).trans ?_
    rw [← append_assoc]
    exact hset.append_right _
  · show max (⟨_, _⟩ : Dictht K V).size _ ≤ max d.ht0.size d.ht1.size
    rw [size_set, moveBucket, hsame]

theorem keeps_finishRehash (h : d.Ok hash) : Rehashed hash d (finishRehash d).1 := by
  unfold finishRehash
  split
  · next hused =>
    have hempty : d.ht0.entries = [] := length_eq_zero_iff.1 (h.ht0.used.symm.trans hused)
    refine ⟨⟨⟨h.ht1, ok_reset, fun _ => rfl, fun r hr => by cases hr⟩, ?_⟩,
      max_le (le_max_right _ _) (Nat.zero_le _)⟩
    show (d.ht1.entries ++ []).Perm (d.ht0.entries ++ d.ht1.entries)
    rw [hempty, append_nil, nil_append]
  · exact .refl h

theorem keeps_rehashLoop (n visits : Nat) (h : d.Ok hash) (hr : d.rehashidx = some r) :
    Rehashed hash d (rehashLoop hash n visits d).1 := by
  induction n generalizing visits d r with
  | zero => exact keeps_finishRehash h
  | succ n ih =>
    unfold rehashLoop
    split
    · exact keeps_finishRehash h
    · obtain ⟨hskipped, hfound⟩ := skipEmpty_spec d.ht0 visits r
      rw [hr, getD_some]
      split
      · next idx heq =>
        -- enough empty buckets were visited
        rw [heq] at hskipped
        obtain ⟨hsize0, hsize1, hbehind⟩ := h.rehashing r hr
        refine ⟨⟨⟨h.ht0, h.ht1, (fun hnone => by cases hnone), fun r' hr' => ⟨hsize0, hsize1, ?_⟩⟩,
          .refl _⟩, Nat.le_refl _⟩
        obtain rfl : idx = r' := some.inj hr'
        intro i hi
        by_cases hlt : i < r
        · exact hbehind i hlt
        · exact hskipped i (by omega) hi
      · next left idx heq =>
        rw [heq] at hskipped hfound
        have hmoved := keeps_moveBucket h hr hskipped (hfound (Nat.succ_ne_zero left))
        exact hmoved.trans (ih _ hmoved.ok rfl)

theorem keeps_dictRehash (h : d.Ok hash) (n : Nat) : Rehashed hash d (dictRehash hash d n).1 := by
  unfold dictRehash
  split
  · next hre =>
    obtain ⟨r, hr⟩ := isSome_iff_exists.1 hre
    exact keeps_rehashLoop n _ h hr
  · exact .refl h

theorem keeps_dictRehashStep (h : d.Ok hash) : Rehashed hash d (dictRehashStep hash d) := by
  unfold dictRehashStep
  split
  · exact keeps_dictRehash h 1
  · exact .refl h

/-! ### Entries -/

/-- Another content for a bucket of the first table; while rehashing none that was empty
gets one. -/
theorem Dict.Ok.setBucket0 (h : d.Ok hash) (hi : i < d.ht0.size)
    (hb : ∀ e ∈ b, d.ht0.index hash e.1 = i)
    (hused : used + (d.ht0.bucket i).length = d.ht0.used + b.length)
    (hnil : d.isRehashing = true → d.ht0.bucket i = [] → b = []) :
    ({ d with ht0 := ⟨d.ht0.table.set i b, used⟩ } : Dict K V).Ok hash := by
  refine ⟨h.ht0.set hi hb hused, h.ht1, h.idle, fun r hr => ?_⟩
  have hrehashing : d.rehashidx = some r := hr
  obtain ⟨hsize0, hsize1, hbehind⟩ := h.rehashing r hrehashing
  refine ⟨by rw [size_set]; exact hsize0, hsize1, fun j hj => ?_⟩
  rw [bucket_set hi]
  split
  · next heq =>
    subst heq
    exact hnil (by simp [Dict.isRehashing, hrehashing]) (hbehind j hj)
  · exact hbehind j hj

/-- Another content for a bucket of the second table. -/
theorem Dict.Ok.setBucket1 (h : d.Ok hash) (hi : i < d.ht1.size)
    (hb : ∀ e ∈ b, d.ht1.index hash e.1 = i)
    (hused : used + (d.ht1.bucket i).length = d.ht1.used + b.length) :
    ({ d with ht1 := ⟨d.ht1.table.set i b, used⟩ } : Dict K V).Ok hash := by
  refine ⟨h.ht0, h.ht1.set hi hb hused, fun hnone => ?_, fun r hr => ?_⟩
  · rw [size_set]
    exact h.idle hnone
  · obtain ⟨hsize0, hsize1, hbehind⟩ := h.rehashing r hr
    exact ⟨hsize0, by rw [size_set]; exact hsize1, hbehind⟩

theorem insertEntry_spec (h : d.Ok hash) (hsize : d.ht0.size ≠ 0) (e : K × V) :
    (insertEntry hash d e).Ok hash ∧ (insertEntry hash d e).entries.Perm (e :: d.entries) := by
  unfold insertEntry
  split
  · next hre =>
    obtain ⟨r, hr⟩ := isSome_iff_exists.1 hre
    have hsize1 := (h.rehashing r hr).2.1
    obtain ⟨-, -, hperm⟩ := ok_push h.ht1 hsize1 e
    refine ⟨h.setBucket1 (h.ht1.index_lt hsize1 e.1) (fun x hx => ?_) (by simp; omega), ?_⟩
    · obtain rfl | hx := mem_cons.1 hx
      · rfl
      · exact h.ht1.placed _ x hx
    · exact (hperm.append_left _).trans perm_middle
  · next hre =>
    obtain ⟨-, -, hperm⟩ := ok_push h.ht0 hsize e
    refine ⟨h.setBucket0 (h.ht0.index_lt hsize e.1) (fun x hx => ?_) (by simp; omega)
      (fun hre' => absurd hre' hre), ?_⟩
    · obtain rfl | hx := mem_cons.1 hx
      · rfl
      · exact h.ht0.placed _ x hx
    · exact hperm.append_right _

section Keys

variable [DecidableEq K]

variable {d : Dict K V} {key : K} {t : Dictht K V} {val : V}

theorem keeps_dictFind (h : d.Ok hash) (key : K) : Rehashed hash d (dictFind hash d key).1 := by
  unfold dictFind
  split
  · exact .refl h
  · exact keeps_dictRehashStep h

theorem length_setVal (key : K) (val : V) (l : List (K × V)) :
    (setVal key val l).length = l.length := by
  induction l with
  | nil => rfl
  | cons e l ih =>
    rw [setVal]
    split
    · rfl
    · simp [ih]

theorem mem_setVal {l : List (K × V)} {e : K × V} (h : e ∈ setVal key val l) :
    ∃ val', (e.1, val') ∈ l := by
  induction l with
  | nil => cases h
  | cons x l ih =>
    rw [setVal] at h
    split at h
    · next hx =>
      obtain rfl | h := mem_cons.1 h
      · exact ⟨x.2, by rw [← hx]; exact mem_cons_self⟩
      · exact ⟨e.2, mem_cons_of_mem _ h⟩
    · obtain rfl | h := mem_cons.1 h
      · exact ⟨e.2, mem_cons_self⟩
      · obtain ⟨val', hval'⟩ := ih h
        exact ⟨val', mem_cons_of_mem _ hval'⟩

theorem setIn_placed (ht : t.Ok hash) (key : K) (val : V) :
    ∀ e ∈ setVal key val (t.bucket (t.index hash key)), t.index hash e.1 = t.index hash key := by
  intro e he
  obtain ⟨val', hval'⟩ := mem_setVal he
  exact ht.placed _ (e.1, val') hval'

theorem Dict.Ok.setIn0 (h : d.Ok hash) (hsize : d.ht0.size ≠ 0) (key : K) (val : V) :
    ({ d with ht0 := setIn hash d.ht0 key val } : Dict K V).Ok hash :=
  h.setBucket0 (h.ht0.index_lt hsize key) (setIn_placed h.ht0 key val) (by rw [length_setVal])
    fun _ hnil => by rw [hnil]; rfl

theorem Dict.Ok.setIn1 (h : d.Ok hash) (hsize : d.ht1.size ≠ 0) (key : K) (val : V) :
    ({ d with ht1 := setIn hash d.ht1 key val } : Dict K V).Ok hash :=
  h.setBucket1 (h.ht1.index_lt hsize key) (setIn_placed h.ht1 key val) (by rw [length_setVal])

/-- A key that is found has a bucket, from which one entry is taken. -/
theorem unlink_facts (ht : t.Ok hash) (hfound : (findIn hash t key).isSome = true) :
    t.index hash key < t.size ∧ (t.used - 1) + (t.bucket (t.index hash key)).length =
        t.used + ((t.bucket (t.index hash key)).eraseP fun e => e.1 = key).length := by
  obtain ⟨e, he⟩ := isSome_iff_exists.1 hfound
  have hmem : e ∈ t.bucket (t.index hash key) := mem_of_find?_eq_some he
  have hkey : decide (e.1 = key) = true := find?_some (p := fun x : K × V => decide (x.1 = key)) he
  have hi : t.index hash key < t.size := lt_size_of_mem hmem
  have hlen := length_eraseP_add_one (p := fun x : K × V => decide (x.1 = key)) hmem hkey
  have hused := ht.length_bucket_le hi
  exact ⟨hi, by omega⟩

theorem Dict.Ok.unlink0 (h : d.Ok hash) (hfound : (findIn hash d.ht0 key).isSome = true) :
    ({ d with ht0 := unlink hash d.ht0 key } : Dict K V).Ok hash := by
  obtain ⟨hi, hused⟩ := unlink_facts h.ht0 hfound
  exact h.setBucket0 hi (fun e he => h.ht0.placed _ e (mem_of_mem_eraseP he)) hused
    fun _ hnil => by rw [hnil]; rfl

theorem Dict.Ok.unlink1 (h : d.Ok hash) (hfound : (findIn hash d.ht1 key).isSome = true) :
    ({ d with ht1 := unlink hash d.ht1 key } : Dict K V).Ok hash := by
  obtain ⟨hi, hused⟩ := unlink_facts h.ht1 hfound
  exact h.setBucket1 hi (fun e he => h.ht1.placed _ e (mem_of_mem_eraseP he)) hused

end Keys

end XredisCrdt.Hash
