import XredisCrdt.Lib.KeyedMerge
import XredisCrdt.Util
import Mathlib.Data.List.DropRight

/-!
# Vector clocks (`ctrip_vector_clock.c`)

The first part follows the source on the units as they stand in memory. A
function yields `none` where an assertion fires, a unit is written past the end
of its clock or a value is read that was never set. `qsort` may order units of
one gid as it likes; the sort here is stable, which differs only for such clocks.
That `vectorClockMerge` and `mergeMinVectorClock` leave their arguments sorted is
not kept.

The second part is about `VectorClock`, units with distinct gids and fields that
fit their bits. There every function succeeds, and `VectorClock.listed` says what
it does to each gid.
-/

namespace XredisCrdt.Clock

open Lib.KeyedMerge List Option

/-- `VectorClockUnit`: four bits of gid and 56 bits of logical clock. -/
structure ClockUnit where
  gid : Nat
  clock : Nat
  deriving DecidableEq, Repr

/-- The units of a clock in memory; a null clock has none. -/
abbrev Units := List ClockUnit

/-- A `long long` assigned to the clock field. -/
def toClock (t : Int) : Nat := (t % 2 ^ 56).toNat

/-- `init_clock`: both values are cut to their fields. -/
def initClock (gid t : Int) : ClockUnit := ⟨(gid % 16).toNat, toClock t⟩

/-- The units `us` written with `set_clock_unit_by_index` into the clock that
`newVectorClock(n)` made: the length has four bits, and `set_gid` refuses gid 0. -/
def store (n : Nat) (us : Units) : Option Units :=
  if n < 16 ∧ us.length = n ∧ ∀ u ∈ us, 0 < u.gid then some us else none

/-- `get_clock_unit`. -/
def getClockUnit (us : Units) (gid : Nat) : Option ClockUnit := at? ClockUnit.gid us gid

/-- `getVectorClockUnit`: the zero unit for a gid that is not there. -/
def getVectorClockUnit (us : Units) (gid : Nat) : ClockUnit := (getClockUnit us gid).getD ⟨0, 0⟩

/-- `get_vcu_from_vc`. -/
def getVcuFromVc (us : Units) (gid : Nat) : Nat := (getVectorClockUnit us gid).clock

def sortVectorClock (us : Units) : Units := sort ClockUnit.gid us

/-- `set_logic_clock` on the unit that `get_clock_unit` finds. -/
def setLogicClock (gid : Nat) (f : Nat → Int) : Units → Units
  | [] => []
  | u :: us =>
    if u.gid = gid then { u with clock := toClock (f u.clock) } :: us
    else u :: setLogicClock gid f us

/-- A clock with one more unit, sorted again. -/
def appendUnit (us : Units) (gid : Nat) (t : Int) : Option Units :=
  (store (us.length + 1) (us ++ [initClock gid t])).map sortVectorClock

def addVectorClockUnit (us : Units) (gid : Nat) (t : Int) : Option Units :=
  match getClockUnit us gid with
  | some _ => some (setLogicClock gid (fun _ => t) us)
  | none => appendUnit us gid t

/-- Nothing happens to a clock that does not list the gid. -/
def incrLogicClock (us : Units) (gid : Nat) (delta : Int) : Units :=
  setLogicClock gid (fun c => c + delta) us

/-- The `flag` of `commonMergeFunction`. -/
inductive MergeFlag
  | max
  | align
  deriving DecidableEq, Repr

/-- The clock that is set where both list the gid, `t` in `src` and `d` in `dst`. -/
def MergeFlag.apply (flag : MergeFlag) (t d : Nat) : Int :=
  match flag with
  | .max => ((Max.max t d : Nat) : Int)
  | .align => (t : Int)

def commonMergeFunction (dst src : Units) (gid : Nat) (flag : MergeFlag) : Option Units :=
  match getClockUnit src gid with
  | none => some dst
  | some s =>
    match getClockUnit dst gid with
    | none => appendUnit dst gid s.clock
    | some _ => some (setLogicClock gid (flag.apply s.clock) dst)

def mergeLogicClock (dst src : Units) (gid : Nat) : Option Units :=
  commonMergeFunction dst src gid .max

def updateProcessVectorClock (dst src : Units) (gid currentGid : Nat) : Option Units :=
  commonMergeFunction dst src gid (if gid = currentGid then .align else .max)

/-- A clock of several units is copied with `memcpy`. -/
def dupVectorClock (us : Units) : Option Units :=
  if us.length = 1 then store 1 us else if us.length < 16 then some us else none

/-- `count_all_gid_num`. -/
def countAllGidNum (dst src : Units) : Nat := ((src ++ dst).map ClockUnit.gid).dedup.length

/-- The unit written for a gid that both clocks list. -/
def pickUnit (pick : Nat → Nat → Nat) (u v : ClockUnit) : ClockUnit :=
  ⟨u.gid, pick u.clock v.clock⟩

/-- The unit written for a gid that one clock lists. -/
def aloneUnit (alone : Nat → Nat) (u : ClockUnit) : ClockUnit := ⟨u.gid, alone u.clock⟩

/-- The common course of `vectorClockMerge` and `mergeMinVectorClock` on two
clocks that are not null: `pick` combines the clocks of a gid that both list,
`alone` is the clock of a gid that only one lists. -/
def mergeUnits (pick : Nat → Nat → Nat) (alone : Nat → Nat) (a b : Units) : Option Units :=
  if 1 < countAllGidNum a b then
    store (countAllGidNum a b)
      (mergeBy ClockUnit.gid (pickUnit pick) (aloneUnit alone) (sortVectorClock a)
        (sortVectorClock b))
  else
    -- one gid in all: a copy of the second clock, whose first unit is set
    match dupVectorClock b, a.head? with
    | some (v :: vs), some u => some ({ v with clock := pick u.clock v.clock } :: vs)
    | _, _ => none

def vectorClockMerge (a b : Units) : Option Units :=
  if a = [] ∧ b = [] then some []
  else if a = [] then dupVectorClock b
  else if b = [] then dupVectorClock a
  else mergeUnits Max.max id a b

/-- `cleanVectorClock`. -/
def cleanVectorClock (us : Units) : Units := us.map fun u => { u with clock := 0 }

def mergeMinVectorClock (a b : Units) : Option Units :=
  if a = [] ∧ b = [] then some []
  else if a = [] then (dupVectorClock b).map cleanVectorClock
  else if b = [] then (dupVectorClock a).map cleanVectorClock
  else mergeUnits Min.min (fun _ => 0) a b

/-! ## Texts -/

/-- The loop of `sdssplitlen` for a separator of one byte; `token` is the text
since the last separator. -/
def splitLoop (sep : UInt8) : Bytes → Bytes → List Bytes
  | token, [] => [token]
  | token, b :: bs =>
    if b = sep then token :: splitLoop sep [] bs else splitLoop sep (token ++ [b]) bs

/-- `sdssplitlen`. -/
def sdssplitlen (s : Bytes) (sep : UInt8) : List Bytes :=
  if s = [] then [] else splitLoop sep [] s

/-- `sdsToVectorClockUnit`: a text without exactly one colon gives the zero unit;
where a number cannot be read its variable was never set. -/
def sdsToVectorClockUnit (s : Bytes) : Option ClockUnit :=
  match sdssplitlen s 58 with
  | [gid, time] => do
    let gid ← string2ll gid
    let time ← string2ll time
    some (initClock gid time)
  | _ => some ⟨0, 0⟩

/-- `sdstrim(s, "")`: the empty set ends in a NUL byte, which `strchr` finds in it, so NUL
bytes go at both ends. -/
def sdstrimNul (s : Bytes) : Bytes := (s.dropWhile (· = 0)).rdropWhile (· = 0)

/-- The last of the texts is trimmed, and dropped if nothing is left. -/
def trimLast (trim : Bytes → Bytes) (texts : List Bytes) : List Bytes :=
  match texts.getLast? with
  | none => []
  | some last => if trim last = [] then texts.dropLast else texts.dropLast ++ [trim last]

/-- The texts of the units in `sdsToVectorClock`. -/
def unitTexts (s : Bytes) : List Bytes := trimLast sdstrimNul (sdssplitlen s 59)

/-- `sdsToVectorClock`: units in the order of the text. -/
def sdsToVectorClock (s : Bytes) : Option Units := do
  let us ← (unitTexts s).mapM sdsToVectorClockUnit
  store (unitTexts s).length us

/-! ## One unit changed -/

@[simp] theorem toClock_natCast {n : Nat} (h : n < 2 ^ 56) : toClock n = n := by
  unfold toClock
  omega

theorem toClock_lt (t : Int) : toClock t < 2 ^ 56 := by
  unfold toClock
  omega

theorem setLogicClock_gids (gid : Nat) (f : Nat → Int) (us : Units) :
    (setLogicClock gid f us).map ClockUnit.gid = us.map ClockUnit.gid := by
  induction us with
  | nil => rfl
  | cons u us ih =>
    rw [setLogicClock]
    split <;> simp [ih]

theorem getClockUnit_setLogicClock (gid : Nat) (f : Nat → Int) (us : Units) (g : Nat) :
    getClockUnit (setLogicClock gid f us) g =
      if g = gid then (getClockUnit us g).map fun u => { u with clock := toClock (f u.clock) }
      else getClockUnit us g := by
  unfold getClockUnit
  induction us with
  | nil => split <;> rfl
  | cons u us ih =>
    rw [setLogicClock, at?_cons]
    by_cases hu : u.gid = gid
    · rw [if_pos hu, at?_cons]
      by_cases hg : u.gid = g
      · rw [if_pos hg, if_pos hg, if_pos (hg.symm.trans hu)]
        rfl
      · rw [if_neg hg, if_neg hg, if_neg (fun h => hg (hu.trans h.symm))]
    · rw [if_neg hu, at?_cons, ih]
      by_cases hg : u.gid = g
      · rw [if_pos hg, if_pos hg, if_neg (fun h => hu (hg.trans h))]
      · rw [if_neg hg, if_neg hg]

theorem mem_setLogicClock {gid : Nat} {f : Nat → Int} {us : Units} {u : ClockUnit}
    (h : u ∈ setLogicClock gid f us) :
    u ∈ us ∨ ∃ u' ∈ us, u = { u' with clock := toClock (f u'.clock) } := by
  induction us with
  | nil => simp [setLogicClock] at h
  | cons a us ih =>
    rw [setLogicClock] at h
    split at h
    · rcases mem_cons.1 h with rfl | h
      · exact .inr ⟨a, by simp, rfl⟩
      · exact .inl (by simp [h])
    · rcases mem_cons.1 h with rfl | h
      · exact .inl (by simp)
      · rcases ih h with h | ⟨u', hu', rfl⟩
        · exact .inl (by simp [h])
        · exact .inr ⟨u', by simp [hu'], rfl⟩

/-! ## Clocks -/

/-- The gids that `check_gid` accepts. -/
abbrev Gid := { g : Nat // 0 < g ∧ g < 16 }

/-- Distinct gids, and fields that fit their bits. -/
structure VectorClock where
  units : Units
  distinct : Distinct ClockUnit.gid units
  bits : ∀ u ∈ units, 0 < u.gid ∧ u.gid < 16 ∧ u.clock < 2 ^ 56
  deriving DecidableEq

namespace VectorClock

variable (v w : VectorClock)

/-- `newVectorClock(0)`. -/
def null : VectorClock := ⟨[], by decide, by simp⟩

/-- The clock of a gid that is listed. -/
def listed (g : Nat) : Option Nat := (getClockUnit v.units g).map ClockUnit.clock

/-- The clock of a gid, 0 if it is not listed. -/
def time (g : Nat) : Nat := (v.listed g).getD 0

@[simp] theorem null_time (g : Nat) : null.time g = 0 := rfl

variable {v w}

theorem bits_of_get {g : Nat} {u : ClockUnit} (h : getClockUnit v.units g = some u) :
    0 < g ∧ g < 16 ∧ u.clock < 2 ^ 56 :=
  at?_key h ▸ v.bits u (at?_mem h)

theorem listed_bits {g n : Nat} (h : v.listed g = some n) : 0 < g ∧ g < 16 ∧ n < 2 ^ 56 := by
  obtain ⟨u, hu, rfl⟩ := map_eq_some_iff.1 h
  exact bits_of_get hu

theorem getClockUnit_eq_some_of_listed {g n : Nat} (h : v.listed g = some n) :
    getClockUnit v.units g = some ⟨g, n⟩ := by
  obtain ⟨u, hu, rfl⟩ := map_eq_some_iff.1 h
  rw [hu, ← at?_key hu]

theorem getClockUnit_eq_none {g : Nat} : getClockUnit v.units g = none ↔ v.listed g = none := by
  simp [listed]

/-- Sorted clocks that list the same are equal. -/
theorem ext_listed (hv : Ascending ClockUnit.gid v.units) (hw : Ascending ClockUnit.gid w.units)
    (h : ∀ g, v.listed g = w.listed g) : v = w := by
  have hunits : v.units = w.units := by
    refine ext_ascending hv hw fun g => ?_
    have hg := h g
    cases hn : v.listed g with
    | none =>
      rw [hn] at hg
      exact (getClockUnit_eq_none.2 hn).trans (getClockUnit_eq_none.2 hg.symm).symm
    | some n =>
      rw [hn] at hg
      exact (getClockUnit_eq_some_of_listed hn).trans (getClockUnit_eq_some_of_listed hg.symm).symm
  cases v
  cases w
  cases hunits
  rfl

open ClockUnit

/-- There is room for all gids: a clock has at most 15 units. -/
theorem length_lt (v : VectorClock) : v.units.length < 16 := by
  have hsub : (v.units.map gid) ⊆ List.range' 1 15 := by
    intro g hg
    obtain ⟨u, hu, rfl⟩ := mem_map.1 hg
    obtain ⟨hpos, hlt, -⟩ := v.bits u hu
    rw [mem_range'_1]
    omega
  have hle := (subperm_of_subset v.distinct hsub).length_le
  rw [length_map, length_range'] at hle
  omega

theorem store_units (v : VectorClock) : store v.units.length v.units = some v.units :=
  if_pos ⟨v.length_lt, rfl, fun u hu => (v.bits u hu).1⟩

theorem dupVectorClock_units (v : VectorClock) : dupVectorClock v.units = some v.units := by
  unfold dupVectorClock
  split_ifs with h1 h16
  · rw [← h1]
    exact v.store_units
  · rfl
  · exact absurd v.length_lt h16

/-! ### One gid -/

/-- `set_logic_clock` at a gid that is listed. -/
def setTime (v : VectorClock) (g : Nat) (f : Nat → Int) : VectorClock where
  units := setLogicClock g f v.units
  distinct := by
    unfold Distinct
    rw [setLogicClock_gids]
    exact v.distinct
  bits := by
    intro u hu
    rcases mem_setLogicClock hu with hu | ⟨u', hu', rfl⟩
    · exact v.bits u hu
    · exact ⟨(v.bits u' hu').1, (v.bits u' hu').2.1, toClock_lt _⟩

theorem setTime_listed (v : VectorClock) (g : Nat) (f : Nat → Int) (k : Nat) :
    (v.setTime g f).listed k =
      if k = g then (v.listed k).map fun c => toClock (f c) else v.listed k := by
  unfold listed setTime
  rw [getClockUnit_setLogicClock]
  split
  · cases getClockUnit v.units k <;> rfl
  · rfl

/-- A gid that was not listed. -/
def append (v : VectorClock) (g : Gid) (t : Int) (h : v.listed g = none) : VectorClock where
  units := sortVectorClock (v.units ++ [⟨g, toClock t⟩])
  distinct := by
    refine Distinct.perm ?_ (sort_perm _)
    unfold Distinct
    rw [map_append, nodup_append]
    refine ⟨v.distinct, by simp, ?_⟩
    intro a ha b hb
    obtain ⟨u, hu, rfl⟩ := mem_map.1 ha
    rw [map_singleton, mem_singleton] at hb
    rw [hb]
    exact at?_eq_none.1 (getClockUnit_eq_none.2 h) u hu
  bits := by
    intro u hu
    rcases mem_append.1 ((sort_perm _).mem_iff.1 hu) with hu | hu
    · exact v.bits u hu
    · rw [mem_singleton.1 hu]
      exact ⟨g.2.1, g.2.2, toClock_lt _⟩

theorem appendUnit_units (v : VectorClock) (g : Gid) (t : Int) (h : v.listed g = none) :
    appendUnit v.units g t = some (v.append g t h).units := by
  have hunit : initClock (g : Nat) t = ⟨g, toClock t⟩ := by
    obtain ⟨g, hg⟩ := g
    simp only [initClock, ClockUnit.mk.injEq, and_true]
    omega
  have hperm : (v.append g t h).units.Perm (v.units ++ [(⟨g, toClock t⟩ : ClockUnit)]) :=
    sort_perm _
  have hlen := (v.append g t h).length_lt
  rw [hperm.length_eq, length_append] at hlen
  unfold appendUnit
  rw [hunit, store, if_pos]
  · rfl
  · refine ⟨hlen, by simp, ?_⟩
    intro u hu
    exact ((v.append g t h).bits u (hperm.mem_iff.2 hu)).1

theorem append_listed (v : VectorClock) (g : Gid) (t : Int) (h : v.listed g = none) (k : Nat) :
    (v.append g t h).listed k = if k = g then some (toClock t) else v.listed k := by
  have hd : Distinct gid (v.units ++ [⟨g, toClock t⟩]) :=
    (v.append g t h).distinct.perm (sort_perm _).symm
  unfold listed getClockUnit append sortVectorClock
  rw [at?_sort hd, at?, find?_append, ← at?]
  split
  · rename_i hk
    subst hk
    have hnone : at? gid v.units g = none := getClockUnit_eq_none.2 h
    simp [hnone]
  · rename_i hk
    cases at? gid v.units k <;> simp [Ne.symm hk]

/-- `addVectorClockUnit`. -/
def add (v : VectorClock) (g : Gid) (t : Int) : VectorClock :=
  if h : v.listed g = none then v.append g t h else v.setTime g fun _ => t

theorem addVectorClockUnit_units (v : VectorClock) (g : Gid) (t : Int) :
    addVectorClockUnit v.units g t = some (v.add g t).units := by
  unfold addVectorClockUnit add
  cases hu : getClockUnit v.units g with
  | none =>
    have h := getClockUnit_eq_none.1 hu
    rw [dif_pos h]
    exact v.appendUnit_units g t h
  | some u => rw [dif_neg (by rw [← getClockUnit_eq_none, hu]; simp), setTime]

theorem add_listed (v : VectorClock) (g : Gid) (t : Int) (k : Nat) :
    (v.add g t).listed k = if k = g then some (toClock t) else v.listed k := by
  unfold add
  split
  · exact v.append_listed g t _ k
  · rename_i h
    rw [setTime_listed]
    split
    · rename_i hk
      subst hk
      obtain ⟨n, hn⟩ := ne_none_iff_exists'.1 h
      rw [hn]
      rfl
    · rfl

/-- `commonMergeFunction`: the clock of one gid is taken over from `src`. -/
def mergeAt (dst src : VectorClock) (g : Nat) (flag : MergeFlag) : VectorClock :=
  if hs : src.listed g = none then dst
  else if hd : dst.listed g = none then
    dst.append ⟨g, by
      obtain ⟨n, hn⟩ := ne_none_iff_exists'.1 hs
      exact ⟨(listed_bits hn).1, (listed_bits hn).2.1⟩⟩ (src.time g) hd
  else dst.setTime g (flag.apply (src.time g))

theorem commonMergeFunction_units (dst src : VectorClock) (g : Nat) (flag : MergeFlag) :
    commonMergeFunction dst.units src.units g flag = some (dst.mergeAt src g flag).units := by
  unfold commonMergeFunction mergeAt
  cases hs : getClockUnit src.units g with
  | none => rw [dif_pos (getClockUnit_eq_none.1 hs)]
  | some u =>
    have hlisted : src.listed g = some u.clock := by rw [listed, hs]; rfl
    have htime : src.time g = u.clock := by rw [time, hlisted]; rfl
    rw [dif_neg (by rw [hlisted]; simp)]
    cases hd : getClockUnit dst.units g with
    | none =>
      rw [dif_pos (getClockUnit_eq_none.1 hd), htime]
      exact dst.appendUnit_units ⟨g, _⟩ _ _
    | some w =>
      rw [dif_neg (by rw [← getClockUnit_eq_none, hd]; simp), htime]
      rfl

theorem mergeAt_of_not_listed {dst src : VectorClock} {g : Nat} (flag : MergeFlag)
    (h : src.listed g = none) : dst.mergeAt src g flag = dst := dif_pos h

theorem mergeAt_listed_self {dst src : VectorClock} {g t : Nat} (flag : MergeFlag)
    (h : src.listed g = some t) :
    (dst.mergeAt src g flag).listed g = some (flag.apply t ((dst.listed g).getD t)).toNat := by
  have ht : src.time g = t := by rw [time, h]; rfl
  have htlt := (listed_bits h).2.2
  unfold mergeAt
  rw [dif_neg (by rw [h]; simp)]
  split
  · rename_i hd
    rw [append_listed, if_pos rfl, ht, toClock_natCast htlt, hd]
    cases flag <;> simp [MergeFlag.apply]
  · rename_i hd
    obtain ⟨d, hd⟩ := ne_none_iff_exists'.1 hd
    have hdlt := (listed_bits hd).2.2
    rw [setTime_listed, if_pos rfl, ht, hd]
    cases flag with
    | max =>
      have hmax : max t d < 2 ^ 56 := max_lt htlt hdlt
      simp only [MergeFlag.apply, map_some, getD_some, toClock_natCast hmax, Int.toNat_natCast]
    | align =>
      simp only [MergeFlag.apply, map_some, toClock_natCast htlt, Int.toNat_natCast]

theorem mergeAt_listed_ne {dst src : VectorClock} {g k : Nat} (flag : MergeFlag) (hk : k ≠ g) :
    (dst.mergeAt src g flag).listed k = dst.listed k := by
  unfold mergeAt
  split
  · rfl
  · split
    · rw [append_listed, if_neg hk]
    · rw [setTime_listed, if_neg hk]

/-- `incrLogicClock`. -/
def incr (v : VectorClock) (g : Nat) (delta : Int) : VectorClock := v.setTime g fun c => c + delta

theorem incr_listed_self {v : VectorClock} {g t : Nat} (h : v.listed g = some t) {n : Nat}
    (hn : n < 2 ^ 56) {delta : Int} (hsum : (t : Int) + delta = n) :
    (v.incr g delta).listed g = some n := by
  unfold incr
  rw [setTime_listed, if_pos rfl, h, map_some, hsum, toClock_natCast hn]

/-- No gid is lost and no clock is lowered from `v` to `w`. -/
def Grows (v w : VectorClock) : Prop :=
  ∀ g t, v.listed g = some t → ∃ t', w.listed g = some t' ∧ t ≤ t'

theorem Grows.refl (v : VectorClock) : Grows v v := fun _ t h => ⟨t, h, le_rfl⟩

theorem Grows.trans {u v w : VectorClock} (h : Grows u v) (h' : Grows v w) : Grows u w := by
  intro g t ht
  obtain ⟨t₁, h₁, hle₁⟩ := h g t ht
  obtain ⟨t₂, h₂, hle₂⟩ := h' g t₁ h₁
  exact ⟨t₂, h₂, hle₁.trans hle₂⟩

theorem Grows.time {v w : VectorClock} (h : Grows v w) (g : Nat) : v.time g ≤ w.time g := by
  unfold VectorClock.time
  cases hv : v.listed g with
  | none => exact Nat.zero_le _
  | some t =>
    obtain ⟨t', hw, hle⟩ := h g t hv
    rw [hw]
    exact hle

theorem grows_mergeAt_max (dst src : VectorClock) (g : Nat) :
    Grows dst (dst.mergeAt src g .max) := by
  intro k t ht
  by_cases hk : k = g
  · subst hk
    cases hs : src.listed k with
    | none => exact ⟨t, by rw [mergeAt_of_not_listed _ hs, ht], le_rfl⟩
    | some u =>
      refine ⟨_, mergeAt_listed_self _ hs, ?_⟩
      rw [ht]
      simp [MergeFlag.apply]
  · exact ⟨t, by rw [mergeAt_listed_ne _ hk, ht], le_rfl⟩

theorem grows_incr {v : VectorClock} {g t n : Nat} {delta : Int} (h : v.listed g = some t)
    (hn : n < 2 ^ 56) (hsum : (t : Int) + delta = n) (hle : t ≤ n) : Grows v (v.incr g delta) := by
  intro k u hu
  by_cases hk : k = g
  · subst hk
    obtain rfl : t = u := some.inj (h.symm.trans hu)
    exact ⟨n, incr_listed_self h hn hsum, hle⟩
  · refine ⟨u, ?_, le_rfl⟩
    rw [incr, setTime_listed, if_neg hk, hu]

/-- A unit that is set to 0 was 0 or not there. -/
theorem grows_add_zero {v : VectorClock} {g : Gid} (h : v.time g = 0) : Grows v (v.add g 0) := by
  intro k u hu
  rw [add_listed]
  split
  · rename_i hk
    refine ⟨toClock 0, rfl, ?_⟩
    rw [hk] at hu
    rw [time, hu] at h
    exact h.le.trans (Nat.zero_le _)
  · exact ⟨u, hu, le_rfl⟩

/-! ### Two clocks -/

section

variable {pick : Nat → Nat → Nat} {alone : Nat → Nat}

theorem pickUnit_gid (pick : Nat → Nat → Nat) (u v : ClockUnit) (_ : u.gid = v.gid) :
    (pickUnit pick u v).gid = u.gid := rfl

theorem aloneUnit_gid (alone : Nat → Nat) (u : ClockUnit) : (aloneUnit alone u).gid = u.gid := rfl

theorem mergeBy_spec (pick : Nat → Nat → Nat) (alone : Nat → Nat) (v w : VectorClock) :
    Ascending gid (mergeBy gid (pickUnit pick) (aloneUnit alone)
      (sortVectorClock v.units) (sortVectorClock w.units)) ∧
    ∀ g, getClockUnit (mergeBy gid (pickUnit pick) (aloneUnit alone)
        (sortVectorClock v.units) (sortVectorClock w.units)) g =
      combine (pickUnit pick) (aloneUnit alone) (getClockUnit v.units g)
        (getClockUnit w.units g) := by
  have hv := ascending_sort v.distinct
  have hw := ascending_sort w.distinct
  refine ⟨ascending_mergeBy (pickUnit_gid pick) (aloneUnit_gid alone) hv hw, fun g => ?_⟩
  have h := at?_mergeBy (pickUnit_gid pick) (aloneUnit_gid alone) hv hw g
  rwa [at?_sort v.distinct, at?_sort w.distinct] at h

/-- The merge of two clocks; `pick` and `alone` stay within the clock's bits. -/
def mergeWith (pick : Nat → Nat → Nat) (alone : Nat → Nat)
    (hpick : ∀ x y, x < 2 ^ 56 → y < 2 ^ 56 → pick x y < 2 ^ 56)
    (halone : ∀ x, x < 2 ^ 56 → alone x < 2 ^ 56) (v w : VectorClock) : VectorClock where
  units := mergeBy ClockUnit.gid (pickUnit pick) (aloneUnit alone) (sortVectorClock v.units)
    (sortVectorClock w.units)
  distinct := (mergeBy_spec pick alone v w).1.distinct
  bits := by
    obtain ⟨hasc, hget⟩ := mergeBy_spec pick alone v w
    intro u hu
    have hg := (at?_eq_some hasc.distinct).2 ⟨hu, rfl⟩
    have h := (hget u.gid).symm.trans hg
    cases hv : getClockUnit v.units u.gid with
    | none =>
      cases hw : getClockUnit w.units u.gid with
      | none => simp [hv, hw, combine] at h
      | some b =>
        simp only [hv, hw, combine, aloneUnit, some.injEq] at h
        obtain ⟨hpos, hlt, hb⟩ := bits_of_get hw
        exact ⟨hpos, hlt, h ▸ halone _ hb⟩
    | some a =>
      obtain ⟨hpos, hlt, ha⟩ := bits_of_get hv
      refine ⟨hpos, hlt, ?_⟩
      cases hw : getClockUnit w.units u.gid with
      | none =>
        simp only [hv, hw, combine, aloneUnit, some.injEq] at h
        exact h ▸ halone _ ha
      | some b =>
        simp only [hv, hw, combine, pickUnit, some.injEq] at h
        exact h ▸ hpick _ _ ha (bits_of_get hw).2.2

variable (hpick : ∀ x y, x < 2 ^ 56 → y < 2 ^ 56 → pick x y < 2 ^ 56)
  (halone : ∀ x, x < 2 ^ 56 → alone x < 2 ^ 56)

theorem mergeWith_listed (v w : VectorClock) (g : Nat) :
    (mergeWith pick alone hpick halone v w).listed g =
      combine pick alone (v.listed g) (w.listed g) := by
  have h := (mergeBy_spec pick alone v w).2 g
  unfold listed mergeWith
  rw [h]
  cases getClockUnit v.units g <;> cases getClockUnit w.units g <;> rfl

theorem countAllGidNum_units (v w : VectorClock) :
    (mergeWith pick alone hpick halone v w).units.length = countAllGidNum v.units w.units := by
  have hlen := length_mergeBy (pickUnit_gid pick) (aloneUnit_gid alone)
    (ascending_sort v.distinct) (ascending_sort w.distinct)
  have hperm : (sort gid v.units ++ sort gid w.units).Perm
      (w.units ++ v.units) :=
    ((sort_perm _).append (sort_perm _)).trans perm_append_comm
  unfold countAllGidNum
  rw [← (hperm.map gid).dedup.length_eq]
  exact hlen

/-- A clock that shares its only gid. -/
theorem length_le_countAllGidNum (v w : VectorClock) :
    v.units.length ≤ countAllGidNum v.units w.units ∧
      w.units.length ≤ countAllGidNum v.units w.units := by
  unfold countAllGidNum
  constructor
  · rw [← length_map gid]
    refine (subperm_of_subset v.distinct fun g hg => ?_).length_le
    rw [mem_dedup, map_append, mem_append]
    exact .inr hg
  · rw [← length_map gid]
    refine (subperm_of_subset w.distinct fun g hg => ?_).length_le
    rw [mem_dedup, map_append, mem_append]
    exact .inl hg

theorem mergeUnits_units {v w : VectorClock} (hv : v.units ≠ []) (hw : w.units ≠ []) :
    mergeUnits pick alone v.units w.units = some (mergeWith pick alone hpick halone v w).units := by
  have hcount := countAllGidNum_units hpick halone v w
  unfold mergeUnits
  split
  · rw [← hcount]
    exact (mergeWith pick alone hpick halone v w).store_units
  · rename_i hone
    -- one gid in all: both clocks are that one unit
    obtain ⟨hlv, hlw⟩ := length_le_countAllGidNum v w
    obtain ⟨a, ha⟩ : ∃ a, v.units = [a] :=
      length_eq_one_iff.1 (by have := length_pos_iff.2 hv; omega)
    obtain ⟨b, hb⟩ : ∃ b, w.units = [b] :=
      length_eq_one_iff.1 (by have := length_pos_iff.2 hw; omega)
    have hab : a.gid = b.gid := by
      by_contra hne
      rw [ha, hb] at hone
      simp [countAllGidNum, Ne.symm hne] at hone
    have hdup := w.dupVectorClock_units
    simp only [mergeWith, ha, hb] at hdup ⊢
    rw [hdup]
    simp [sortVectorClock, sort, mergeBy, mergeHead, hab, pickUnit]

end

/-- `vectorClockMerge`. -/
def merge (v w : VectorClock) : VectorClock :=
  if v.units = [] then w
  else if w.units = [] then v
  else mergeWith Max.max id (fun _ _ => max_lt) (fun _ h => h) v w

theorem vectorClockMerge_units (v w : VectorClock) :
    vectorClockMerge v.units w.units = some (v.merge w).units := by
  unfold vectorClockMerge merge
  by_cases hv : v.units = []
  · by_cases hw : w.units = []
    · rw [if_pos ⟨hv, hw⟩, if_pos hv, hw]
    · rw [if_neg (fun h => hw h.2), if_pos hv, if_pos hv]
      exact w.dupVectorClock_units
  · rw [if_neg (fun h => hv h.1), if_neg hv, if_neg hv]
    by_cases hw : w.units = []
    · rw [if_pos hw, if_pos hw]
      exact v.dupVectorClock_units
    · rw [if_neg hw, if_neg hw]
      exact mergeUnits_units _ _ hv hw

theorem listed_of_units_nil (h : v.units = []) (g : Nat) : v.listed g = none := by
  rw [listed, h]
  rfl

theorem merge_listed (v w : VectorClock) (g : Nat) :
    (v.merge w).listed g = combine Max.max id (v.listed g) (w.listed g) := by
  unfold merge
  split_ifs with hv hw
  · rw [listed_of_units_nil hv]
    cases w.listed g <;> rfl
  · rw [listed_of_units_nil hw]
    cases v.listed g <;> rfl
  · exact mergeWith_listed _ _ v w g

/-- Every time is the larger of the two. -/
theorem merge_time (v w : VectorClock) (g : Nat) :
    (v.merge w).time g = max (v.time g) (w.time g) := by
  unfold time
  rw [merge_listed]
  cases v.listed g <;> cases w.listed g <;> simp [combine]

/-- `cleanVectorClock`. -/
def clean (v : VectorClock) : VectorClock where
  units := cleanVectorClock v.units
  distinct := by
    have h : (cleanVectorClock v.units).map ClockUnit.gid = v.units.map ClockUnit.gid := by
      simp [cleanVectorClock]
    unfold Distinct
    rw [h]
    exact v.distinct
  bits := by
    intro u hu
    obtain ⟨u', hu', rfl⟩ := mem_map.1 hu
    exact ⟨(v.bits u' hu').1, (v.bits u' hu').2.1, by simp⟩

theorem clean_listed (v : VectorClock) (g : Nat) :
    v.clean.listed g = (v.listed g).map fun _ => 0 := by
  have h : ∀ us : Units, (getClockUnit (cleanVectorClock us) g).map clock =
      ((getClockUnit us g).map clock).map fun _ => 0 := by
    intro us
    unfold getClockUnit cleanVectorClock
    induction us with
    | nil => rfl
    | cons u us ih =>
      rw [map_cons, at?_cons, at?_cons]
      split
      · rfl
      · exact ih
  exact h v.units

/-- `mergeMinVectorClock`. -/
def mergeMin (v w : VectorClock) : VectorClock :=
  if v.units = [] then w.clean
  else if w.units = [] then v.clean
  else mergeWith Min.min (fun _ => 0) (fun _ _ h _ => min_lt_of_left_lt h)
    (fun _ _ => by decide) v w

theorem mergeMinVectorClock_units (v w : VectorClock) :
    mergeMinVectorClock v.units w.units = some (v.mergeMin w).units := by
  unfold mergeMinVectorClock mergeMin
  by_cases hv : v.units = []
  · by_cases hw : w.units = []
    · rw [if_pos ⟨hv, hw⟩, if_pos hv, show w.clean.units = cleanVectorClock w.units from rfl, hw]
      rfl
    · rw [if_neg (fun h => hw h.2), if_pos hv, if_pos hv, w.dupVectorClock_units]
      rfl
  · rw [if_neg (fun h => hv h.1), if_neg hv, if_neg hv]
    by_cases hw : w.units = []
    · rw [if_pos hw, if_pos hw, v.dupVectorClock_units]
      rfl
    · rw [if_neg hw, if_neg hw]
      exact mergeUnits_units _ _ hv hw

theorem mergeMin_listed (v w : VectorClock) (g : Nat) :
    (v.mergeMin w).listed g = combine Min.min (fun _ => 0) (v.listed g) (w.listed g) := by
  unfold mergeMin
  split_ifs with hv hw
  · rw [listed_of_units_nil hv, clean_listed]
    cases w.listed g <;> rfl
  · rw [listed_of_units_nil hw, clean_listed]
    cases v.listed g <;> rfl
  · exact mergeWith_listed _ _ v w g

/-- Every time is the smaller of the two. -/
theorem mergeMin_time (v w : VectorClock) (g : Nat) :
    (v.mergeMin w).time g = min (v.time g) (w.time g) := by
  unfold time
  rw [mergeMin_listed]
  cases v.listed g <;> cases w.listed g <;> simp [combine]

theorem units_ne_nil_of_listed {g n : Nat} (h : v.listed g = some n) : v.units ≠ [] := by
  intro hnil
  rw [listed_of_units_nil hnil] at h
  cases h

theorem add_units_ne_nil (v : VectorClock) (g : Gid) (t : Int) : (v.add g t).units ≠ [] := by
  refine units_ne_nil_of_listed (g := g) (n := toClock t) ?_
  rw [add_listed, if_pos rfl]

/-! ## The order of clocks -/

/-- Pointwise; a gid that is not listed has the time 0. Two clocks with the same times
may list different gids. -/
instance : Preorder VectorClock where
  le v w := ∀ g, v.time g ≤ w.time g
  le_refl _ _ := le_rfl
  le_trans _ _ _ h h' g := (h g).trans (h' g)

theorem null_le : null ≤ v := by
  intro g
  rw [null_time]
  exact Nat.zero_le _

theorem le_null_iff : v ≤ null ↔ ∀ g, v.time g = 0 := by
  constructor
  · intro h g
    exact Nat.le_zero.1 (h g)
  · intro h g
    exact (h g).le

theorem le_mergeMin_iff {u : VectorClock} : u ≤ v.mergeMin w ↔ u ≤ v ∧ u ≤ w := by
  constructor
  · intro h
    refine ⟨fun g => (h g).trans ?_, fun g => (h g).trans ?_⟩
    · rw [mergeMin_time]
      exact min_le_left _ _
    · rw [mergeMin_time]
      exact min_le_right _ _
  · rintro ⟨hv, hw⟩ g
    rw [mergeMin_time]
    exact le_min (hv g) (hw g)

theorem merge_le {u : VectorClock} (hv : v ≤ u) (hw : w ≤ u) : v.merge w ≤ u := by
  intro g
  rw [merge_time]
  exact max_le (hv g) (hw g)

instance : DecidableLE VectorClock := fun v w =>
  decidable_of_iff (∀ g : Fin 16, v.time g ≤ w.time g) <| by
    constructor
    · intro h g
      rcases Nat.lt_or_ge g 16 with hg | hg
      · exact h ⟨g, hg⟩
      · have hnone : v.listed g = none := by
          cases hl : v.listed g with
          | none => rfl
          | some n => exact absurd (listed_bits hl).2.1 (by omega)
        rw [time, hnone]
        exact Nat.zero_le _
    · intro h g
      exact h g

end VectorClock

end XredisCrdt.Clock
