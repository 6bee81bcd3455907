import XredisCrdt.Clock.Lattice

/-!
# The causal test, the difference and single gids of clocks

`isVectorClockMonoIncr` is meant to decide the order on times, `v ≤ w`. It refuses null
clocks and a first clock that is longer than the second, where the order does neither.
`purgeVectorClock` is the difference that goes with `vectorClockMerge`; `mergeLogicClock`
and `updateProcessVectorClock` carry over one gid.
-/

namespace XredisCrdt.Clock

open Lib.KeyedMerge List Option

/-! ## The source -/

/-- The loop of `isVectorClockMonoIncr`: one unit of `current` against `future`. -/
def notBehind (future : Units) (u : ClockUnit) : Bool :=
  match getClockUnit future u.gid with
  | none => u.clock == 0
  | some w => u.clock ≤ w.clock

def isVectorClockMonoIncr (current future : Units) : Bool :=
  if current = [] ∨ future = [] then false
  else if future.length < current.length then false
  else current.all (notBehind future)

/-- A null clock for a gid that is not listed. -/
def getMonoVectorClock (src : Units) (gid : Nat) : Option Units :=
  match getClockUnit src gid with
  | none => some []
  | some u => store 1 [u]

/-- The loop of `purgeVectorClock` takes over the units that `src` is behind of; the test
is the one of `isVectorClockMonoIncr`. -/
def purgeVectorClock (targe src : Units) : Option Units :=
  if targe = [] then some targe
  else if src = [] then some targe
  else
    let c := targe.filter fun u => !notBehind src u
    (store c.length c).map sortVectorClock

namespace VectorClock

variable {u v w : VectorClock}

/-! ## The causal test -/

theorem notBehind_iff {x : ClockUnit} : notBehind w.units x = true ↔ x.clock ≤ w.time x.gid := by
  unfold notBehind time listed
  cases getClockUnit w.units x.gid <;> simp

theorem time_of_mem {x : ClockUnit} (h : x ∈ v.units) : v.listed x.gid = some x.clock := by
  have hget : getClockUnit v.units x.gid = some x := (at?_eq_some v.distinct).2 ⟨h, rfl⟩
  rw [listed, hget]
  rfl

/-- The loop decides the order. -/
theorem all_notBehind_iff : v.units.all (notBehind w.units) = true ↔ v ≤ w := by
  rw [List.all_eq_true]
  constructor
  · intro h g
    cases hg : v.listed g with
    | none =>
      rw [time, hg]
      exact Nat.zero_le _
    | some n =>
      have hmem : (⟨g, n⟩ : ClockUnit) ∈ v.units := at?_mem (getClockUnit_eq_some_of_listed hg)
      rw [time, hg]
      exact notBehind_iff.1 (h _ hmem)
  · intro h x hx
    apply notBehind_iff.2
    have hle := h x.gid
    rw [time, time_of_mem hx] at hle
    exact hle

theorem mono_iff : isVectorClockMonoIncr v.units w.units = true ↔
    (v.units ≠ [] ∧ w.units ≠ [] ∧ v.units.length ≤ w.units.length) ∧ v ≤ w := by
  unfold isVectorClockMonoIncr
  split_ifs with hnull hlen
  · simp only [false_iff]
    rintro ⟨⟨hv, hw, -⟩, -⟩
    exact hnull.elim hv hw
  · simp only [false_iff]
    rintro ⟨⟨-, -, hle⟩, -⟩
    omega
  · rw [all_notBehind_iff]
    obtain ⟨hv, hw⟩ := not_or.1 hnull
    exact ⟨fun h => ⟨⟨hv, hw, not_lt.1 hlen⟩, h⟩, fun h => h.2⟩

theorem listed_isSome_iff {g : Nat} : (v.listed g).isSome ↔ g ∈ v.units.map ClockUnit.gid := by
  rw [Lib.KeyedMerge.mem_keys, listed, isSome_map, isSome_iff_ne_none]
  rfl

theorem subperm_gids (h : ∀ g, (v.listed g).isSome → (w.listed g).isSome) :
    (v.units.map ClockUnit.gid).Subperm (w.units.map ClockUnit.gid) := by
  apply subperm_of_subset v.distinct
  intro g hg
  exact listed_isSome_iff.1 (h g (listed_isSome_iff.2 hg))

theorem length_le_of_listed (h : ∀ g, (v.listed g).isSome → (w.listed g).isSome) :
    v.units.length ≤ w.units.length := by
  have hle := (subperm_gids h).length_le
  rwa [length_map, length_map] at hle

/-- A clock that lists the gids of another and is no longer lists no others. -/
theorem listed_of_length_le (h : ∀ g, (v.listed g).isSome → (w.listed g).isSome)
    (hlen : w.units.length ≤ v.units.length) {g : Nat} (hg : (w.listed g).isSome) :
    (v.listed g).isSome := by
  have hperm := (subperm_gids h).perm_of_length_le (by rwa [length_map, length_map])
  exact listed_isSome_iff.2 (hperm.mem_iff.2 (listed_isSome_iff.1 hg))

theorem units_eq_nil_iff : v.units = [] ↔ ∀ g, v.listed g = none := by
  refine ⟨listed_of_units_nil, fun h => ?_⟩
  cases hu : v.units with
  | nil => rfl
  | cons x us =>
    have hx := time_of_mem (v := v) (x := x) (by simp [hu])
    rw [h] at hx
    cases hx

theorem merge_listed_isSome {g : Nat} :
    ((v.merge w).listed g).isSome ↔ (v.listed g).isSome ∨ (w.listed g).isSome := by
  rw [merge_listed]
  cases v.listed g <;> cases w.listed g <;> simp [combine]

theorem mergeMin_listed_isSome {g : Nat} :
    ((v.mergeMin w).listed g).isSome ↔ (v.listed g).isSome ∨ (w.listed g).isSome := by
  rw [mergeMin_listed]
  cases v.listed g <;> cases w.listed g <;> simp [combine]

theorem mono_self_iff : isVectorClockMonoIncr v.units v.units = true ↔ v.units ≠ [] := by
  rw [mono_iff]
  exact ⟨fun h => h.1.1, fun h => ⟨⟨h, h, le_rfl⟩, le_rfl⟩⟩

theorem mono_trans (huv : isVectorClockMonoIncr u.units v.units = true)
    (hvw : isVectorClockMonoIncr v.units w.units = true) :
    isVectorClockMonoIncr u.units w.units = true := by
  obtain ⟨⟨hu, -, hlen⟩, hle⟩ := mono_iff.1 huv
  obtain ⟨⟨-, hw, hlen'⟩, hle'⟩ := mono_iff.1 hvw
  exact mono_iff.2 ⟨⟨hu, hw, hlen.trans hlen'⟩, hle.trans hle'⟩

theorem mono_merge_iff : isVectorClockMonoIncr v.units (v.merge w).units = true ↔ v.units ≠ [] := by
  rw [mono_iff]
  refine ⟨fun h => h.1.1, fun hv => ⟨⟨hv, ?_, ?_⟩, ?_⟩⟩
  · intro hnil
    apply hv
    rw [units_eq_nil_iff] at hnil ⊢
    intro g
    have hg := (merge_listed_isSome (v := v) (w := w) (g := g)).not
    rw [hnil g] at hg
    simpa using (not_or.1 (hg.1 (by simp))).1
  · exact length_le_of_listed fun g hg => merge_listed_isSome.2 (.inl hg)
  · intro g
    rw [merge_time]
    exact le_max_left _ _

/-- The minimum lists the gids of both clocks, so it is longer than a clock that lacks one
of them. -/
theorem mono_mergeMin_iff : isVectorClockMonoIncr (v.mergeMin w).units v.units = true ↔
    v.units ≠ [] ∧ ∀ g, (w.listed g).isSome → (v.listed g).isSome := by
  have hsub : ∀ g, (v.listed g).isSome → ((v.mergeMin w).listed g).isSome := fun g hg =>
    mergeMin_listed_isSome.2 (.inl hg)
  rw [mono_iff]
  constructor
  · rintro ⟨⟨-, hv, hlen⟩, -⟩
    refine ⟨hv, fun g hg => ?_⟩
    exact listed_of_length_le hsub hlen (mergeMin_listed_isSome.2 (.inr hg))
  · rintro ⟨hv, hw⟩
    refine ⟨⟨?_, hv, ?_⟩, (le_mergeMin_iff.1 le_rfl).1⟩
    · intro hnil
      have hle := length_le_of_listed hsub
      rw [hnil, length_nil, Nat.le_zero, length_eq_zero_iff] at hle
      exact hv hle
    · exact length_le_of_listed fun g hg => (mergeMin_listed_isSome.1 hg).elim id (hw g)

/-- What the documented order asks of the test on three clocks. -/
structure DecidesOrder (a b c : VectorClock) : Prop where
  decides : isVectorClockMonoIncr a.units b.units = true ↔ a ≤ b
  refl : isVectorClockMonoIncr a.units a.units = true
  trans : isVectorClockMonoIncr a.units b.units = true →
    isVectorClockMonoIncr b.units c.units = true → isVectorClockMonoIncr a.units c.units = true
  min : ∃ r, mergeMinVectorClock a.units b.units = some r ∧ isVectorClockMonoIncr r a.units = true
  max : ∃ r, vectorClockMerge a.units b.units = some r ∧ isVectorClockMonoIncr a.units r = true

/-- The test is the order where no shortcut answers in its place: `a` is not null and lists
every gid of `b`, and where `a ≤ b` the clock `b` is not null and lists as many. -/
theorem isVectorClockMonoIncr_decidesOrder_iff (a b c : VectorClock) : DecidesOrder a b c ↔
      a.units ≠ [] ∧ (∀ g, (b.listed g).isSome → (a.listed g).isSome) ∧
        (a ≤ b → b.units ≠ [] ∧ a.units.length ≤ b.units.length) := by
  constructor
  · intro h
    obtain ⟨r, hr, hmin⟩ := h.min
    rw [mergeMinVectorClock_units, some_inj] at hr
    rw [← hr, mono_mergeMin_iff] at hmin
    exact ⟨hmin.1, hmin.2, fun hle => (mono_iff.1 (h.decides.2 hle)).1.2⟩
  · rintro ⟨ha, hgids, hlen⟩
    refine ⟨?_, mono_self_iff.2 ha, mono_trans, ?_, ?_⟩
    · rw [mono_iff]
      exact ⟨fun h => h.2, fun hle => ⟨⟨ha, hlen hle⟩, hle⟩⟩
    · exact ⟨_, mergeMinVectorClock_units a b, mono_mergeMin_iff.2 ⟨ha, hgids⟩⟩
    · exact ⟨_, vectorClockMerge_units a b, mono_merge_iff.2 ha⟩

/-- `1:1;2:0` is below `1:1`, and the null clock is below itself. -/
theorem isVectorClockMonoIncr_shortcuts :
    ((⟨[⟨1, 1⟩, ⟨2, 0⟩], by decide, by decide⟩ : VectorClock) ≤
        ⟨[⟨1, 1⟩], by decide, by decide⟩ ∧
      isVectorClockMonoIncr [⟨1, 1⟩, ⟨2, 0⟩] [⟨1, 1⟩] = false) ∧
    ¬ ∀ a b c : VectorClock, DecidesOrder a b c := by
  refine ⟨⟨all_notBehind_iff.1 (by decide), by decide⟩, ?_⟩
  intro h
  have hnull := (h null null null).refl
  exact absurd hnull (by decide)

/-! ## The difference -/

theorem filter_distinct (v : VectorClock) (p : ClockUnit → Bool) :
    Distinct ClockUnit.gid (v.units.filter p) :=
  v.distinct.sublist (filter_sublist.map _)

/-- `purgeVectorClock` on a second clock that is not null. -/
def purge (v w : VectorClock) : VectorClock where
  units := sortVectorClock (v.units.filter fun u => !notBehind w.units u)
  distinct := (filter_distinct v _).perm (sort_perm _)
  bits := by
    intro u hu
    exact v.bits u (mem_of_mem_filter ((sort_perm _).mem_iff.1 hu))

theorem purge_sorted (v w : VectorClock) : (v.purge w).Sorted :=
  ascending_sort (filter_distinct v _)

theorem purgeVectorClock_units (hw : w.units ≠ []) :
    purgeVectorClock v.units w.units = some (v.purge w).units := by
  unfold purgeVectorClock
  split_ifs with hv
  · simp [purge, hv, sortVectorClock, sort]
  · have hperm : (v.purge w).units.Perm (v.units.filter fun u => !notBehind w.units u) :=
      sort_perm _
    have hlen := (v.purge w).length_lt
    rw [hperm.length_eq] at hlen
    have hstore : store (v.units.filter fun u => !notBehind w.units u).length
        (v.units.filter fun u => !notBehind w.units u) =
        some (v.units.filter fun u => !notBehind w.units u) :=
      if_pos ⟨hlen, rfl, fun u hu => ((v.purge w).bits u (hperm.mem_iff.2 hu)).1⟩
    dsimp only
    rw [hstore]
    rfl

theorem mem_purge {x : ClockUnit} :
    x ∈ (v.purge w).units ↔ x ∈ v.units ∧ w.time x.gid < x.clock := by
  have hperm : (v.purge w).units.Perm (v.units.filter fun u => !notBehind w.units u) := sort_perm _
  rw [hperm.mem_iff, mem_filter, Bool.not_eq_true', ← Bool.not_eq_true, notBehind_iff, not_le]

theorem mem_units_iff {g n : Nat} : (⟨g, n⟩ : ClockUnit) ∈ v.units ↔ v.listed g = some n :=
  ⟨time_of_mem (x := ⟨g, n⟩), fun h => at?_mem (getClockUnit_eq_some_of_listed h)⟩

theorem purge_listed (g : Nat) :
    (v.purge w).listed g = (v.listed g).filter fun n => w.time g < n := by
  apply Option.ext
  intro n
  rw [← mem_units_iff, mem_purge, filter_eq_some_iff, mem_units_iff, decide_eq_true_iff]

theorem purge_time (g : Nat) :
    (v.purge w).time g = if w.time g < v.time g then v.time g else 0 := by
  have hg := purge_listed (v := v) (w := w) g
  rw [time, hg]
  unfold time
  cases hv : v.listed g with
  | none => simp
  | some n => by_cases h : (w.listed g).getD 0 < n <;> simp [Option.filter, h]

theorem merge_purge_time (g : Nat) : ((v.purge w).merge w).time g = (v.merge w).time g := by
  rw [merge_time, merge_time, purge_time]
  split_ifs <;> omega

theorem purge_units_eq_nil_iff : (v.purge w).units = [] ↔ v ≤ w := by
  rw [units_eq_nil_iff]
  constructor
  · intro h g
    have hg := h g
    rw [purge_listed] at hg
    by_contra hlt
    rw [not_le] at hlt
    cases hv : v.listed g with
    | none => simp [time, hv] at hlt
    | some n =>
      have htime : v.time g = n := by rw [time, hv]; rfl
      rw [htime] at hlt
      simp [hv, Option.filter, hlt] at hg
  · intro h g
    rw [purge_listed, filter_eq_none_iff]
    intro n hn
    have hle := h g
    rw [time, hn] at hle
    simpa using hle

theorem purge_purge : (v.purge w).purge w = v.purge w := by
  apply ext_listed (purge_sorted _ _) (purge_sorted _ _)
  intro g
  rw [purge_listed, purge_listed]
  cases v.listed g with
  | none => rfl
  | some n => by_cases h : w.time g < n <;> simp [Option.filter, h]

/-- With a second clock that is not null the result is sorted and holds the units of `t`
above `s`. The join with `s` gets the times of the join of `t` and `s`, the result is null
only for `t ≤ s`, and a second pass changes nothing. A null argument leaves `t`. -/
theorem purgeVectorClock_difference (t s : VectorClock) :
    (s.units ≠ [] → ∃ r : VectorClock, purgeVectorClock t.units s.units = some r.units ∧
      r.Sorted ∧ (∀ x, x ∈ r.units ↔ x ∈ t.units ∧ s.time x.gid < x.clock) ∧
      (∃ m m' : VectorClock, vectorClockMerge r.units s.units = some m.units ∧
        vectorClockMerge t.units s.units = some m'.units ∧ ∀ g, m.time g = m'.time g) ∧
      (r = null ↔ t ≤ s) ∧ purgeVectorClock r.units s.units = some r.units) ∧
    (s.units = [] ∨ t.units = [] → purgeVectorClock t.units s.units = some t.units) := by
  constructor
  · intro hs
    refine ⟨t.purge s, purgeVectorClock_units hs, purge_sorted t s, fun x => mem_purge,
      ⟨_, _, vectorClockMerge_units _ _, vectorClockMerge_units _ _, fun g => merge_purge_time g⟩,
      ?_, ?_⟩
    · rw [← purge_units_eq_nil_iff]
      refine ⟨fun h => by rw [h]; rfl, fun h => ?_⟩
      exact ext_listed (purge_sorted t s) sorted_null (units_eq_nil_iff.1 h)
    · rw [purgeVectorClock_units hs, purge_purge]
  · intro h
    unfold purgeVectorClock
    split_ifs with ht hs
    · rfl
    · rfl
    · exact (h.elim hs ht).elim

/-- `1:5;2:0;3:2` without `1:3;3:2` is `1:5`. -/
theorem purgeVectorClock_difference_behind :
    purgeVectorClock [⟨1, 5⟩, ⟨2, 0⟩, ⟨3, 2⟩] [⟨1, 3⟩, ⟨3, 2⟩] = some [⟨1, 5⟩] ∧
      ∃ r : VectorClock, purgeVectorClock [⟨1, 5⟩, ⟨2, 0⟩, ⟨3, 2⟩] [⟨1, 3⟩, ⟨3, 2⟩] = some r.units ∧
        r.Sorted := by
  obtain ⟨r, hr, hsorted, -⟩ :=
    (purgeVectorClock_difference ⟨[⟨1, 5⟩, ⟨2, 0⟩, ⟨3, 2⟩], by decide, by decide⟩
      ⟨[⟨1, 3⟩, ⟨3, 2⟩], by decide, by decide⟩).1 (by decide)
  exact ⟨by decide, r, hr, hsorted⟩

/-! ## Single gids -/

/-- `getMonoVectorClock`. -/
def mono (v : VectorClock) (g : Nat) : VectorClock where
  units := (getClockUnit v.units g).toList
  distinct := by cases getClockUnit v.units g <;> simp [Distinct]
  bits := by
    intro u hu
    exact v.bits u (at?_mem (mem_toList.1 hu))

theorem mono_units (v : VectorClock) (g : Nat) :
    (v.mono g).units = (getClockUnit v.units g).toList := rfl

theorem getMonoVectorClock_units (v : VectorClock) (g : Nat) :
    getMonoVectorClock v.units g = some (v.mono g).units := by
  rw [getMonoVectorClock, mono_units]
  cases hu : getClockUnit v.units g with
  | none => rfl
  | some u =>
    have hpos := (v.bits u (at?_mem hu)).1
    simp [store, hpos]

theorem mono_sorted (v : VectorClock) (g : Nat) : (v.mono g).Sorted := by
  rw [Sorted, mono_units, Ascending]
  cases getClockUnit v.units g <;> simp

theorem mono_listed (v : VectorClock) (g k : Nat) :
    (v.mono g).listed k = if k = g then v.listed k else none := by
  unfold listed
  rw [mono_units]
  cases hu : getClockUnit v.units g with
  | none =>
    split_ifs with hk
    · rw [hk, hu]
      rfl
    · rfl
  | some u =>
    have hkey : u.gid = g := at?_key hu
    have hget : getClockUnit [u] k = if u.gid = k then some u else none := at?_cons
    rw [toList_some, hget, hkey]
    split_ifs with hgk hkg hkg
    · rw [hkg, hu]
    · exact absurd hgk.symm hkg
    · exact absurd hkg.symm hgk
    · rfl

theorem mergeAt_listed (dst src : VectorClock) (g k : Nat) : (dst.mergeAt src g .max).listed k =
      if k = g then combine Max.max id (dst.listed k) (src.listed k) else dst.listed k := by
  split_ifs with hk
  · subst hk
    cases hs : src.listed k with
    | none =>
      rw [mergeAt_of_not_listed _ hs]
      cases dst.listed k <;> rfl
    | some t =>
      rw [mergeAt_listed_self _ hs]
      cases dst.listed k with
      | none =>
        show some (((max t t : Nat) : Int).toNat) = some t
        rw [Int.toNat_natCast, max_self]
      | some d =>
        show some (((max t d : Nat) : Int).toNat) = some (max d t)
        rw [Int.toNat_natCast, max_comm]
  · exact mergeAt_listed_ne _ hk

theorem setTime_sorted (hv : v.Sorted) (g : Nat) (f : Nat → Int) : (v.setTime g f).Sorted := by
  have hmap : (v.setTime g f).units.map ClockUnit.gid = v.units.map ClockUnit.gid :=
    setLogicClock_gids g f v.units
  have h : ((v.setTime g f).units.map ClockUnit.gid).Pairwise (· < ·) := by
    rw [hmap]
    exact pairwise_map.2 hv
  exact pairwise_map.1 h

theorem append_sorted (g : Gid) (t : Int) (h : v.listed g = none) : (v.append g t h).Sorted :=
  ascending_sort ((v.append g t h).distinct.perm (sort_perm _).symm)

theorem Sorted.mergeAt (hv : v.Sorted) (src : VectorClock) (g : Nat) (flag : MergeFlag) :
    (v.mergeAt src g flag).Sorted := by
  unfold VectorClock.mergeAt
  split_ifs with hs hd
  · exact hv
  · exact append_sorted _ _ _
  · exact setTime_sorted hv g _

theorem mergeAt_eq_merge_mono (hv : v.Sorted) (src : VectorClock) (g : Nat) :
    v.mergeAt src g .max = v.merge (src.mono g) := by
  apply ext_listed (hv.mergeAt src g .max) (hv.merge (mono_sorted src g))
  intro k
  rw [mergeAt_listed, merge_listed, mono_listed]
  split_ifs
  · rfl
  · cases v.listed k <;> rfl

/-- `mergeLogicClock` for one gid after the other. -/
theorem foldlM_mergeLogicClock (dst src : VectorClock) (gs : List Nat) :
    gs.foldlM (fun d g => mergeLogicClock d src.units g) dst.units =
      some (gs.foldl (fun d g => d.mergeAt src g .max) dst).units := by
  induction gs generalizing dst with
  | nil => rfl
  | cons g gs ih =>
    rw [foldlM_cons, foldl_cons]
    show (mergeLogicClock dst.units src.units g).bind _ = _
    rw [mergeLogicClock, commonMergeFunction_units]
    exact ih _

theorem foldl_mergeAt_sorted (hv : v.Sorted) (src : VectorClock) (gs : List Nat) :
    (gs.foldl (fun d g => d.mergeAt src g .max) v).Sorted := by
  induction gs generalizing v with
  | nil => exact hv
  | cons g gs ih => exact ih (hv.mergeAt src g .max)

/-- The gids walked have taken over the larger time, whatever the order; those met again
stay as they are. -/
theorem foldl_mergeAt_listed (dst src : VectorClock) (gs : List Nat) (k : Nat) :
    (gs.foldl (fun d g => d.mergeAt src g .max) dst).listed k =
      if k ∈ gs then combine Max.max id (dst.listed k) (src.listed k) else dst.listed k := by
  induction gs generalizing dst with
  | nil => rfl
  | cons g gs ih =>
    rw [foldl_cons, ih, mergeAt_listed]
    by_cases hk : k = g
    · subst hk
      rw [if_pos rfl, if_pos mem_cons_self]
      split_ifs
      · cases dst.listed k <;> cases src.listed k <;> simp [combine]
      · rfl
    · simp only [mem_cons, hk, false_or, if_false]

theorem foldl_mergeAt (hv : v.Sorted) (hw : w.Sorted) {gs : List Nat}
    (hgs : ∀ g, (w.listed g).isSome → g ∈ gs) :
    gs.foldl (fun d g => d.mergeAt w g .max) v = v.merge w := by
  apply ext_listed (foldl_mergeAt_sorted hv w gs) (hv.merge hw)
  intro k
  rw [foldl_mergeAt_listed, merge_listed]
  split_ifs with hk
  · rfl
  · have hnone : w.listed k = none := by
      by_contra h
      exact hk (hgs k (isSome_iff_ne_none.2 h))
    rw [hnone]
    cases v.listed k <;> rfl

/-- `mergeLogicClock` takes the larger time at one gid and is the join with the clock of
that gid alone; gid by gid, in any order, it is the join. `updateProcessVectorClock` does
the same for the gid of another site and takes over the time of its own. -/
theorem mergeLogicClock_single {dst src : VectorClock} (hd : dst.Sorted) (hs : src.Sorted)
    (g : Gid) :
    (∃ r : VectorClock, mergeLogicClock dst.units src.units g = some r.units ∧ r.Sorted ∧
      r.time g = max (dst.time g) (src.time g) ∧ (∀ k : Nat, k ≠ g → r.listed k = dst.listed k) ∧
      (src.listed g = none → r = dst) ∧
      (getMonoVectorClock src.units g).bind (vectorClockMerge dst.units) = some r.units) ∧
    (∀ currentGid, (g : Nat) ≠ currentGid →
      updateProcessVectorClock dst.units src.units g currentGid =
        mergeLogicClock dst.units src.units g) ∧
    (∃ r : VectorClock, updateProcessVectorClock dst.units src.units g g = some r.units ∧
      r.Sorted ∧ (∀ k : Nat, k ≠ g → r.listed k = dst.listed k) ∧ (src.listed g = none → r = dst) ∧
      ((src.listed g).isSome → r.listed g = src.listed g)) ∧
    ∀ gs : List Nat, (∀ k, (src.listed k).isSome → k ∈ gs) →
      gs.foldlM (fun d k => mergeLogicClock d src.units k) dst.units =
        vectorClockMerge dst.units src.units := by
  refine ⟨?_, ?_, ?_, ?_⟩
  · refine ⟨dst.mergeAt src g .max, commonMergeFunction_units _ _ _ _, hd.mergeAt _ _ _, ?_,
      fun k hk => mergeAt_listed_ne _ hk, mergeAt_of_not_listed _, ?_⟩
    · rw [mergeAt_eq_merge_mono hd, merge_time]
      congr 1
      rw [time, mono_listed, if_pos rfl, ← time]
    · rw [getMonoVectorClock_units, bind_some, vectorClockMerge_units, mergeAt_eq_merge_mono hd]
  · intro currentGid hne
    unfold updateProcessVectorClock mergeLogicClock
    rw [if_neg hne]
  · refine ⟨dst.mergeAt src g .align, ?_, hd.mergeAt _ _ _, fun k hk => mergeAt_listed_ne _ hk,
      mergeAt_of_not_listed _, ?_⟩
    · unfold updateProcessVectorClock
      rw [if_pos rfl]
      exact commonMergeFunction_units _ _ _ _
    · intro hlisted
      obtain ⟨t, ht⟩ := isSome_iff_exists.1 hlisted
      rw [mergeAt_listed_self _ ht, ht]
      rfl
  · intro gs hgs
    rw [foldlM_mergeLogicClock, foldl_mergeAt hd hs hgs, vectorClockMerge_units]

/-- `1:5` takes over gid 3 of `1:9;3:2`, then its other gids. -/
theorem mergeLogicClock_single_insert :
    mergeLogicClock [⟨1, 5⟩] [⟨1, 9⟩, ⟨3, 2⟩] 3 = some [⟨1, 5⟩, ⟨3, 2⟩] ∧
      [3, 2, 1].foldlM (fun d k => mergeLogicClock d [⟨1, 9⟩, ⟨3, 2⟩] k) [⟨1, 5⟩] =
        vectorClockMerge [⟨1, 5⟩] [⟨1, 9⟩, ⟨3, 2⟩] := by
  refine ⟨by decide, ?_⟩
  refine (@mergeLogicClock_single ⟨[⟨1, 5⟩], by decide, by decide⟩
    ⟨[⟨1, 9⟩, ⟨3, 2⟩], by decide, by decide⟩ (by decide) (by decide)
    ⟨3, by decide⟩).2.2.2 [3, 2, 1] ?_
  intro k hk
  have hmem := listed_isSome_iff.1 hk
  simp only [map_cons, map_nil, mem_cons, not_mem_nil, or_false] at hmem ⊢
  omega

end VectorClock

end XredisCrdt.Clock
