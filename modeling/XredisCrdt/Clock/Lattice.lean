import XredisCrdt.Clock.VectorClock

/-!
# `vectorClockMerge` and `mergeMinVectorClock` as join and meet

The two functions have one course, `mergeUnits`: a counting pass sets the length of the
result, both arguments are sorted in place, and a merging pass writes the units. On
sorted clocks they are the join and the meet of the order on times.
-/

namespace XredisCrdt.Clock

open Lib.KeyedMerge

/-! ## The counting pass -/

/-- The loops of `count_all_gid_num`, with the bitmap of the gids seen and their
number. -/
def countLoop : Units → Nat × Nat → Nat × Nat
  | [], acc => acc
  | u :: us, (bitmap, num) =>
    if bitmap.testBit u.gid then countLoop us (bitmap, num)
    else countLoop us (bitmap ||| (1 <<< u.gid), num + 1)

/-- The bits that are set are the gids counted. -/
theorem countLoop_dedup (us : Units) (bitmap num : Nat) (seen : List Nat)
    (hseen : ∀ g, bitmap.testBit g = true ↔ g ∈ seen) (hnum : num = seen.dedup.length) :
    (countLoop us (bitmap, num)).2 = (us.map ClockUnit.gid ++ seen).dedup.length := by
  induction us generalizing bitmap num seen with
  | nil => exact hnum
  | cons u us ih =>
    unfold countLoop
    have hperm : (us.map ClockUnit.gid ++ (u.gid :: seen)).Perm
        ((u :: us).map ClockUnit.gid ++ seen) := List.perm_middle
    split
    · rename_i hset
      have hmem : u.gid ∈ seen := (hseen u.gid).1 hset
      rw [ih bitmap num (u.gid :: seen) ?_ ?_, hperm.dedup.length_eq]
      · intro g
        rw [hseen g, List.mem_cons]
        exact ⟨.inr, fun h => h.elim (fun heq => heq ▸ hmem) id⟩
      · rw [List.dedup_cons_of_mem hmem, hnum]
    · rename_i hnot
      have hmem : u.gid ∉ seen := fun h => hnot ((hseen u.gid).2 h)
      rw [ih _ (num + 1) (u.gid :: seen) ?_ ?_, hperm.dedup.length_eq]
      · intro g
        rw [Nat.testBit_or, Bool.or_eq_true, hseen g, List.mem_cons, Nat.one_shiftLeft,
          Nat.testBit_two_pow, decide_eq_true_iff]
        exact ⟨fun h => h.elim .inr fun heq => .inl heq.symm,
          fun h => h.elim (fun heq => .inr heq.symm) .inl⟩
      · rw [List.dedup_cons_of_notMem hmem, List.length_cons, hnum]

/-- `count_all_gid_num` counts the gids of `src`, then those of `dst`. -/
theorem countAllGidNum_eq_loop (dst src : Units) :
    (countLoop (src ++ dst) (0, 0)).2 = countAllGidNum dst src := by
  rw [countLoop_dedup _ 0 0 [] (by simp) rfl, List.append_nil, countAllGidNum]

/-! ## The arguments -/

/-- The two arguments as `vectorClockMerge` or `mergeMinVectorClock` leave them: both are
sorted where they have more than one gid between them. -/
def mergeArguments (a b : Units) : Units × Units :=
  if a ≠ [] ∧ b ≠ [] ∧ 1 < countAllGidNum a b then (sortVectorClock a, sortVectorClock b)
  else (a, b)

theorem sortVectorClock_of_ascending {us : Units} (h : Ascending ClockUnit.gid us) :
    sortVectorClock us = us :=
  ext_ascending (ascending_sort h.distinct) h fun _ => at?_sort h.distinct

theorem mergeArguments_of_ascending {a b : Units} (ha : Ascending ClockUnit.gid a)
    (hb : Ascending ClockUnit.gid b) : mergeArguments a b = (a, b) := by
  unfold mergeArguments
  split
  · rw [sortVectorClock_of_ascending ha, sortVectorClock_of_ascending hb]
  · rfl

namespace VectorClock

variable {u v w : VectorClock}

/-- The units are sorted by gid, as the constructors leave them. -/
def Sorted (v : VectorClock) : Prop := Ascending ClockUnit.gid v.units

instance (v : VectorClock) : Decidable v.Sorted := inferInstanceAs (Decidable (Ascending _ _))

theorem sorted_null : null.Sorted := List.Pairwise.nil

/-! ## The join -/

theorem Sorted.merge (hv : v.Sorted) (hw : w.Sorted) : (v.merge w).Sorted := by
  unfold VectorClock.merge Sorted
  split_ifs
  · exact hw
  · exact hv
  · exact (mergeBy_spec _ _ v w).1

theorem merge_comm (hv : v.Sorted) (hw : w.Sorted) : v.merge w = w.merge v := by
  refine ext_listed (hv.merge hw) (hw.merge hv) fun g => ?_
  rw [merge_listed, merge_listed]
  cases v.listed g <;> cases w.listed g <;> simp [combine, max_comm]

theorem merge_assoc (hu : u.Sorted) (hv : v.Sorted) (hw : w.Sorted) :
    (u.merge v).merge w = u.merge (v.merge w) := by
  refine ext_listed ((hu.merge hv).merge hw) (hu.merge (hv.merge hw)) fun g => ?_
  simp only [merge_listed]
  cases u.listed g <;> cases v.listed g <;> cases w.listed g <;> simp [combine, max_assoc]

theorem merge_self (hv : v.Sorted) : v.merge v = v := by
  refine ext_listed (hv.merge hv) hv fun g => ?_
  rw [merge_listed]
  cases v.listed g <;> simp [combine]

theorem merge_null (v : VectorClock) : v.merge null = v := by
  unfold VectorClock.merge
  split
  · rename_i hnil
    cases v
    cases hnil
    rfl
  · rfl

theorem null_merge (v : VectorClock) : null.merge v = v := rfl

/-- For sorted clocks the result is sorted, lists the gids of both with the larger of the
two times, and the arguments stay as they are. As a function of clocks it is commutative,
associative and idempotent, and null is its unit. -/
theorem vectorClockMerge_join (hu : u.Sorted) (hv : v.Sorted) (hw : w.Sorted) :
    (∃ r : VectorClock, vectorClockMerge v.units w.units = some r.units ∧ r.Sorted ∧
      (∀ g, (r.listed g).isSome ↔ (v.listed g).isSome ∨ (w.listed g).isSome) ∧
      ∀ g, r.time g = max (v.time g) (w.time g)) ∧
    mergeArguments v.units w.units = (v.units, w.units) ∧
    vectorClockMerge v.units w.units = vectorClockMerge w.units v.units ∧
    (vectorClockMerge u.units v.units).bind (vectorClockMerge · w.units) =
      (vectorClockMerge v.units w.units).bind (vectorClockMerge u.units) ∧
    vectorClockMerge v.units v.units = some v.units ∧
    vectorClockMerge v.units [] = some v.units ∧ vectorClockMerge [] v.units = some v.units := by
  refine ⟨⟨v.merge w, vectorClockMerge_units v w, hv.merge hw, ?_, merge_time v w⟩,
    mergeArguments_of_ascending hv hw, ?_, ?_, ?_, ?_, ?_⟩
  · intro g
    rw [merge_listed]
    cases v.listed g <;> cases w.listed g <;> simp [combine]
  · rw [vectorClockMerge_units, vectorClockMerge_units, merge_comm hv hw]
  · rw [vectorClockMerge_units, vectorClockMerge_units, Option.bind_some, Option.bind_some,
      vectorClockMerge_units, vectorClockMerge_units, merge_assoc hu hv hw]
  · rw [vectorClockMerge_units, merge_self hv]
  · exact (vectorClockMerge_units v null).trans (by rw [merge_null])
  · exact (vectorClockMerge_units null v).trans (by rw [null_merge])

/-- The clocks `1:5;3:2` and `2:1;3:7`, and one unit. -/
theorem vectorClockMerge_join_overlap :
    vectorClockMerge [⟨1, 5⟩, ⟨3, 2⟩] [⟨2, 1⟩, ⟨3, 7⟩] = some [⟨1, 5⟩, ⟨2, 1⟩, ⟨3, 7⟩] ∧
      vectorClockMerge [⟨1, 5⟩, ⟨3, 2⟩] [⟨2, 1⟩, ⟨3, 7⟩] =
        vectorClockMerge [⟨2, 1⟩, ⟨3, 7⟩] [⟨1, 5⟩, ⟨3, 2⟩] := by
  refine ⟨by decide, ?_⟩
  exact (vectorClockMerge_join (u := null) (v := ⟨[⟨1, 5⟩, ⟨3, 2⟩], by decide, by decide⟩)
    (w := ⟨[⟨2, 1⟩, ⟨3, 7⟩], by decide, by decide⟩) sorted_null (by decide) (by decide)).2.2.1

/-! ## The meet -/

theorem Sorted.clean (hv : v.Sorted) : v.clean.Sorted := by
  have h : (v.units.map fun u => ({ u with clock := 0 } : ClockUnit)).Pairwise
      fun a b => a.gid < b.gid := by
    rw [List.pairwise_map]
    exact hv
  exact h

theorem Sorted.mergeMin (hv : v.Sorted) (hw : w.Sorted) : (v.mergeMin w).Sorted := by
  unfold VectorClock.mergeMin
  split_ifs
  · exact hw.clean
  · exact hv.clean
  · exact (mergeBy_spec _ _ v w).1

theorem mergeMin_comm (hv : v.Sorted) (hw : w.Sorted) : v.mergeMin w = w.mergeMin v := by
  refine ext_listed (hv.mergeMin hw) (hw.mergeMin hv) fun g => ?_
  rw [mergeMin_listed, mergeMin_listed]
  cases v.listed g <;> cases w.listed g <;> simp [combine, min_comm]

/-- A gid that one of the clocks does not list is at 0 on both sides. -/
theorem mergeMin_assoc (hu : u.Sorted) (hv : v.Sorted) (hw : w.Sorted) :
    (u.mergeMin v).mergeMin w = u.mergeMin (v.mergeMin w) := by
  refine ext_listed ((hu.mergeMin hv).mergeMin hw) (hu.mergeMin (hv.mergeMin hw)) fun g => ?_
  simp only [mergeMin_listed]
  cases u.listed g <;> cases v.listed g <;> cases w.listed g <;> simp [combine, min_assoc]

theorem mergeMin_self (hv : v.Sorted) : v.mergeMin v = v := by
  refine ext_listed (hv.mergeMin hv) hv fun g => ?_
  rw [mergeMin_listed]
  cases v.listed g <;> simp [combine]

end VectorClock

end XredisCrdt.Clock
