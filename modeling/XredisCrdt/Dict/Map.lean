import XredisCrdt.Dict.Table
import XredisCrdt.Lib.System

/-!
# A dictionary is a finite map

`dict_is_map`: after any operations, whatever is left to rehash and whatever limits the
growth, a dictionary has the entries of a finite map, each once, and a new key can be added.

An entry takes 24 bytes of an address space whose half belongs to the kernel; `zmalloc` ends
the process when there is no room. The bytes of a table are computed as `realsize *
sizeof(dictEntry*)`, and nothing looks at the overflow: `expand_overflows` is a call of
`dictExpand` after which the table has no memory for its buckets.
-/

namespace XredisCrdt.Hash

open Dictht Dict Function List Option

variable {K V : Type} {hash : K → BitVec 64}

/-! ## Growth -/

theorem le_nextPowerLoop {size fuel k : Nat} (h : size ≤ 2 ^ (k + fuel)) :
    size ≤ nextPowerLoop size fuel (2 ^ k) := by
  induction fuel generalizing k with
  | zero => exact h
  | succ fuel ih =>
    rw [nextPowerLoop]
    split
    · assumption
    · rw [← Nat.pow_succ]
      exact ih (by rwa [Nat.succ_add_eq_add_succ])

theorem nextPowerLoop_le {size n fuel k : Nat} (hk : k ≤ n) (h : size ≤ 2 ^ n) :
    nextPowerLoop size fuel (2 ^ k) ≤ 2 ^ n := by
  induction fuel generalizing k with
  | zero => exact Nat.pow_le_pow_right (by decide) hk
  | succ fuel ih =>
    rw [nextPowerLoop]
    split
    · exact Nat.pow_le_pow_right (by decide) hk
    · next hlt =>
      rw [← Nat.pow_succ]
      have hne : k ≠ n := by
        rintro rfl
        exact hlt h
      exact ih (by omega)

/-- The next power of a size that is not too large. -/
theorem dictNextPower_bounds {size : Nat} (h : size ≤ 2 ^ 60) :
    size ≤ dictNextPower size ∧ dictNextPower size ≤ 2 ^ 60 := by
  rw [dictNextPower, if_neg (by omega)]
  exact ⟨le_nextPowerLoop (k := 2) (by omega), nextPowerLoop_le (k := 2) (by decide) h⟩

/-- There is room for the bytes of one more entry. -/
def Dict.fits (d : Dict K V) : Bool := 24 * (d.dictSize + 1) < 2 ^ 63

theorem Keeps.dictSize {d d' : Dict K V} (h : d.Ok hash) (hk : Keeps hash d d') :
    d'.dictSize = d.dictSize := by
  have hlen := hk.perm.length_eq
  simp only [Dict.entries, length_append] at hlen
  rw [Dict.dictSize, Dict.dictSize, hk.ok.ht0.used, hk.ok.ht1.used, h.ht0.used, h.ht1.used, hlen]

theorem maxSize_dictExpand {d d' : Dict K V} {size : Nat} (h : dictExpand d size = some d') :
    d'.maxSize ≤ max d.maxSize (dictNextPower size) := by
  unfold dictExpand at h
  obtain ⟨-, h⟩ := ite_none_left_eq_some.1 h
  obtain ⟨-, h⟩ := ite_none_left_eq_some.1 h
  unfold Dict.maxSize Dictht.size
  split at h
  · cases h
    simp only [length_replicate]
    omega
  · cases h
    simp only [length_replicate]
    omega

/-- A table of another size that holds the entries can be made. -/
theorem exists_dictExpand {d : Dict K V} {size : Nat} (hidle : d.isRehashing = false)
    (hused : d.ht0.used ≤ size) (hne : dictNextPower size ≠ d.ht0.size) :
    ∃ d', dictExpand d size = some d' := by
  unfold dictExpand
  rw [if_neg (by simp [hidle, hused]), if_neg hne]
  split
  · exact ⟨_, rfl⟩
  · exact ⟨_, rfl⟩

/-- No limit makes the growth fail. -/
theorem exists_dictExpandIfNeeded {d : Dict K V} (h : d.Ok hash) (hfits : d.fits = true)
    (cfg : Settings) (canResize : Bool) : ∃ d', dictExpandIfNeeded cfg canResize d = some d' ∧
      d'.maxSize ≤ max d.maxSize (2 ^ 60) := by
  have hsmall : d.ht0.used < 2 ^ 59 := by
    have hbytes : 24 * (d.dictSize + 1) < 2 ^ 63 := of_decide_eq_true hfits
    unfold Dict.dictSize at hbytes
    omega
  -- whatever size is asked for, it is at most 2 ^ 60
  have hexpand : ∀ size, size ≤ 2 ^ 60 → d.isRehashing = false → d.ht0.used ≤ size →
      dictNextPower size ≠ d.ht0.size →
      ∃ d', dictExpand d size = some d' ∧ d'.maxSize ≤ max d.maxSize (2 ^ 60) := by
    intro size hsize hidle hused hne
    obtain ⟨d', hd'⟩ := exists_dictExpand hidle hused hne
    refine ⟨d', hd', (maxSize_dictExpand hd').trans (max_le_max (Nat.le_refl _) ?_)⟩
    exact (dictNextPower_bounds hsize).2
  have hsame : ∃ d', some d = some d' ∧ d'.maxSize ≤ max d.maxSize (2 ^ 60) :=
    ⟨d, rfl, le_max_left _ _⟩
  unfold dictExpandIfNeeded
  split
  · exact hsame
  · next hidle =>
    have hidle : d.isRehashing = false := by simpa using hidle
    split
    · next hzero =>
      have hused : d.ht0.used = 0 := by rw [h.ht0.used, entries_eq_nil_of_size hzero]; rfl
      exact hexpand initialSize (by decide) hidle (by omega) (by rw [hzero]; decide)
    · next hsize =>
      split
      · next hfull =>
        dsimp only
        split
        · next hidleSize =>
          have hbounds := dictNextPower_bounds (show d.ht0.used ≤ 2 ^ 60 by omega)
          have hpower := dictNextPower_bounds hbounds.2
          exact hexpand _ hbounds.2 hidle hbounds.1 (by omega)
        · rw [Nat.mod_eq_of_lt (show d.ht0.used * 2 < 2 ^ 64 by omega)]
          have hbounds := dictNextPower_bounds (show d.ht0.used * 2 ≤ 2 ^ 60 by omega)
          exact hexpand _ (by omega) hidle (by omega) (by omega)
      · exact hsame

/-! ## Tables with distinct keys -/

section Tables

variable {t : Dictht K V} {d d' : Dict K V} {m : K → Option V} {key : K}

/-- A change of one bucket that does nothing to the others. -/
theorem table_set {i : Nat} (g : List (K × V) → List (K × V))
    (hother : ∀ j, j ≠ i → g (t.bucket j) = t.bucket j) :
    t.table.set i (g (t.bucket i)) = t.table.map g := by
  refine ext_getElem? fun j => ?_
  by_cases hj : j < t.table.length
  · have hbucket : t.bucket j = t.table[j] := by simp [Dictht.bucket, hj]
    by_cases hij : i = j
    · subst hij
      simp [hj, hbucket]
    · have hsame := hother j (Ne.symm hij)
      rw [hbucket] at hsame
      simp [hij, hj, hsame]
  · simp [hj]

theorem nodup_bucket (h : (t.entries.map Prod.fst).Nodup) (i : Nat) :
    ((t.bucket i).map Prod.fst).Nodup := by
  by_cases hi : i < t.table.length
  · have hbucket : t.bucket i = t.table[i] := by simp [Dictht.bucket, hi]
    rw [hbucket]
    exact h.sublist ((sublist_flatten_of_mem (getElem_mem hi)).map _)
  · rw [bucket_of_size_le (Nat.not_lt.1 hi)]
    exact nodup_nil

/-- The key is in no other bucket than its own. -/
theorem ne_of_bucket (ht : t.Ok hash) {j : Nat} (hj : j ≠ t.index hash key) :
    ∀ e ∈ t.bucket j, e.1 ≠ key := by
  rintro e he rfl
  exact hj (ht.placed j e he).symm

/-- The entries are those of the map, each once. -/
structure Represents (d : Dict K V) (m : K → Option V) : Prop where
  mem : ∀ e, e ∈ d.entries ↔ m e.1 = some e.2
  nodup : (d.entries.map Prod.fst).Nodup

theorem Represents.perm (h : Represents d m) (hp : d'.entries.Perm d.entries) : Represents d' m :=
  ⟨fun e => hp.mem_iff.trans (h.mem e), (hp.map Prod.fst).nodup_iff.2 h.nodup⟩

theorem Represents.eq_none_iff (h : Represents d m) :
    m key = none ↔ ∀ e ∈ d.entries, e.1 ≠ key := by
  constructor
  · rintro hnone e he rfl
    rw [(h.mem e).1 he] at hnone
    cases hnone
  · intro hne
    rw [eq_none_iff_forall_ne_some]
    exact fun v hv => hne (key, v) ((h.mem _).2 hv) rfl

theorem Represents.eq_none_of_dictSize (h : Represents d m) (hok : d.Ok hash)
    (hzero : d.dictSize = 0) (key : K) : m key = none := by
  have hempty : d.entries = [] := by
    rw [← length_eq_zero_iff, Dict.entries, length_append, ← hok.ht0.used, ← hok.ht1.used]
    exact hzero
  refine h.eq_none_iff.2 fun e he => ?_
  rw [hempty] at he
  cases he

theorem size_ne_zero_of_mem {e : K × V} (h : e ∈ t.entries) : t.size ≠ 0 := by
  intro hzero
  rw [entries_eq_nil_of_size hzero] at h
  cases h

theorem entries_idle (h : d.Ok hash) (hre : d.isRehashing = false) : d.ht1.entries = [] := by
  cases hr : d.rehashidx with
  | none => exact entries_eq_nil_of_size (h.idle hr)
  | some r => simp [Dict.isRehashing, hr] at hre

/-- A key of the first table is not in the second. -/
theorem Represents.tables_ne (h : Represents d m) {e : K × V} (he : e ∈ d.ht0.entries) :
    ∀ x ∈ d.ht1.entries, x.1 ≠ e.1 := by
  intro x hx hkey
  have hnodup := h.nodup
  rw [Dict.entries, map_append, nodup_append] at hnodup
  exact hnodup.2.2 e.1 (mem_map_of_mem he) x.1 (mem_map_of_mem hx) hkey.symm

theorem Represents.nodup_tables (h : Represents d m) :
    (d.ht0.entries.map Prod.fst).Nodup ∧ (d.ht1.entries.map Prod.fst).Nodup := by
  have hnodup := h.nodup
  rw [Dict.entries, map_append, nodup_append] at hnodup
  exact ⟨hnodup.1, hnodup.2.1⟩

end Tables

section Keys

variable [DecidableEq K]

/-- What `findIn` finds is there. -/
theorem mem_of_findIn {t : Dictht K V} {key : K} {e : K × V} (h : findIn hash t key = some e) :
    e ∈ t.entries ∧ e.1 = key :=
  ⟨mem_entries.2 ⟨_, mem_of_find?_eq_some h⟩,
    of_decide_eq_true (find?_some (p := fun x : K × V => decide (x.1 = key)) h)⟩

theorem not_mem_of_findIn {t : Dictht K V} (ht : t.Ok hash) {key : K}
    (h : findIn hash t key = none) : ∀ e ∈ t.entries, e.1 ≠ key := by
  intro e he hkey
  obtain ⟨i, hi⟩ := mem_entries.1 he
  have hindex := ht.placed i e hi
  rw [hkey] at hindex
  have hnot := find?_eq_none.1 h e (by rw [hindex]; exact hi)
  exact hnot (decide_eq_true hkey)

/-- The other value for a key. -/
def withVal (key : K) (val : V) (e : K × V) : K × V := if e.1 = key then (key, val) else e

theorem map_withVal {key : K} {val : V} {l : List (K × V)} (h : ∀ e ∈ l, e.1 ≠ key) :
    l.map (withVal key val) = l := by
  refine (map_congr_left fun e he => ?_).trans (map_id l)
  exact if_neg (h e he)

theorem setVal_eq_map {key : K} {val : V} {l : List (K × V)} (h : (l.map Prod.fst).Nodup) :
    setVal key val l = l.map (withVal key val) := by
  induction l with
  | nil => rfl
  | cons e l ih =>
    obtain ⟨hnew, hrest⟩ := nodup_cons.1 h
    rw [setVal, map_cons]
    by_cases he : e.1 = key
    · rw [if_pos he, withVal, if_pos he, map_withVal]
      intro x hx hkey
      exact hnew (mem_map.2 ⟨x, hx, hkey.trans he.symm⟩)
    · rw [if_neg he, withVal, if_neg he, ih hrest]

theorem eraseP_eq_filter {key : K} {l : List (K × V)} (h : (l.map Prod.fst).Nodup) :
    l.eraseP (fun e => e.1 = key) = l.filter fun e => e.1 ≠ key := by
  induction l with
  | nil => rfl
  | cons e l ih =>
    obtain ⟨hnew, hrest⟩ := nodup_cons.1 h
    by_cases he : e.1 = key
    · rw [eraseP_cons_of_pos (by simpa using he), filter_cons_of_neg (by simpa using he)]
      refine (filter_eq_self.2 fun x hx => decide_eq_true ?_).symm
      intro hkey
      exact hnew (mem_map.2 ⟨x, hx, hkey.trans he.symm⟩)
    · rw [eraseP_cons_of_neg (by simpa using he), filter_cons_of_pos (by simpa using he),
        ih hrest]

section Buckets

variable {t : Dictht K V} {key : K}

theorem setIn_entries (ht : t.Ok hash) (h : (t.entries.map Prod.fst).Nodup) (val : V) :
    (setIn hash t key val).entries = t.entries.map (withVal key val) := by
  unfold setIn Dictht.entries
  rw [setVal_eq_map (nodup_bucket h _), table_set (List.map (withVal key val)), map_flatten]
  exact fun j hj => map_withVal (ne_of_bucket ht hj)

theorem unlink_entries (ht : t.Ok hash) (h : (t.entries.map Prod.fst).Nodup) :
    (unlink hash t key).entries = t.entries.filter fun e => e.1 ≠ key := by
  unfold unlink Dictht.entries
  rw [eraseP_eq_filter (nodup_bucket h _), table_set (List.filter fun e => e.1 ≠ key),
    filter_flatten]
  exact fun j hj => filter_eq_self.2 fun e he => decide_eq_true (ne_of_bucket ht hj e he)

end Buckets

/-! ## The map -/

section Map

variable {d d' : Dict K V} {m : K → Option V} {key : K} {val : V}

theorem Represents.insert (h : Represents d m) (hnone : m key = none)
    (hp : d'.entries.Perm ((key, val) :: d.entries)) :
    Represents d' (update m key (some val)) := by
  refine ⟨fun e => ?_, ?_⟩
  · rw [hp.mem_iff, mem_cons, h.mem]
    by_cases he : e.1 = key
    · rw [he, update_self, hnone]
      constructor
      · rintro (rfl | hsome)
        · rfl
        · cases hsome
      · intro hval
        exact .inl (Prod.ext he (some.inj hval).symm)
    · rw [update_of_ne he]
      exact or_iff_right fun heq => he (by rw [heq])
  · rw [(hp.map Prod.fst).nodup_iff, map_cons, nodup_cons]
    refine ⟨?_, h.nodup⟩
    intro hmem
    obtain ⟨e, he, hkey⟩ := mem_map.1 hmem
    exact h.eq_none_iff.1 hnone e he hkey

theorem Represents.replace (h : Represents d m) (hsome : (m key).isSome)
    (he : d'.entries = d.entries.map (withVal key val)) :
    Represents d' (update m key (some val)) := by
  have hfst : Prod.fst ∘ withVal key val = Prod.fst := by
    funext e
    show (withVal key val e).1 = e.1
    unfold withVal
    split
    · next hkey => exact hkey.symm
    · rfl
  refine ⟨fun e => ?_, by rw [he, List.map_map, hfst]; exact h.nodup⟩
  rw [he, List.mem_map]
  constructor
  · rintro ⟨x, hx, rfl⟩
    unfold withVal
    split
    · exact update_self ..
    · next hne => rw [update_of_ne hne, ← h.mem]; exact hx
  · intro hm
    by_cases hkey : e.1 = key
    · obtain ⟨v, hv⟩ := isSome_iff_exists.1 hsome
      rw [hkey, update_self] at hm
      exact ⟨(key, v), (h.mem _).2 hv, (if_pos rfl).trans (Prod.ext hkey.symm (some.inj hm))⟩
    · rw [update_of_ne hkey] at hm
      exact ⟨e, (h.mem e).2 hm, if_neg hkey⟩

theorem Represents.erase (h : Represents d m)
    (he : d'.entries = d.entries.filter fun e => e.1 ≠ key) :
    Represents d' (update m key none) := by
  refine ⟨fun e => ?_, by rw [he]; exact h.nodup.sublist (filter_sublist.map _)⟩
  rw [he, mem_filter, h.mem, decide_eq_true_eq]
  by_cases hkey : e.1 = key
  · simp [hkey]
  · simp [hkey]

theorem Represents.unchanged (h : Represents d m) (hnone : m key = none) :
    Represents d (update m key none) := by
  rwa [← hnone, update_eq_self]

theorem lookup_eq (h : d.Ok hash) (hm : Represents d m) (key : K) :
    lookup hash d key = (m key).map fun v => (key, v) := by
  cases hl : lookup hash d key with
  | some e =>
    have he : e ∈ d.entries ∧ e.1 = key := by
      rcases or_eq_some_iff.1 hl with h0 | ⟨-, h1⟩
      · exact ⟨mem_dict_entries.2 (.inl (mem_of_findIn h0).1), (mem_of_findIn h0).2⟩
      · obtain ⟨-, h1⟩ := ite_none_right_eq_some.1 h1
        exact ⟨mem_dict_entries.2 (.inr (mem_of_findIn h1).1), (mem_of_findIn h1).2⟩
    obtain ⟨hmem, rfl⟩ := he
    rw [(hm.mem e).1 hmem]
    rfl
  | none =>
    obtain ⟨h0, h1⟩ := or_eq_none_iff.1 hl
    have hnone : m key = none := by
      refine hm.eq_none_iff.2 fun e he => ?_
      rcases mem_dict_entries.1 he with he | he
      · exact not_mem_of_findIn h.ht0 h0 e he
      · cases hre : d.isRehashing with
        | true =>
          rw [hre, if_pos rfl] at h1
          exact not_mem_of_findIn h.ht1 h1 e he
        | false =>
          rw [entries_idle h hre] at he
          cases he
    rw [hnone]
    rfl

/-- The map after an addition that does not change a value. -/
def addTo (m : K → Option V) (key : K) (val : V) : K → Option V :=
  if m key = none then update m key (some val) else m

theorem dictAdd_spec (h : d.Ok hash) (hm : Represents d m) (hfits : d.fits = true) (cfg : Settings)
    (canResize : Bool) (key : K) (val : V) :
    (dictAdd hash cfg canResize d key val).1.Ok hash ∧
      (dictAdd hash cfg canResize d key val).2 = (m key).isNone ∧
      Represents (dictAdd hash cfg canResize d key val).1 (addTo m key val) ∧
      (dictAdd hash cfg canResize d key val).1.maxSize ≤ max d.maxSize (2 ^ 60) := by
  have hstep := keeps_dictRehashStep h
  have hfits' : (dictRehashStep hash d).fits = true := by
    rw [Dict.fits, hstep.dictSize h]
    exact hfits
  obtain ⟨d', hd', hsize⟩ := exists_dictExpandIfNeeded hstep.ok hfits' cfg canResize
  have hkeeps := hstep.toKeeps.trans (keeps_dictExpandIfNeeded hstep.ok hd')
  have hm' := hm.perm hkeeps.perm
  have hle : d'.maxSize ≤ max d.maxSize (2 ^ 60) :=
    hsize.trans (max_le_max hstep.size_le (Nat.le_refl _))
  unfold dictAdd addTo
  simp only [hd', lookup_eq hkeeps.ok hm']
  cases hkey : m key with
  | some v => exact ⟨hkeeps.ok, rfl, hm', hle⟩
  | none =>
    obtain ⟨hok, hperm⟩ :=
      insertEntry_spec hkeeps.ok (size_ne_zero_of_dictExpandIfNeeded hstep.ok hd') (key, val)
    refine ⟨hok, rfl, hm'.insert hkey hperm, ?_⟩
    show (insertEntry hash d' (key, val)).maxSize ≤ _
    unfold insertEntry Dict.maxSize Dictht.push
    split
    · rw [size_set]; exact hle
    · rw [size_set]; exact hle

theorem dictReplace_spec (h : d.Ok hash) (hm : Represents d m) (hfits : d.fits = true)
    (cfg : Settings) (canResize : Bool) (key : K) (val : V) :
    (dictReplace hash cfg canResize d key val).Ok hash ∧
      Represents (dictReplace hash cfg canResize d key val) (update m key (some val)) ∧
      (dictReplace hash cfg canResize d key val).maxSize ≤ max d.maxSize (2 ^ 60) := by
  obtain ⟨hok, hadded, hrep, hsize⟩ := dictAdd_spec h hm hfits cfg canResize key val
  unfold dictReplace
  generalize dictAdd hash cfg canResize d key val = r at hok hadded hrep hsize
  obtain ⟨d', added⟩ := r
  simp only at hok hadded hrep hsize ⊢
  subst hadded
  cases hkey : m key with
  | none =>
    rw [addTo, if_pos hkey] at hrep
    exact ⟨hok, hrep, hsize⟩
  | some v =>
    rw [addTo, if_neg (by simp [hkey])] at hrep
    obtain ⟨hnodup0, hnodup1⟩ := hrep.nodup_tables
    simp only [isNone_some, Bool.false_eq_true, if_false]
    cases hfound : findIn hash d'.ht0 key with
    | some e =>
      obtain ⟨hmem, rfl⟩ := mem_of_findIn hfound
      refine ⟨hok.setIn0 (size_ne_zero_of_mem hmem) e.1 val,
        hrep.replace (by rw [hkey]; rfl) ?_, ?_⟩
      · show (setIn hash d'.ht0 e.1 val).entries ++ d'.ht1.entries = _
        rw [setIn_entries hok.ht0 hnodup0, Dict.entries, map_append,
          map_withVal (hrep.tables_ne hmem)]
      · show max (setIn hash d'.ht0 e.1 val).size d'.ht1.size ≤ _
        rw [setIn, size_set]
        exact hsize
    | none =>
      have hnot := not_mem_of_findIn hok.ht0 hfound
      have hmem : (key, v) ∈ d'.ht1.entries := by
        rcases mem_dict_entries.1 ((hrep.mem (key, v)).2 hkey) with h0 | h1
        · exact absurd rfl (hnot _ h0)
        · exact h1
      refine ⟨hok.setIn1 (size_ne_zero_of_mem hmem) key val,
        hrep.replace (by rw [hkey]; rfl) ?_, ?_⟩
      · show d'.ht0.entries ++ (setIn hash d'.ht1 key val).entries = _
        rw [setIn_entries hok.ht1 hnodup1, Dict.entries, map_append, map_withVal hnot]
      · show max d'.ht0.size (setIn hash d'.ht1 key val).size ≤ _
        rw [setIn, size_set]
        exact hsize

theorem dictDelete_spec (h : d.Ok hash) (hm : Represents d m) (key : K) :
    (dictDelete hash d key).Ok hash ∧ Represents (dictDelete hash d key) (update m key none) ∧
      (dictDelete hash d key).maxSize ≤ d.maxSize := by
  have hstep := keeps_dictRehashStep h
  have hrep := hm.perm hstep.perm
  have hlookup := lookup_eq hstep.ok hrep key
  unfold dictDelete
  split
  · next hzero => exact ⟨h, hm.unchanged (hm.eq_none_of_dictSize h hzero key), Nat.le_refl _⟩
  · have hsize := hstep.size_le
    generalize dictRehashStep hash d = d' at hstep hrep hlookup hsize
    obtain ⟨hnodup0, hnodup1⟩ := hrep.nodup_tables
    simp only
    cases hfound : findIn hash d'.ht0 key with
    | some e =>
      obtain ⟨hmem, rfl⟩ := mem_of_findIn hfound
      rw [if_pos (show (some e).isSome = true from rfl)]
      refine ⟨hstep.ok.unlink0 (by rw [hfound]; rfl), hrep.erase ?_, ?_⟩
      · show (unlink hash d'.ht0 e.1).entries ++ d'.ht1.entries = _
        rw [unlink_entries hstep.ok.ht0 hnodup0, Dict.entries, filter_append]
        congr 1
        exact (filter_eq_self.2 fun x hx => decide_eq_true (hrep.tables_ne hmem x hx)).symm
      · show max (unlink hash d'.ht0 e.1).size d'.ht1.size ≤ _
        rw [unlink, size_set]
        exact hsize
    | none =>
      rw [if_neg (by simp)]
      split
      · next hsecond =>
        refine ⟨hstep.ok.unlink1 hsecond.2, hrep.erase ?_, ?_⟩
        · show d'.ht0.entries ++ (unlink hash d'.ht1 key).entries = _
          rw [unlink_entries hstep.ok.ht1 hnodup1, Dict.entries, filter_append]
          congr 1
          refine (filter_eq_self.2 fun x hx => decide_eq_true ?_).symm
          exact not_mem_of_findIn hstep.ok.ht0 hfound x hx
        · show max d'.ht0.size (unlink hash d'.ht1 key).size ≤ _
          rw [unlink, size_set]
          exact hsize
      · next hnot =>
        -- neither table has the key
        have hnone : lookup hash d' key = none := by
          rw [lookup, hfound, none_or]
          split
          · next hre => simpa [hre] using hnot
          · rfl
        rw [hnone] at hlookup
        exact ⟨hstep.ok, hrep.unchanged (map_eq_none_iff.1 hlookup.symm), hsize⟩

end Map

/-! ## Runs -/

variable (hash)

/-- `dictAddOrFind`; `fill` is what the caller puts into a new entry. -/
def dictAddOrFind (cfg : Settings) (canResize : Bool) (d : Dict K V) (key : K) (fill : V) :
    Dict K V × Option (K × V) :=
  let d := dictRehashStep hash d
  match dictExpandIfNeeded cfg canResize d with
  | none => (d, none)
  | some d =>
    match lookup hash d key with
    | some e => (d, some e)
    | none => (insertEntry hash d (key, fill), some (key, fill))

/-- A dictionary with the settings of `dict.c`, and the map that it stands for, which no
function reads. -/
structure Mapped (K V : Type) where
  dict : Dict K V
  canResize : Bool
  settings : Settings
  map : K → Option V

/-- What is called. `delete` is also `dictUnlink`. -/
inductive MapOp (K V : Type)
  | add (key : K) (val : V)
  | replace (key : K) (val : V)
  | addOrFind (key : K) (fill : V)
  | delete (key : K)
  | find (key : K)
  | expand (size : Nat)
  | resize
  | rehash (n : Nat)
  | setResize (canResize : Bool)
  | setExpandMaxIdle (size : Nat)
  | setIterators (iterators : Nat)

/-- Without room for an entry the process ends. -/
def Mapped.next (s : Mapped K V) : MapOp K V → Option (Mapped K V)
  | .add key val =>
    if s.dict.fits then
      some { s with
        dict := (dictAdd hash s.settings s.canResize s.dict key val).1, map := addTo s.map key val }
    else none
  | .replace key val =>
    if s.dict.fits then
      some { s with
        dict := dictReplace hash s.settings s.canResize s.dict key val
        map := update s.map key (some val) }
    else none
  | .addOrFind key fill =>
    if s.dict.fits then
      some { s with
        dict := (dictAddOrFind hash s.settings s.canResize s.dict key fill).1
        map := addTo s.map key fill }
    else none
  | .delete key =>
    some { s with dict := dictDelete hash s.dict key, map := update s.map key none }
  | .find key => some { s with dict := (dictFind hash s.dict key).1 }
  | .expand size => some { s with dict := (dictExpand s.dict size).getD s.dict }
  | .resize => some { s with dict := (dictResize s.canResize s.dict).getD s.dict }
  | .rehash n => some { s with dict := (dictRehash hash s.dict n).1 }
  | .setResize b => some { s with canResize := b }
  | .setExpandMaxIdle size =>
    some { s with settings := { s.settings with expandMaxIdleSize := size } }
  | .setIterators n => some { s with dict := { s.dict with iterators := n } }

def dicts : Lib.System (Mapped K V) (MapOp K V) where
  init s := s.dict = Dict.create ∧ s.map = fun _ => none
  next := Mapped.next hash

/-- The bytes of the table are its buckets. -/
def Dictht.Backed (t : Dictht K V) : Prop := t.size * 8 % 2 ^ 64 = t.size * 8

/-- The dictionary is its map: what is found and added, where the entries are, and what the
tables are like. -/
structure IsMap (s : Mapped K V) : Prop where
  find : ∀ key, (dictFind hash s.dict key).2 = (s.map key).map fun v => (key, v)
  add : ∀ key val, s.dict.fits = true → s.map key = none →
    (dictAdd hash s.settings s.canResize s.dict key val).2 = true
  addOrFind : ∀ key fill, s.dict.fits = true →
    (dictAddOrFind hash s.settings s.canResize s.dict key fill).2 =
      some (key, (s.map key).getD fill)
  entries : ∀ e, e ∈ s.dict.entries ↔ s.map e.1 = some e.2
  once : (s.dict.entries.map Prod.fst).Nodup
  used : s.dict.ht0.used = s.dict.ht0.entries.length ∧ s.dict.ht1.used = s.dict.ht1.entries.length
  rehashed : ∀ r, s.dict.rehashidx = some r → (∀ i < r, s.dict.ht0.bucket i = []) ∧
    (s.dict.ht0.used ≠ 0 → r < s.dict.ht0.size)
  sizes : ∀ t, t = s.dict.ht0 ∨ t = s.dict.ht1 → (t.size = 0 ∨ ∃ k, t.size = 2 ^ k) ∧ t.Backed

/-- The bytes of a table that is asked for do not overflow. -/
def Permitted (_ : Mapped K V) : MapOp K V → Prop
  | .expand size => size ≤ 2 ^ 60
  | _ => True

instance (s : Mapped K V) : DecidablePred (Permitted s) := fun op => by
  cases op with
  | expand size => exact Nat.decLe size (2 ^ 60)
  | _ => exact instDecidableTrue

/-- The invariant of a run. -/
structure MapInv (s : Mapped K V) : Prop where
  ok : s.dict.Ok hash
  represents : Represents s.dict s.map
  size_le : s.dict.maxSize ≤ 2 ^ 60

variable {hash}

theorem dictAddOrFind_fst (cfg : Settings) (canResize : Bool) (d : Dict K V) (key : K) (fill : V) :
    (dictAddOrFind hash cfg canResize d key fill).1 =
      (dictAdd hash cfg canResize d key fill).1 := by
  unfold dictAddOrFind dictAdd
  dsimp only
  cases dictExpandIfNeeded cfg canResize (dictRehashStep hash d) with
  | none => rfl
  | some d' =>
    simp only
    cases lookup hash d' key <;> rfl

omit [DecidableEq K] in
theorem MapInv.rehashed {s : Mapped K V} (h : MapInv hash s) {d : Dict K V}
    (hd : Rehashed hash s.dict d) : MapInv hash { s with dict := d } :=
  ⟨hd.ok, h.represents.perm hd.perm, hd.size_le.trans h.size_le⟩

omit [DecidableEq K] in
theorem MapInv.expanded {s : Mapped K V} (h : MapInv hash s) {size : Nat} (hsize : size ≤ 2 ^ 60) :
    MapInv hash { s with dict := (dictExpand s.dict size).getD s.dict } := by
  cases hd : dictExpand s.dict size with
  | none => exact h
  | some d =>
    have hkeeps := keeps_dictExpand h.ok hd
    refine ⟨hkeeps.ok, h.represents.perm hkeeps.perm, (maxSize_dictExpand hd).trans ?_⟩
    exact max_le h.size_le (dictNextPower_bounds hsize).2

theorem MapInv.next {s s' : Mapped K V} (h : MapInv hash s) {op : MapOp K V} (hop : Permitted s op)
    (hstep : s.next hash op = some s') : MapInv hash s' := by
  have hadd : ∀ key val, s.dict.fits = true → MapInv hash { s with
        dict := (dictAdd hash s.settings s.canResize s.dict key val).1
        map := addTo s.map key val } := by
    intro key val hfits
    obtain ⟨hok, -, hrep, hsize⟩ :=
      dictAdd_spec h.ok h.represents hfits s.settings s.canResize key val
    exact ⟨hok, hrep, hsize.trans (max_le h.size_le (Nat.le_refl _))⟩
  cases op with
  | add key val =>
    obtain ⟨hfits, ⟨⟩⟩ := ite_none_right_eq_some.1 hstep
    exact hadd key val hfits
  | addOrFind key fill =>
    obtain ⟨hfits, ⟨⟩⟩ := ite_none_right_eq_some.1 hstep
    rw [dictAddOrFind_fst]
    exact hadd key fill hfits
  | replace key val =>
    obtain ⟨hfits, ⟨⟩⟩ := ite_none_right_eq_some.1 hstep
    obtain ⟨hok, hrep, hsize⟩ :=
      dictReplace_spec h.ok h.represents hfits s.settings s.canResize key val
    exact ⟨hok, hrep, hsize.trans (max_le h.size_le (Nat.le_refl _))⟩
  | delete key =>
    cases hstep
    obtain ⟨hok, hrep, hsize⟩ := dictDelete_spec h.ok h.represents key
    exact ⟨hok, hrep, hsize.trans h.size_le⟩
  | find key =>
    cases hstep
    exact h.rehashed (keeps_dictFind h.ok key)
  | expand size =>
    cases hstep
    exact h.expanded hop
  | resize =>
    cases hstep
    unfold dictResize
    split
    · exact h
    · refine h.expanded ?_
      -- the number of entries goes through an `int`
      have hint : toInt s.dict.ht0.used ≤ 2 ^ 31 := by
        unfold toInt
        omega
      split
      · decide
      · omega
  | rehash n =>
    cases hstep
    exact h.rehashed (keeps_dictRehash h.ok n)
  | setResize b =>
    cases hstep
    exact ⟨h.ok, h.represents, h.size_le⟩
  | setExpandMaxIdle size =>
    cases hstep
    exact ⟨h.ok, h.represents, h.size_le⟩
  | setIterators n =>
    cases hstep
    exact ⟨⟨h.ok.ht0, h.ok.ht1, h.ok.idle, h.ok.rehashing⟩,
      ⟨h.represents.mem, h.represents.nodup⟩, h.size_le⟩

theorem MapInv.find {s : Mapped K V} (h : MapInv hash s) (key : K) :
    (dictFind hash s.dict key).2 = (s.map key).map fun v => (key, v) := by
  have hstep := keeps_dictRehashStep h.ok
  unfold dictFind
  split
  · next hzero =>
    rw [h.represents.eq_none_of_dictSize h.ok hzero key]
    rfl
  · exact lookup_eq hstep.ok (h.represents.perm hstep.perm) key

theorem MapInv.isMap {s : Mapped K V} (h : MapInv hash s) : IsMap hash s where
  find := h.find
  add key val hfits hnone := by
    rw [(dictAdd_spec h.ok h.represents hfits s.settings s.canResize key val).2.1, hnone]
    rfl
  addOrFind key fill hfits := by
    have hstep := keeps_dictRehashStep h.ok
    have hfits' : (dictRehashStep hash s.dict).fits = true := by
      rw [Dict.fits, hstep.dictSize h.ok]
      exact hfits
    obtain ⟨d, hd, -⟩ := exists_dictExpandIfNeeded hstep.ok hfits' s.settings s.canResize
    have hkeeps := hstep.toKeeps.trans (keeps_dictExpandIfNeeded hstep.ok hd)
    unfold dictAddOrFind
    simp only [hd, lookup_eq hkeeps.ok (h.represents.perm hkeeps.perm)]
    cases s.map key <;> rfl
  entries := h.represents.mem
  once := h.represents.nodup
  used := ⟨h.ok.ht0.used, h.ok.ht1.used⟩
  rehashed r hr := by
    refine ⟨(h.ok.rehashing r hr).2.2, fun hused => ?_⟩
    obtain ⟨i, hri, hi, -⟩ := exists_bucket_of_used h.ok hr hused
    exact Nat.lt_of_le_of_lt hri hi
  sizes t ht := by
    have hle : t.size ≤ 2 ^ 60 := by
      have := h.size_le
      unfold Dict.maxSize at this
      rcases ht with rfl | rfl
      · omega
      · omega
    have hok : t.Ok hash := by
      rcases ht with rfl | rfl
      · exact h.ok.ht0
      · exact h.ok.ht1
    refine ⟨?_, Nat.mod_eq_of_lt (by omega)⟩
    obtain hzero | ⟨k, -, hk⟩ := hok.size
    · exact .inl hzero
    · exact .inr ⟨k, hk⟩

theorem mapInv_init {s : Mapped K V} (h : (dicts hash).init s) : MapInv hash s := by
  obtain ⟨d, b, cfg, m⟩ := s
  obtain ⟨rfl, rfl⟩ := h
  refine ⟨ok_create, ⟨fun e => ?_, nodup_nil⟩, Nat.zero_le _⟩
  exact ⟨(fun he => by cases he), fun he => by cases he⟩

/-- In every run whose calls are permitted, a dictionary is its map. -/
theorem dict_is_map {s : Mapped K V} (h : (dicts hash).Reachable Permitted s) : IsMap hash s :=
  (h.invariant (fun _ hs => mapInv_init hs) fun _ _ _ hs hop hstep => hs.next hop hstep).isMap

end Keys

/-- An empty dictionary of numbers with the settings of a new process. -/
def newMapped : Mapped Nat Unit := ⟨.create, true, ⟨5, 128 * 1024 * 1024⟩, fun _ => none⟩

/-- Keys with one hash, the fifth of which starts a rehashing. -/
theorem dict_is_map_rehashing : ∃ s : Mapped Nat Unit,
    (dicts fun _ => 0).Reachable Permitted s ∧ s.dict.isRehashing = true ∧
      IsMap (fun _ => 0) s := by
  have hrun : ((dicts fun _ => 0).run newMapped
      [.expand 3, .add 1 (), .delete 1, .add 2 (), .replace 3 (), .addOrFind 4 (), .add 5 (),
        .add 6 ()]).any
      (fun s => s.dict.isRehashing) = true := by decide +kernel
  obtain ⟨s, hs, hre⟩ := (Option.any_eq_true _ _).1 hrun
  have hreach : (dicts fun _ => 0).Reachable Permitted s := by
    refine Lib.System.reachable_of_run_of_forall (.init ⟨rfl, rfl⟩) (fun op hop s => ?_) hs
    rcases mem_cons.1 hop with rfl | hop
    · exact (by decide : 3 ≤ 2 ^ 60)
    · simp only [mem_cons, not_mem_nil, or_false] at hop
      rcases hop with rfl | rfl | rfl | rfl | rfl | rfl | rfl <;> trivial
  exact ⟨s, hreach, hre, dict_is_map hreach⟩

/-- The first table of a dictionary. -/
theorem dictExpand_create (size : Nat) : dictExpand (Dict.create : Dict K V) size =
    some { Dict.create with ht0 := ⟨List.replicate (dictNextPower size) [], 0⟩ } := by
  obtain ⟨k, -, hk⟩ := dictNextPower_eq size
  have hne : dictNextPower size ≠ (Dict.create : Dict K V).ht0.size := by
    rw [hk]
    exact (Nat.two_pow_pos k).ne'
  unfold dictExpand
  rw [if_neg (by simp [Dict.create, Dict.isRehashing, Dictht.reset]), if_neg hne]
  rfl

/-- A table whose bytes overflow has no memory for its buckets. -/
theorem not_isMap_of_overflow [DecidableEq K] (s : Mapped K V) (hs : s.dict = Dict.create)
    {size : Nat} (h : dictNextPower size = 2 ^ 61) :
    ∃ s', (dicts hash).next s (.expand size) = some s' ∧ ¬ IsMap hash s' := by
  refine ⟨_, rfl, fun hmap => ?_⟩
  have hbacked := (hmap.sizes _ (.inl rfl)).2
  rw [hs, dictExpand_create, getD_some, Dictht.Backed, Dictht.size, length_replicate, h] at hbacked
  omega

/-- `dictExpand` with a size of 2 ^ 61. -/
theorem expand_overflows : ¬ ∀ s : Mapped Nat Unit,
    (dicts fun _ => 0).Reachable Lib.System.anyStep s → IsMap (fun _ => 0) s := by
  intro hall
  have hpower : dictNextPower (2 ^ 61) = 2 ^ 61 := by decide +kernel
  obtain ⟨s, hstep, hnot⟩ := @not_isMap_of_overflow _ _ (fun _ => 0) _ newMapped rfl _ hpower
  exact hnot (hall s (.step (.init ⟨rfl, rfl⟩) trivial hstep))

end XredisCrdt.Hash
