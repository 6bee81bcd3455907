import Mathlib.Data.List.Sort
import Mathlib.Data.List.Dedup

/-!
# Lists of entries with distinct keys, and the merge of two of them

An entry has a key (`key : U → K`, `K` linearly ordered). `at? key l k` is the
first entry of `l` under `k`. `mergeBy` walks two key-sorted lists in step:
entries under a common key are combined by `both`, an entry that has no partner
goes through `alone`.
-/

namespace Lib.KeyedMerge

open List

variable {U K : Type*} [LinearOrder K] (key : U → K)

/-- The first entry under `k`. -/
def at? (l : List U) (k : K) : Option U := l.find? fun u => key u = k

/-- Distinct keys. -/
def Distinct (l : List U) : Prop := (l.map key).Nodup

/-- Strictly ascending keys. -/
def Ascending (l : List U) : Prop := l.Pairwise fun a b => key a < key b

/-- Sort by key. -/
def sort (l : List U) : List U := l.insertionSort fun a b => key a ≤ key b

instance (l : List U) : Decidable (Distinct key l) := inferInstanceAs (Decidable (List.Nodup _))

instance (l : List U) : Decidable (Ascending key l) :=
  inferInstanceAs (Decidable (List.Pairwise _ _))

variable {key} {l l' : List U} {k : K} {u : U}

@[simp] theorem at?_nil : at? key [] k = none := rfl

theorem at?_cons : at? key (u :: l) k = if key u = k then some u else at? key l k := by
  unfold at?
  rw [find?_cons]
  by_cases h : key u = k <;> simp [h]

theorem at?_eq_none : at? key l k = none ↔ ∀ u ∈ l, key u ≠ k := by
  simp [at?]

theorem at?_mem (h : at? key l k = some u) : u ∈ l := mem_of_find?_eq_some h

theorem at?_key (h : at? key l k = some u) : key u = k := by
  simpa using find?_some h

theorem mem_keys : k ∈ l.map key ↔ at? key l k ≠ none := by
  simp [at?_eq_none]

/-- With distinct keys an entry is found under its own key. -/
theorem at?_eq_some (hd : Distinct key l) : at? key l k = some u ↔ u ∈ l ∧ key u = k := by
  constructor
  · intro h
    exact ⟨at?_mem h, at?_key h⟩
  · rintro ⟨hu, rfl⟩
    induction l with
    | nil => simp at hu
    | cons a l ih =>
      obtain ⟨ha, hd⟩ := nodup_cons.1 hd
      rw [at?_cons]
      rcases mem_cons.1 hu with rfl | hu
      · rw [if_pos rfl]
      · have hne : key a ≠ key u := fun he => ha (he ▸ mem_map_of_mem hu)
        rw [if_neg hne, ih hd hu]

theorem Ascending.distinct (h : Ascending key l) : Distinct key l :=
  List.Nodup.of_map id (by simpa [List.Nodup, pairwise_map] using h.imp fun hab => hab.ne)

omit [LinearOrder K] in
theorem Distinct.nodup (h : Distinct key l) : l.Nodup := List.Nodup.of_map key h

omit [LinearOrder K] in
theorem Distinct.perm (h : Distinct key l) (hp : l'.Perm l) : Distinct key l' :=
  ((hp.map key).nodup_iff).2 h

theorem at?_of_perm (hp : l'.Perm l) (hd : Distinct key l) : at? key l' k = at? key l k := by
  apply Option.ext
  intro u
  rw [at?_eq_some (hd.perm hp), at?_eq_some hd, hp.mem_iff]

theorem sort_perm (l : List U) : (sort key l).Perm l := perm_insertionSort _ l

theorem at?_sort (hd : Distinct key l) : at? key (sort key l) k = at? key l k :=
  at?_of_perm (sort_perm l) hd

theorem ascending_sort (hd : Distinct key l) : Ascending key (sort key l) := by
  have hle : (sort key l).Pairwise fun a b => key a ≤ key b :=
    @pairwise_insertionSort U (fun a b => key a ≤ key b) _
      ⟨fun a b => le_total (key a) (key b)⟩ ⟨fun _ _ _ => le_trans⟩ l
  have hne : (sort key l).Pairwise fun a b => key a ≠ key b := by
    simpa [Distinct, List.Nodup, pairwise_map] using hd.perm (sort_perm l)
  exact hle.imp₂ (fun _ _ => lt_of_le_of_ne) hne

/-- A sorted list is left as it is. -/
theorem Ascending.sort_eq (h : Ascending key l) : sort key l = l :=
  List.Pairwise.insertionSort_eq (h.imp le_of_lt)

/-- A sorted list holds nothing under a key below its first one. -/
theorem below_ascending (h : Ascending key (u :: l)) (hk : k < key u) :
    at? key (u :: l) k = none := by
  rw [at?_eq_none, forall_mem_cons]
  exact ⟨hk.ne', fun v hv => (hk.trans ((pairwise_cons.1 h).1 v hv)).ne'⟩

/-- Sorted lists that read alike are equal. -/
theorem ext_ascending (h : Ascending key l) (h' : Ascending key l')
    (hat : ∀ k, at? key l k = at? key l' k) : l = l' := by
  have hp : l.Perm l' := by
    rw [perm_ext_iff_of_nodup h.distinct.nodup h'.distinct.nodup]
    intro u
    have := congrArg (· = some u) (hat (key u))
    simpa [at?_eq_some h.distinct, at?_eq_some h'.distinct] using this
  refine hp.eq_of_pairwise ?_ h h'
  intro a b _ _ hab hba
  exact absurd hab hba.not_gt

/-! ## The merge -/

variable (key) (both : U → U → U) (alone : U → U)

/-- Walk the second list up to the key of `a`, the head of the first one; `rest`
merges the tail of the first list. -/
def mergeHead (a : U) (rest : List U → List U) : List U → List U
  | [] => alone a :: rest []
  | b :: bs =>
    if key a = key b then both a b :: rest bs
    else if key b < key a then alone b :: mergeHead a rest bs
    else alone a :: rest (b :: bs)

/-- The merge of two key-sorted lists. -/
def mergeBy : List U → List U → List U
  | [], bs => bs.map alone
  | a :: as, bs => mergeHead key both alone a (mergeBy as) bs

variable {key both alone}

/-- What the merge holds under a key, from what the two lists hold. -/
def combine (both : U → U → U) (alone : U → U) : Option U → Option U → Option U
  | some a, some b => some (both a b)
  | some a, none => some (alone a)
  | none, some b => some (alone b)
  | none, none => none

/-- The cases of the walk, with `r` for what the rest of it yields. -/
theorem mergeBy_induction {motive : List U → List U → List U → Prop}
    (nil : ∀ bs, motive [] bs (bs.map alone))
    (last : ∀ a as r, motive as [] r → motive (a :: as) [] (alone a :: r))
    (same : ∀ a as b bs r, key a = key b → motive as bs r →
      motive (a :: as) (b :: bs) (both a b :: r))
    (right : ∀ a as b bs r, key b < key a → motive (a :: as) bs r →
      motive (a :: as) (b :: bs) (alone b :: r))
    (left : ∀ a as b bs r, key a < key b → motive as (b :: bs) r →
      motive (a :: as) (b :: bs) (alone a :: r)) (as bs : List U) :
    motive as bs (mergeBy key both alone as bs) := by
  induction as generalizing bs with
  | nil => exact nil bs
  | cons a as ih =>
    rw [mergeBy]
    induction bs with
    | nil => exact last a as _ (ih [])
    | cons b bs ihb =>
      rw [mergeHead]
      split_ifs with heq hlt
      · exact same a as b bs _ heq (ih bs)
      · exact right a as b bs _ hlt ihb
      · exact left a as b bs _ (lt_of_le_of_ne (not_lt.1 hlt) heq) (ih (b :: bs))

/-- A map that keeps the keys carries a merge over. -/
theorem map_mergeBy {V : Type*} {key' : V → K} {both' : V → V → V} {alone' : V → V} {f : U → V}
    (hkey : ∀ a, key' (f a) = key a) (hboth : ∀ a b, f (both a b) = both' (f a) (f b))
    (halone : ∀ a, f (alone a) = alone' (f a)) (as bs : List U) :
    (mergeBy key both alone as bs).map f = mergeBy key' both' alone' (as.map f) (bs.map f) := by
  induction as generalizing bs with
  | nil => simp [mergeBy, halone]
  | cons a as ih =>
    rw [map_cons, mergeBy, mergeBy]
    induction bs with
    | nil =>
      rw [map_nil, mergeHead, mergeHead, map_cons, halone, ih]
      rfl
    | cons b bs ihb =>
      rw [map_cons, mergeHead, mergeHead, hkey, hkey]
      split_ifs
      · rw [map_cons, hboth, ih]
      · rw [map_cons, halone, ihb]
      · rw [map_cons, halone, ih, map_cons]

section

variable (hboth : ∀ a b, key a = key b → key (both a b) = key a)
  (halone : ∀ a, key (alone a) = key a)

include hboth halone

theorem ascending_mergeBy_above (as bs : List U) : Ascending key as → Ascending key bs →
    Ascending key (mergeBy key both alone as bs) ∧
      ∀ c, (∀ v ∈ as, c < key v) → (∀ v ∈ bs, c < key v) →
        ∀ u ∈ mergeBy key both alone as bs, c < key u := by
  -- the bound says that a head may be put in front of the rest of the walk
  refine mergeBy_induction
    (motive := fun as bs r => Ascending key as → Ascending key bs → Ascending key r ∧
      ∀ c, (∀ v ∈ as, c < key v) → (∀ v ∈ bs, c < key v) → ∀ u ∈ r, c < key u)
    ?_ ?_ ?_ ?_ ?_ as bs
  · intro bs _ hbs
    refine ⟨pairwise_map.2 (hbs.imp fun h => by rwa [halone, halone]), ?_⟩
    intro c _ hb u hu
    obtain ⟨b, hb', rfl⟩ := mem_map.1 hu
    rw [halone]
    exact hb b hb'
  · intro a as r ih has hbs
    obtain ⟨ha, has⟩ := pairwise_cons.1 has
    obtain ⟨hr, hbound⟩ := ih has hbs
    refine ⟨pairwise_cons.2 ⟨?_, hr⟩, ?_⟩
    · rw [halone]
      exact hbound _ ha (by simp)
    · intro c hc _
      rw [forall_mem_cons, halone]
      rw [forall_mem_cons] at hc
      exact ⟨hc.1, hbound c hc.2 (by simp)⟩
  · intro a as b bs r hab ih has hbs
    obtain ⟨ha, has⟩ := pairwise_cons.1 has
    obtain ⟨hb, hbs⟩ := pairwise_cons.1 hbs
    obtain ⟨hr, hbound⟩ := ih has hbs
    refine ⟨pairwise_cons.2 ⟨?_, hr⟩, ?_⟩
    · rw [hboth a b hab]
      exact hbound _ ha (hab ▸ hb)
    · intro c hca hcb
      rw [forall_mem_cons] at hca hcb ⊢
      rw [hboth a b hab]
      exact ⟨hca.1, hbound c hca.2 hcb.2⟩
  · intro a as b bs r hba ih has hbs
    obtain ⟨hb, hbs⟩ := pairwise_cons.1 hbs
    obtain ⟨hr, hbound⟩ := ih has hbs
    refine ⟨pairwise_cons.2 ⟨?_, hr⟩, ?_⟩
    · rw [halone]
      refine hbound _ ?_ hb
      rw [forall_mem_cons]
      exact ⟨hba, fun v hv => hba.trans ((pairwise_cons.1 has).1 v hv)⟩
    · intro c hca hcb
      rw [forall_mem_cons] at hcb ⊢
      rw [halone]
      exact ⟨hcb.1, hbound c hca hcb.2⟩
  · intro a as b bs r hab ih has hbs
    obtain ⟨ha, has⟩ := pairwise_cons.1 has
    obtain ⟨hr, hbound⟩ := ih has hbs
    refine ⟨pairwise_cons.2 ⟨?_, hr⟩, ?_⟩
    · rw [halone]
      refine hbound _ ha ?_
      rw [forall_mem_cons]
      exact ⟨hab, fun v hv => hab.trans ((pairwise_cons.1 hbs).1 v hv)⟩
    · intro c hca hcb
      rw [forall_mem_cons] at hca ⊢
      rw [halone]
      exact ⟨hca.1, hbound c hca.2 hcb⟩

theorem ascending_mergeBy {as bs : List U} (has : Ascending key as) (hbs : Ascending key bs) :
    Ascending key (mergeBy key both alone as bs) :=
  (ascending_mergeBy_above hboth halone as bs has hbs).1

/-- The merge of sorted lists holds under each key what the lists hold there. -/
theorem at?_mergeBy {as bs : List U} (has : Ascending key as) (hbs : Ascending key bs) (k : K) :
    at? key (mergeBy key both alone as bs) k =
      combine both alone (at? key as k) (at? key bs k) := by
  revert has hbs
  refine mergeBy_induction (motive := fun as bs r => Ascending key as → Ascending key bs →
      at? key r k = combine both alone (at? key as k) (at? key bs k)) ?_ ?_ ?_ ?_ ?_ as bs
  · rintro bs - -
    induction bs with
    | nil => rfl
    | cons b bs ih =>
      rw [map_cons, at?_cons, at?_cons, halone, ih]
      split_ifs <;> rfl
  · intro a as r ih has hbs
    rw [at?_cons, at?_cons, halone, ih (pairwise_cons.1 has).2 hbs]
    split_ifs <;> rfl
  · intro a as b bs r hab ih has hbs
    rw [at?_cons, at?_cons, at?_cons, hboth a b hab, ← hab,
      ih (pairwise_cons.1 has).2 (pairwise_cons.1 hbs).2]
    split_ifs <;> rfl
  · intro a as b bs r hba ih has hbs
    rw [at?_cons, at?_cons (l := bs), halone, ih has (pairwise_cons.1 hbs).2]
    split_ifs with hk
    · rw [below_ascending has (hk ▸ hba)]
      rfl
    · rfl
  · intro a as b bs r hab ih has hbs
    rw [at?_cons, at?_cons (l := as), halone, ih (pairwise_cons.1 has).2 hbs]
    split_ifs with hk
    · rw [below_ascending hbs (hk ▸ hab)]
      rfl
    · rfl

theorem mem_keys_mergeBy {as bs : List U} (has : Ascending key as) (hbs : Ascending key bs) :
    k ∈ (mergeBy key both alone as bs).map key ↔ k ∈ as.map key ∨ k ∈ bs.map key := by
  have hat := at?_mergeBy hboth halone has hbs k
  rw [mem_keys, mem_keys, mem_keys, hat]
  cases at? key as k <;> cases at? key bs k <;> simp [combine]

/-- The merge has one entry for each key of the two lists. -/
theorem length_mergeBy {as bs : List U} (has : Ascending key as) (hbs : Ascending key bs) :
    (mergeBy key both alone as bs).length = ((as ++ bs).map key).dedup.length := by
  have hp : ((mergeBy key both alone as bs).map key).Perm ((as ++ bs).map key).dedup := by
    rw [perm_ext_iff_of_nodup (ascending_mergeBy hboth halone has hbs).distinct (nodup_dedup _)]
    intro k
    rw [mem_keys_mergeBy hboth halone has hbs, mem_dedup, map_append, mem_append]
  rw [← hp.length_eq, length_map]

end

end Lib.KeyedMerge
