import XredisCrdt.Dict.Map

/-!
# SCAN

`dictScan` visits the bucket of a cursor and returns the next cursor, which counts in
reversed bits. While the dictionary is rehashed it visits the bucket in the smaller table
and, in the larger one, the buckets that the cursor expands to, from the bits that the
cursor has there up to all ones.

Between two calls anything of `Dict.Map` may happen to the dictionary. `scan_guarantee` says
that a whole scan emits every key that was there all the time, provided that the cursor, where it
has bits between the two masks, has ones and then zeros there; `scan_misses_key` shows that
this is needed. If the sizes stay the same, every bucket is visited once.
-/

namespace XredisCrdt.Hash

open Lib.ReverseBits List BitVec Function

variable {K V : Type}

/-! ## rev -/

/-- The loop of `rev`: swap neighbouring groups of `s / 2` bits. -/
def revLoop : Nat → Nat → BitVec 64 → BitVec 64 → BitVec 64
  | 0, _, _, v => v
  | fuel + 1, s, mask, v =>
    if s / 2 > 0 then
      let m := mask ^^^ (mask <<< (s / 2))
      revLoop fuel (s / 2) m (((v >>> (s / 2)) &&& m) ||| ((v <<< (s / 2)) &&& ~~~m))
    else v

/-- `rev`. The loop ends in its seventh round. -/
def rev (v : BitVec 64) : BitVec 64 := revLoop 7 64 (~~~0) v

/-- One round, for the mask that it has computed. -/
def swap (s : Nat) (m v : BitVec 64) : BitVec 64 := ((v >>> s) &&& m) ||| ((v <<< s) &&& ~~~m)

theorem rev_eq_swaps (v : BitVec 64) :
    rev v = swap 1 0x5555555555555555 (swap 2 0x3333333333333333 (swap 4 0x0F0F0F0F0F0F0F0F
      (swap 8 0x00FF00FF00FF00FF (swap 16 0x0000FFFF0000FFFF (swap 32 0x00000000FFFFFFFF v))))) :=
  rfl

variable {d : Dict K V} {e : K × V} {i k k₀ k₁ : Nat} {t0 t1 : Dictht K V} {v : BitVec 64}

/-- A round moves bit `i` to the place of its neighbour. -/
theorem getLsbD_swap {s : Nat} {m : BitVec 64}
    (hm : ∀ i < 64, (m.getLsbD i = true → i ^^^ s = s + i) ∧ (m.getLsbD i = false → s ≤ i ∧
      i ^^^ s = i - s)) (v : BitVec 64) (hi : i < 64) :
    (swap s m v).getLsbD i = v.getLsbD (i ^^^ s) := by
  obtain ⟨hlow, hhigh⟩ := hm i hi
  simp only [swap, getLsbD_or, getLsbD_and, getLsbD_not,
    getLsbD_ushiftRight, getLsbD_shiftLeft]
  cases hbit : m.getLsbD i with
  | true => simp [hlow hbit]
  | false =>
    obtain ⟨hle, heq⟩ := hhigh hbit
    simp [hi, heq, hle]

theorem rev_eq_reverse (v : BitVec 64) : rev v = v.reverse := by
  apply eq_of_getLsbD_eq
  intro i hi
  have hlt : ∀ s < 64, ∀ j < 64, j ^^^ s < 64 := fun s hs j hj =>
    Nat.xor_lt_two_pow (n := 6) hj hs
  have hall : ∀ i < 64, i ^^^ 1 ^^^ 2 ^^^ 4 ^^^ 8 ^^^ 16 ^^^ 32 = 63 - i := by decide
  have h1 := hlt 1 (by omega) i hi
  have h2 := hlt 2 (by omega) _ h1
  have h4 := hlt 4 (by omega) _ h2
  have h8 := hlt 8 (by omega) _ h4
  have h16 := hlt 16 (by omega) _ h8
  rw [rev_eq_swaps, getLsbD_swap (by decide) _ hi, getLsbD_swap (by decide) _ h1,
    getLsbD_swap (by decide) _ h2, getLsbD_swap (by decide) _ h4, getLsbD_swap (by decide) _ h8,
    getLsbD_swap (by decide) _ h16, hall i hi, getLsbD_reverse, getMsbD_eq_getLsbD]
  simp [hi]

/-! ## dictScan -/

/-- The cursor after `v`, for the mask of the smaller table. -/
def nextCursor (m0 v : BitVec 64) : BitVec 64 := rev (rev (v ||| ~~~m0) + 1)

/-- The indices in the larger table that the cursor expands to, and the cursor after the
loop. It goes round at most once for each bucket of the larger table. -/
def expansions (m0 m1 : BitVec 64) : Nat → BitVec 64 → List Nat × BitVec 64
  | 0, v => ([], v)
  | fuel + 1, v =>
    let v' := (((v ||| m0) + 1) &&& ~~~m0) ||| (v &&& m0)
    if v' &&& (m0 ^^^ m1) = 0 then ([(v &&& m1).toNat], v')
    else
      let r := expansions m0 m1 fuel v'
      ((v &&& m1).toNat :: r.1, r.2)

/-- What a call does: the cursor it returns, the entries it emits and the buckets it
visits, `true` for those of the second table. -/
structure Scan (K V : Type) where
  cursor : BitVec 64
  emitted : List (K × V)
  buckets : List (Bool × Nat)

/-- The call while rehashing: `t0` is the smaller table, and `b0` says which one it is. -/
def scanBoth (t0 t1 : Dictht K V) (b0 b1 : Bool) (v : BitVec 64) : Scan K V :=
  let i := (v &&& t0.sizemask).toNat
  let r := expansions t0.sizemask t1.sizemask t1.size v
  ⟨nextCursor t0.sizemask r.2, t0.bucket i ++ r.1.flatMap t1.bucket,
    (b0, i) :: r.1.map fun j => (b1, j)⟩

def dictScan (d : Dict K V) (v : BitVec 64) : Scan K V :=
  if d.dictSize = 0 then ⟨0, [], []⟩
  else if d.isRehashing then
    if d.ht0.size > d.ht1.size then scanBoth d.ht1 d.ht0 true false v
    else scanBoth d.ht0 d.ht1 false true v
  else
    let i := (v &&& d.ht0.sizemask).toNat
    ⟨nextCursor d.ht0.sizemask v, d.ht0.bucket i, [(false, i)]⟩

theorem nextCursor_eq (k : Nat) (v : BitVec 64) : nextCursor (lowMask 64 k) v = succ k v := by
  rw [nextCursor, rev_eq_reverse, rev_eq_reverse, succ]

/-- The loop over the larger table, in the order of the indices. -/
theorem expansions_eq (h₀ : k₀ ≤ k₁) (h₁ : k₁ ≤ 64) (fuel : Nat) (v : BitVec 64)
    (hfuel : 2 ^ (k₁ - k₀) - mid k₀ k₁ v ≤ fuel) :
    (expansions (lowMask 64 k₀) (lowMask 64 k₁) fuel v).1 =
        (List.range' (mid k₀ k₁ v) (2 ^ (k₁ - k₀) - mid k₀ k₁ v)).map
          (fun c => 2 ^ k₀ * c + v.toNat % 2 ^ k₀) ∧
      (expansions (lowMask 64 k₀) (lowMask 64 k₁) fuel v).2.toNat % 2 ^ k₀ = v.toNat % 2 ^ k₀ := by
  have hlt := mid_lt k₀ k₁ v
  induction fuel generalizing v with
  | zero => omega
  | succ fuel ih =>
    have hstep : (((v ||| lowMask 64 k₀) + 1) &&& ~~~lowMask 64 k₀) ||| (v &&& lowMask 64 k₀) =
        stepUp k₀ v := rfl
    have hindex : (v &&& lowMask 64 k₁).toNat = 2 ^ k₀ * mid k₀ k₁ v + v.toNat % 2 ^ k₀ := by
      rw [toNat_and_lowMask h₁, toNat_mod_eq h₀]
    have hmid := mid_stepUp h₀ h₁ v
    have hlow := stepUp_mod (k := k₀) (by omega) v
    obtain ⟨n, hn⟩ : ∃ n, 2 ^ (k₁ - k₀) - mid k₀ k₁ v = n + 1 :=
      ⟨_, (Nat.succ_pred (by omega)).symm⟩
    rw [expansions, hstep, hindex, hn, range'_succ, map_cons]
    simp only [and_xor_eq_zero_iff h₀ h₁, hmid]
    by_cases hlast : mid k₀ k₁ v + 1 = 2 ^ (k₁ - k₀)
    · -- the last index
      obtain rfl : n = 0 := by omega
      rw [hlast, Nat.mod_self, if_pos rfl]
      exact ⟨rfl, hlow⟩
    · have hnext : (mid k₀ k₁ v + 1) % 2 ^ (k₁ - k₀) = mid k₀ k₁ v + 1 :=
        Nat.mod_eq_of_lt (by omega)
      rw [hnext, if_neg (by omega)]
      rw [hnext] at hmid
      obtain ⟨hlist, hcursor⟩ := ih (stepUp k₀ v) (by omega) (by omega)
      rw [hmid, hlow, show 2 ^ (k₁ - k₀) - (mid k₀ k₁ v + 1) = n by omega] at hlist
      exact ⟨by rw [hlist], by rw [hcursor, hlow]⟩

/-! ## One call -/

/-- The bits of the cursor between the two masks. -/
def middle (d : Dict K V) (v : BitVec 64) : Nat :=
  v.toNat / min d.ht0.size d.ht1.size % (max d.ht0.size d.ht1.size / min d.ht0.size d.ht1.size)

/-- While rehashing, these bits are ones and then zeros. -/
def cursorOk (d : Dict K V) (v : BitVec 64) : Bool :=
  !d.isRehashing || (middle d v + 1) &&& middle d v == 0

variable {hash : K → BitVec 64}

/-- The sizes of the two tables while rehashing. -/
theorem exists_sizes (h : d.Ok hash) (hre : d.isRehashing = true) :
    ∃ k₀ k₁, k₀ ≤ 63 ∧ k₁ ≤ 63 ∧ d.ht0.size = 2 ^ k₀ ∧ d.ht1.size = 2 ^ k₁ := by
  obtain ⟨r, hr⟩ := Option.isSome_iff_exists.1 hre
  obtain ⟨hsize0, hsize1, -⟩ := h.rehashing r hr
  obtain ⟨k₀, hk₀, h₀⟩ := h.ht0.size.resolve_left hsize0
  obtain ⟨k₁, hk₁, h₁⟩ := h.ht1.size.resolve_left hsize1
  exact ⟨k₀, k₁, hk₀, hk₁, h₀, h₁⟩

theorem middle_eq (hk : k₀ ≤ k₁) (hmin : min d.ht0.size d.ht1.size = 2 ^ k₀)
    (hmax : max d.ht0.size d.ht1.size = 2 ^ k₁) (v : BitVec 64) : middle d v = mid k₀ k₁ v := by
  rw [middle, hmin, hmax, mid, Nat.pow_div hk (by omega)]

theorem isPowerOfTwo_of_and {c : Nat} (h : (c + 1) &&& c = 0) : (c + 1).isPowerOfTwo :=
  (Nat.and_sub_one_eq_zero_iff_isPowerOfTwo (Nat.succ_ne_zero c)).1 (by simpa using h)

/-- An entry in the bucket of its hash. -/
theorem mem_bucket {t : Dictht K V} (ht : t.Ok hash) (hk : k ≤ 63) (hsize : t.size = 2 ^ k)
    (he : e ∈ t.entries) : e ∈ t.bucket ((hash e.1).toNat % 2 ^ k) := by
  obtain ⟨i, hi⟩ := mem_entries.1 he
  have hplaced := ht.placed i e hi
  rw [index_eq hk hsize] at hplaced
  rw [hplaced]
  exact hi

theorem scanBoth_cursor (h₀ : k₀ ≤ k₁) (h₁ : k₁ ≤ 63) (hsize0 : t0.size = 2 ^ k₀)
    (hsize1 : t1.size = 2 ^ k₁) (b0 b1 : Bool) (v : BitVec 64) :
    (scanBoth t0 t1 b0 b1 v).cursor = succ k₀ v := by
  have hpos := Nat.two_pow_pos (k₁ - k₀)
  have hle : 2 ^ (k₁ - k₀) ≤ 2 ^ k₁ := Nat.pow_le_pow_right (by omega) (by omega)
  have hcursor := (expansions_eq h₀ (by omega) t1.size v (by rw [hsize1]; omega)).2
  unfold scanBoth
  dsimp only
  rw [sizemask_eq hsize0, sizemask_eq hsize1, nextCursor_eq]
  -- the next cursor depends on the low bits alone
  apply rank_inj
  rw [rank_succ (by omega), rank_succ (by omega), (rank_div_eq_iff (by omega)).2 hcursor]

/-- A call while rehashing emits what it has to: the entries in the interval of the cursor
that are not before it. -/
theorem mem_scanBoth (ht0 : t0.Ok hash) (ht1 : t1.Ok hash) (h₀ : k₀ ≤ k₁) (h₁ : k₁ ≤ 63)
    (hsize0 : t0.size = 2 ^ k₀) (hsize1 : t1.size = 2 ^ k₁) (hones : (mid k₀ k₁ v + 1).isPowerOfTwo)
    (he : e ∈ t0.entries ∨ e ∈ t1.entries) (hlow : (hash e.1).toNat % 2 ^ k₀ = v.toNat % 2 ^ k₀)
    (hrank : rank v ≤ rank (hash e.1)) (b0 b1 : Bool) : e ∈ (scanBoth t0 t1 b0 b1 v).emitted := by
  have hpos := Nat.two_pow_pos (k₁ - k₀)
  have hle : 2 ^ (k₁ - k₀) ≤ 2 ^ k₁ := Nat.pow_le_pow_right (by omega) (by omega)
  unfold scanBoth
  rw [sizemask_eq hsize0, sizemask_eq hsize1, mem_append]
  obtain he | he := he
  · left
    rw [toNat_and_lowMask (by omega), ← hlow]
    exact mem_bucket ht0 (by omega) hsize0 he
  · right
    have hmid := mid_le_of_rank_le h₀ (by omega) hones hlow hrank
    have hlt := mid_lt k₀ k₁ (hash e.1)
    rw [(expansions_eq h₀ (by omega) t1.size v (by rw [hsize1]; omega)).1]
    refine mem_flatMap.2 ⟨(hash e.1).toNat % 2 ^ k₁, ?_, mem_bucket ht1 h₁ hsize1 he⟩
    refine mem_map.2 ⟨mid k₀ k₁ (hash e.1), mem_range'_1.2 ⟨hmid, by omega⟩, ?_⟩
    rw [← hlow, ← toNat_mod_eq h₀]

/-- A call emits every entry from the cursor up to the next one. -/
theorem mem_dictScan (h : d.Ok hash) (hv : cursorOk d v = true) (he : e ∈ d.entries)
    (hrank : rank v ≤ rank (hash e.1))
    (hnext : (dictScan d v).cursor = 0 ∨ rank (hash e.1) < rank (dictScan d v).cursor) :
    e ∈ (dictScan d v).emitted := by
  have hused : d.dictSize ≠ 0 := by
    intro hzero
    have h0 := h.ht0.used
    have h1 := h.ht1.used
    have hlen : d.entries.length = 0 := by
      rw [Dict.entries, length_append, ← h0, ← h1]
      exact hzero
    rw [length_eq_zero_iff.1 hlen] at he
    cases he
  unfold dictScan at hnext ⊢
  rw [if_neg hused] at hnext ⊢
  cases hre : d.isRehashing with
  | true =>
    rw [hre, if_pos rfl] at hnext
    rw [if_pos rfl]
    obtain ⟨k₀, k₁, hk₀, hk₁, hsize0, hsize1⟩ := exists_sizes h hre
    have hcursor : (middle d v + 1) &&& middle d v = 0 := by
      simpa [cursorOk, hre] using hv
    by_cases hgt : d.ht0.size > d.ht1.size
    · -- the table shrinks: the second one is the smaller
      have hle : k₁ ≤ k₀ := by
        rw [hsize0, hsize1] at hgt
        exact Nat.le_of_lt ((Nat.pow_lt_pow_iff_right (by omega)).1 hgt)
      rw [if_pos hgt] at hnext ⊢
      rw [scanBoth_cursor hle hk₀ hsize1 hsize0] at hnext
      rw [middle_eq hle (by rw [Nat.min_eq_right (by omega), hsize1])
        (by rw [Nat.max_eq_left (by omega), hsize0])] at hcursor
      exact mem_scanBoth h.ht1 h.ht0 hle hk₀ hsize1 hsize0 (isPowerOfTwo_of_and hcursor)
        ((mem_dict_entries.1 he).symm) (mod_eq_of_rank_between (by omega) hrank hnext) hrank _ _
    · have hle : k₀ ≤ k₁ := by
        rw [hsize0, hsize1] at hgt
        exact (Nat.pow_le_pow_iff_right (by omega)).1 (Nat.le_of_not_lt hgt)
      rw [if_neg hgt] at hnext ⊢
      rw [scanBoth_cursor hle hk₁ hsize0 hsize1] at hnext
      rw [middle_eq hle (by rw [Nat.min_eq_left (by omega), hsize0])
        (by rw [Nat.max_eq_right (by omega), hsize1])] at hcursor
      exact mem_scanBoth h.ht0 h.ht1 hle hk₁ hsize0 hsize1 (isPowerOfTwo_of_and hcursor)
        (mem_dict_entries.1 he) (mod_eq_of_rank_between (by omega) hrank hnext) hrank _ _
  | false =>
    rw [hre, if_neg (by simp)] at hnext
    rw [if_neg (by simp)]
    have hidle : d.rehashidx = none := by
      cases hr : d.rehashidx with
      | none => rfl
      | some r => simp [Dict.isRehashing, hr] at hre
    -- all entries are in the first table
    have he0 : e ∈ d.ht0.entries := by
      obtain he | he := mem_dict_entries.1 he
      · exact he
      · rw [entries_eq_nil_of_size (h.idle hidle)] at he
        cases he
    obtain hzero | ⟨k, hk, hsize⟩ := h.ht0.size
    · rw [entries_eq_nil_of_size hzero] at he0
      cases he0
    · dsimp only at hnext ⊢
      rw [sizemask_eq hsize] at hnext ⊢
      rw [nextCursor_eq] at hnext
      rw [toNat_and_lowMask (by omega), ← mod_eq_of_rank_between (by omega) hrank hnext]
      exact mem_bucket h.ht0 hk hsize he0

/-! ## Calls while the sizes stay the same -/

def Dict.sizes (d : Dict K V) : Nat × Nat := (d.ht0.size, d.ht1.size)

/-- The size of the smaller table, or of the only one. -/
def minSize (sizes : Nat × Nat) : Nat := if sizes.2 = 0 then sizes.1 else min sizes.1 sizes.2

def sizeOf (sizes : Nat × Nat) (b : Bool) : Nat := if b then sizes.2 else sizes.1

def allBuckets (sizes : Nat × Nat) : List (Bool × Nat) :=
  (List.range sizes.1).map (fun i => (false, i)) ++ (List.range sizes.2).map (fun i => (true, i))

theorem mem_allBuckets {sizes : Nat × Nat} {b : Bool} :
    (b, i) ∈ allBuckets sizes ↔ i < sizeOf sizes b := by
  cases b <;> simp [allBuckets, sizeOf]

theorem nodup_allBuckets (sizes : Nat × Nat) : (allBuckets sizes).Nodup := by
  refine nodup_append.2 ⟨?_, ?_, ?_⟩
  · exact nodup_range.map fun _ _ h => (Prod.mk.inj h).2
  · exact nodup_range.map fun _ _ h => (Prod.mk.inj h).2
  · intro a ha c hc heq
    obtain ⟨i, -, rfl⟩ := mem_map.1 ha
    obtain ⟨j, -, rfl⟩ := mem_map.1 hc
    cases heq

/-- The call, counted from 0, in which a bucket gets visited. -/
def turn (k i : Nat) : Nat := rank (BitVec.ofNat 64 i) / 2 ^ (64 - k)

theorem turn_lt (hk : k ≤ 63) (i : Nat) : turn k i < 2 ^ k := rank_div_lt (by omega) _

theorem turn_eq_iff {n : Nat} (hk : k ≤ 63) (hi : i < 2 ^ 63) (hv : rank v = n * 2 ^ (64 - k)) :
    turn k i = n ↔ i % 2 ^ k = v.toNat := by
  have hdiv : rank v / 2 ^ (64 - k) = n := by
    rw [hv, Nat.mul_div_cancel _ (Nat.two_pow_pos _)]
  have hmod : v.toNat % 2 ^ k = v.toNat := Nat.mod_eq_of_lt (toNat_lt_of_rank_eq (by omega) hv)
  have hnat : (BitVec.ofNat 64 i).toNat = i := by
    rw [BitVec.toNat_ofNat, Nat.mod_eq_of_lt (by omega)]
  rw [turn, ← hdiv, rank_div_eq_iff (by omega), hnat, hmod]

/-- The buckets of the larger table in one call. -/
theorem mem_expansions (h₀ : k₀ ≤ k₁) (h₁ : k₁ ≤ 63) (hv : v.toNat < 2 ^ k₀) :
    (expansions (lowMask 64 k₀) (lowMask 64 k₁) (2 ^ k₁) v).1.Nodup ∧
      ∀ i, i ∈ (expansions (lowMask 64 k₀) (lowMask 64 k₁) (2 ^ k₁) v).1 ↔
        i < 2 ^ k₁ ∧ i % 2 ^ k₀ = v.toNat := by
  have hpos := Nat.two_pow_pos k₀
  have hpow : 2 ^ k₁ = 2 ^ k₀ * 2 ^ (k₁ - k₀) := by rw [← Nat.pow_add, Nat.add_sub_cancel' h₀]
  have hle : 2 ^ (k₁ - k₀) ≤ 2 ^ k₁ := Nat.pow_le_pow_right (by omega) (by omega)
  have hmid : mid k₀ k₁ v = 0 := by rw [mid, Nat.div_eq_of_lt hv, Nat.zero_mod]
  rw [(expansions_eq h₀ (by omega) _ v (by rw [hmid]; omega)).1, hmid, Nat.mod_eq_of_lt hv]
  refine ⟨(nodup_range').map fun a c h => ?_, fun i => ?_⟩
  · exact Nat.eq_of_mul_eq_mul_left hpos (Nat.add_right_cancel h)
  · rw [mem_map]
    constructor
    · rintro ⟨c, hc, rfl⟩
      have hclt : c < 2 ^ (k₁ - k₀) := by
        have := (mem_range'_1.1 hc).2
        omega
      refine ⟨?_, by rw [Nat.mul_add_mod, Nat.mod_eq_of_lt hv]⟩
      calc 2 ^ k₀ * c + v.toNat < 2 ^ k₀ * c + 2 ^ k₀ := by omega
        _ = 2 ^ k₀ * (c + 1) := by rw [Nat.mul_succ]
        _ ≤ 2 ^ k₀ * 2 ^ (k₁ - k₀) := Nat.mul_le_mul_left _ hclt
        _ = 2 ^ k₁ := hpow.symm
    · rintro ⟨hlt, hmod⟩
      refine ⟨i / 2 ^ k₀, mem_range'_1.2 ⟨Nat.zero_le _, ?_⟩, ?_⟩
      · have : i / 2 ^ k₀ < 2 ^ (k₁ - k₀) := by
          rw [Nat.div_lt_iff_lt_mul hpos, Nat.mul_comm, ← hpow]
          exact hlt
        omega
      · rw [← hmod]
        exact Nat.div_add_mod i (2 ^ k₀)

/-- What a call visits, if it is the call number `n` of a scan with constant sizes: the
buckets whose turn it is. -/
structure Visits (sizes : Nat × Nat) (k n : Nat) (v : BitVec 64) (r : Scan K V) : Prop where
  cursor : r.cursor = succ k v
  nodup : r.buckets.Nodup
  mem : ∀ b i, (b, i) ∈ r.buckets ↔ i < sizeOf sizes b ∧ turn k i = n

theorem visits_scanBoth (h₀ : k₀ ≤ k₁) (h₁ : k₁ ≤ 63) (hsize0 : t0.size = 2 ^ k₀)
    (hsize1 : t1.size = 2 ^ k₁) {b0 b1 : Bool} (hb : b1 = !b0) {sizes : Nat × Nat}
    (hs0 : sizeOf sizes b0 = 2 ^ k₀) (hs1 : sizeOf sizes b1 = 2 ^ k₁) {n : Nat}
    (hv : rank v = n * 2 ^ (64 - k₀)) :
    Visits sizes k₀ n v (scanBoth t0 t1 b0 b1 v) := by
  have hlt := toNat_lt_of_rank_eq (k := k₀) (by omega) hv
  have hle63 : ∀ k, k ≤ 63 → 2 ^ k ≤ 2 ^ 63 := fun k hk => Nat.pow_le_pow_right (by omega) hk
  obtain ⟨hnodup, hmem⟩ := mem_expansions h₀ h₁ hlt
  have hbuckets : (scanBoth t0 t1 b0 b1 v).buckets = (b0, v.toNat) ::
      (expansions (lowMask 64 k₀) (lowMask 64 k₁) (2 ^ k₁) v).1.map fun j => (b1, j) := by
    unfold scanBoth
    dsimp only
    rw [sizemask_eq hsize0, sizemask_eq hsize1, toNat_and_lowMask (by omega), Nat.mod_eq_of_lt hlt,
      hsize1]
  have hne : b0 ≠ b1 := by
    rw [hb]
    cases b0 <;> decide
  refine ⟨scanBoth_cursor h₀ h₁ hsize0 hsize1 b0 b1 v, ?_, fun b i => ?_⟩
  · rw [hbuckets, nodup_cons]
    refine ⟨fun hin => ?_, hnodup.map fun _ _ h => (Prod.mk.inj h).2⟩
    obtain ⟨j, -, hj⟩ := mem_map.1 hin
    exact hne (Prod.mk.inj hj).1.symm
  · rw [hbuckets, mem_cons, mem_map]
    have hcases : b = b0 ∨ b = b1 := by
      rw [hb]
      cases b <;> cases b0 <;> decide
    obtain rfl | rfl := hcases
    · -- the smaller table: one bucket
      have h63 := hle63 k₀ (by omega)
      rw [hs0]
      constructor
      · rintro (heq | ⟨j, -, hj⟩)
        · obtain ⟨-, rfl⟩ := Prod.mk.inj heq
          exact ⟨hlt, (turn_eq_iff (by omega) (by omega) hv).2 (Nat.mod_eq_of_lt hlt)⟩
        · exact absurd (Prod.mk.inj hj).1.symm hne
      · rintro ⟨hi, hturn⟩
        have hmod := (turn_eq_iff (by omega) (by omega) hv).1 hturn
        rw [Nat.mod_eq_of_lt hi] at hmod
        exact .inl (by rw [hmod])
    · -- the larger one: all expansions
      have h63 := hle63 k₁ h₁
      rw [hs1]
      constructor
      · rintro (heq | ⟨j, hj, heq⟩)
        · exact absurd (Prod.mk.inj heq).1.symm hne
        · obtain ⟨-, rfl⟩ := Prod.mk.inj heq
          obtain ⟨hj1, hj2⟩ := (hmem j).1 hj
          exact ⟨hj1, (turn_eq_iff (by omega) (by omega) hv).2 hj2⟩
      · rintro ⟨hi, hturn⟩
        exact .inr ⟨i, (hmem i).2 ⟨hi, (turn_eq_iff (by omega) (by omega) hv).1 hturn⟩, rfl⟩

/-- The same for any dictionary that is not empty. -/
theorem visits_dictScan (h : d.Ok hash) (hused : d.dictSize ≠ 0) :
    ∃ k, k ≤ 63 ∧ minSize d.sizes = 2 ^ k ∧ ∀ n v, rank v = n * 2 ^ (64 - k) →
      Visits d.sizes k n v (dictScan d v) := by
  cases hre : d.isRehashing with
  | true =>
    obtain ⟨k₀, k₁, hk₀, hk₁, hsize0, hsize1⟩ := exists_sizes h hre
    have hne : d.ht1.size ≠ 0 := by
      rw [hsize1]
      exact (Nat.two_pow_pos k₁).ne'
    by_cases hgt : d.ht0.size > d.ht1.size
    · have hle : k₁ ≤ k₀ := by
        rw [hsize0, hsize1] at hgt
        exact Nat.le_of_lt ((Nat.pow_lt_pow_iff_right (by omega)).1 hgt)
      refine ⟨k₁, hk₁, ?_, fun n v hv => ?_⟩
      · show (if d.ht1.size = 0 then d.ht0.size else min d.ht0.size d.ht1.size) = _
        rw [if_neg hne, Nat.min_eq_right (by omega), hsize1]
      · rw [dictScan, if_neg hused, if_pos hre, if_pos hgt]
        have hs1 : sizeOf d.sizes true = 2 ^ k₁ := hsize1
        have hs0 : sizeOf d.sizes false = 2 ^ k₀ := hsize0
        exact visits_scanBoth hle hk₀ hsize1 hsize0 rfl hs1 hs0 hv
    · have hle : k₀ ≤ k₁ := by
        rw [hsize0, hsize1] at hgt
        exact (Nat.pow_le_pow_iff_right (by omega)).1 (Nat.le_of_not_lt hgt)
      refine ⟨k₀, hk₀, ?_, fun n v hv => ?_⟩
      · show (if d.ht1.size = 0 then d.ht0.size else min d.ht0.size d.ht1.size) = _
        rw [if_neg hne, Nat.min_eq_left (by omega), hsize0]
      · rw [dictScan, if_neg hused, if_pos hre, if_neg hgt]
        have hs0 : sizeOf d.sizes false = 2 ^ k₀ := hsize0
        have hs1 : sizeOf d.sizes true = 2 ^ k₁ := hsize1
        exact visits_scanBoth hle hk₁ hsize0 hsize1 rfl hs0 hs1 hv
  | false =>
    have hidle : d.ht1.size = 0 := h.idle (by
      cases hr : d.rehashidx with
      | none => rfl
      | some r => simp [Dict.isRehashing, hr] at hre)
    have hused1 : d.ht1.used = 0 := by rw [h.ht1.used, entries_eq_nil_of_size hidle]; rfl
    have hsize : d.ht0.size ≠ 0 := by
      intro hzero
      have hused0 : d.ht0.used = 0 := by rw [h.ht0.used, entries_eq_nil_of_size hzero]; rfl
      exact hused (by rw [Dict.dictSize, hused0, hused1])
    obtain ⟨k, hk, hpow⟩ := h.ht0.size.resolve_left hsize
    refine ⟨k, hk, ?_, fun n v hv => ?_⟩
    · show (if d.ht1.size = 0 then d.ht0.size else _) = _
      rw [if_pos hidle, hpow]
    · have hlt := toNat_lt_of_rank_eq (k := k) (by omega) hv
      have h63 : 2 ^ k ≤ 2 ^ 63 := Nat.pow_le_pow_right (by omega) hk
      rw [dictScan, if_neg hused, hre, if_neg (by simp), sizemask_eq hpow]
      refine ⟨nextCursor_eq k v, by simp, fun b i => ?_⟩
      dsimp only
      rw [mem_singleton, toNat_and_lowMask (by omega), Nat.mod_eq_of_lt hlt]
      cases b with
      | true =>
        have hno : ¬ i < d.ht1.size := by omega
        exact ⟨fun heq => (by cases heq), fun hi => absurd hi.1 hno⟩
      | false =>
        show _ ↔ i < d.ht0.size ∧ _
        rw [hpow]
        constructor
        · intro heq
          obtain ⟨-, rfl⟩ := Prod.mk.inj heq
          exact ⟨hlt, (turn_eq_iff hk (by omega) hv).2 (Nat.mod_eq_of_lt hlt)⟩
        · rintro ⟨hi, hturn⟩
          have hmod := (turn_eq_iff hk (by omega) hv).1 hturn
          rw [Nat.mod_eq_of_lt hi] at hmod
          rw [hmod]

/-! ## Scans -/

/-- Where a scan is: not begun, to be continued with a cursor, or at its end. -/
inductive Phase
  | idle
  | running (cursor : BitVec 64)
  | finished
  deriving DecidableEq

/-- A dictionary with its map, and the scan of a client: the keys that have been there since its
first call, the keys emitted, the buckets visited, the number of calls, the
sizes at the first call, and whether each call found these sizes and a dictionary that is
not empty. -/
structure Scanner (K V : Type) extends Mapped K V where
  phase : Phase
  present : List K
  emitted : List K
  visited : List (Bool × Nat)
  calls : Nat
  sizes : Nat × Nat
  steady : Bool

/-- A call of `dictScan`. -/
def Scanner.call (s : Scanner K V) (v : BitVec 64) : Scanner K V :=
  let r := dictScan s.dict v
  { s with
    phase := if r.cursor = 0 then .finished else .running r.cursor
    emitted := s.emitted ++ r.emitted.map Prod.fst
    visited := s.visited ++ r.buckets
    calls := s.calls + 1
    steady := s.steady && decide (s.dict.sizes = s.sizes ∧ s.dict.dictSize ≠ 0) }

/-- A scan begins. -/
def Scanner.begun (s : Scanner K V) : Scanner K V :=
  { s with
    present := s.dict.entries.map Prod.fst
    emitted := []
    visited := []
    calls := 0
    sizes := s.dict.sizes
    steady := true }

/-- The first call, with cursor 0. -/
def Scanner.start (s : Scanner K V) : Scanner K V := s.begun.call 0

/-- What can happen: a scan begins or goes on, or the dictionary is used. -/
inductive Act (K V : Type)
  | start
  | scan
  | op (op : MapOp K V)

section Next

variable [DecidableEq K] (hash)

/-- The keys that an operation leaves. -/
def leaves : MapOp K V → List K → List K
  | .delete key, keys => keys.filter (· ≠ key)
  | _, keys => keys

def Scanner.next (s : Scanner K V) : Act K V → Option (Scanner K V)
  | .start => some s.start
  | .scan =>
    match s.phase with
    | .running v => some (s.call v)
    | _ => none
  | .op op => (s.toMapped.next hash op).map fun m =>
    { s with toMapped := m, present := leaves op s.present }

/-- Dictionaries and their scans, from an empty dictionary on. -/
def scans : Lib.System (Scanner K V) (Act K V) where
  init s := (dicts hash).init s.toMapped ∧ s.phase = .idle ∧ s.present = [] ∧ s.steady = false
  next := Scanner.next hash

end Next

/-- A call that continues a scan finds its cursor in order, and any other one is permitted. -/
def inOrder (s : Scanner K V) : Act K V → Bool
  | .start => true
  | .scan =>
    match s.phase with
    | .running v => cursorOk s.dict v
    | _ => true
  | .op op => decide (Permitted s.toMapped op)

/-- While the sizes stay the same: which buckets were visited, and where the cursor is. -/
structure Steady (s : Scanner K V) (k : Nat) : Prop where
  small : k ≤ 63
  size : minSize s.sizes = 2 ^ k
  nodup : s.visited.Nodup
  mem : ∀ b i, (b, i) ∈ s.visited ↔ i < sizeOf s.sizes b ∧ turn k i < s.calls
  running : ∀ v, s.phase = .running v → s.calls < 2 ^ k ∧ rank v = s.calls * 2 ^ (64 - k)
  finished : s.phase = .finished → s.calls = 2 ^ k
  begun : s.phase ≠ .idle

variable (hash) in
/-- The invariant: what lies before the cursor has been emitted. -/
structure ScanInv (s : Scanner K V) : Prop where
  map : MapInv hash s.toMapped
  present : ∀ key ∈ s.present, (s.map key).isSome
  running : ∀ v, s.phase = .running v → ∀ key ∈ s.present, rank (hash key) < rank v →
    key ∈ s.emitted
  finished : s.phase = .finished → ∀ key ∈ s.present, key ∈ s.emitted
  steady : s.steady = true → ∃ k, Steady s k

variable {s : Scanner K V}

/-- What a call adds, for a cursor before which everything has been emitted. -/
theorem emitted_call (hmap : MapInv hash s.toMapped)
    (hpresent : ∀ key ∈ s.present, (s.map key).isSome) (hv : cursorOk s.dict v = true)
    (hbefore : ∀ key ∈ s.present, rank (hash key) < rank v → key ∈ s.emitted) {key : K}
    (hkey : key ∈ s.present)
    (hnext : (dictScan s.dict v).cursor = 0 ∨ rank (hash key) < rank (dictScan s.dict v).cursor) :
    key ∈ (s.call v).emitted := by
  refine mem_append.2 ?_
  by_cases hlt : rank (hash key) < rank v
  · exact .inl (hbefore key hkey hlt)
  · right
    obtain ⟨val, hval⟩ := Option.isSome_iff_exists.1 (hpresent key hkey)
    have hentry : (key, val) ∈ s.dict.entries := (hmap.represents.mem _).2 hval
    exact mem_map.2 ⟨(key, val), mem_dictScan hmap.ok hv hentry (by simpa using hlt) hnext, rfl⟩

/-- A call of a scan whose sizes have stayed the same. -/
theorem steady_call (hdict : s.dict.Ok hash) (hsizes : s.dict.sizes = s.sizes)
    (hused : s.dict.dictSize ≠ 0)
    (hbefore : ∀ k, k ≤ 63 → minSize s.sizes = 2 ^ k → s.visited.Nodup ∧
      (∀ b i, (b, i) ∈ s.visited ↔ i < sizeOf s.sizes b ∧ turn k i < s.calls) ∧
      s.calls < 2 ^ k ∧ rank v = s.calls * 2 ^ (64 - k)) :
    ∃ k, Steady (s.call v) k := by
  obtain ⟨k, hk, hmin, hvisits⟩ := visits_dictScan hdict hused
  rw [hsizes] at hmin hvisits
  obtain ⟨hnodup, hmem, hcalls, hrank⟩ := hbefore k hk hmin
  have hvisit := hvisits s.calls v hrank
  have hpos : 0 < 2 ^ (64 - k) := Nat.two_pow_pos _
  have hpow : 2 ^ 64 = 2 ^ k * 2 ^ (64 - k) := by
    rw [← Nat.pow_add, Nat.add_sub_cancel' (by omega)]
  -- the rank of the next cursor
  have hnext : rank (dictScan s.dict v).cursor = (s.calls + 1) * 2 ^ (64 - k) % 2 ^ 64 := by
    rw [hvisit.cursor, rank_succ (by omega), hrank, Nat.mul_div_cancel _ hpos]
  refine ⟨k, hk, hmin, ?_, fun b i => ?_, fun u hu => ?_, fun hend => ?_, ?_⟩
  · refine nodup_append.2 ⟨hnodup, hvisit.nodup, ?_⟩
    rintro ⟨b, i⟩ hold ⟨b', i'⟩ hnew heq
    obtain ⟨rfl, rfl⟩ := Prod.mk.inj heq
    have hlt := ((hmem b i).1 hold).2
    have hturn := ((hvisit.mem b i).1 hnew).2
    omega
  · show (b, i) ∈ s.visited ++ _ ↔ _ ∧ turn k i < s.calls + 1
    rw [mem_append, hmem, hvisit.mem, Nat.lt_succ_iff, Nat.le_iff_lt_or_eq]
    exact and_or_left.symm
  · have hphase : (if (dictScan s.dict v).cursor = 0 then Phase.finished
        else .running (dictScan s.dict v).cursor) = .running u := hu
    split at hphase
    · cases hphase
    · next hne =>
      obtain rfl : (dictScan s.dict v).cursor = u := by injection hphase
      have hlt : s.calls + 1 < 2 ^ k := by
        by_contra hge
        have hlast : s.calls + 1 = 2 ^ k := by omega
        rw [hlast, ← hpow, Nat.mod_self] at hnext
        exact hne (rank_inj (hnext.trans rank_zero.symm))
      refine ⟨hlt, ?_⟩
      rw [hnext, Nat.mod_eq_of_lt]
      · rfl
      · rw [hpow]
        exact Nat.mul_lt_mul_of_pos_right hlt hpos
  · have hphase : (if (dictScan s.dict v).cursor = 0 then Phase.finished
        else .running (dictScan s.dict v).cursor) = .finished := hend
    split at hphase
    · next hzero =>
      rw [hzero, rank_zero, hpow, Nat.mul_mod_mul_right] at hnext
      show s.calls + 1 = 2 ^ k
      by_contra hne
      rw [Nat.mod_eq_of_lt (by omega)] at hnext
      exact absurd hnext (Nat.ne_of_lt (Nat.mul_pos (Nat.succ_pos s.calls) hpos))
    · cases hphase
  · show (if _ then Phase.finished else _) ≠ _
    split <;> exact fun h => by cases h

/-- A call keeps the invariant. -/
theorem scanInv_call (hmap : MapInv hash s.toMapped)
    (hpresent : ∀ key ∈ s.present, (s.map key).isSome) (hv : cursorOk s.dict v = true)
    (hbefore : ∀ key ∈ s.present, rank (hash key) < rank v → key ∈ s.emitted)
    (hsteady : s.steady = true → ∀ k, k ≤ 63 → minSize s.sizes = 2 ^ k → s.visited.Nodup ∧
      (∀ b i, (b, i) ∈ s.visited ↔ i < sizeOf s.sizes b ∧ turn k i < s.calls) ∧
      s.calls < 2 ^ k ∧ rank v = s.calls * 2 ^ (64 - k)) :
    ScanInv hash (s.call v) := by
  refine ⟨hmap, hpresent, fun u hu key hkey hlt => ?_, fun hend key hkey => ?_, fun hst => ?_⟩
  · have hphase : (if (dictScan s.dict v).cursor = 0 then Phase.finished
        else .running (dictScan s.dict v).cursor) = .running u := hu
    split at hphase
    · cases hphase
    · obtain rfl : (dictScan s.dict v).cursor = u := by injection hphase
      exact emitted_call hmap hpresent hv hbefore hkey (.inr hlt)
  · have hphase : (if (dictScan s.dict v).cursor = 0 then Phase.finished
        else .running (dictScan s.dict v).cursor) = .finished := hend
    split at hphase
    · next hzero => exact emitted_call hmap hpresent hv hbefore hkey (.inl hzero)
    · cases hphase
  · have hboth : s.steady = true ∧ (s.dict.sizes = s.sizes ∧ s.dict.dictSize ≠ 0) := by
      have hst' : (s.steady && decide (s.dict.sizes = s.sizes ∧ s.dict.dictSize ≠ 0)) = true := hst
      rwa [Bool.and_eq_true, decide_eq_true_eq] at hst'
    exact steady_call hmap.ok hboth.2.1 hboth.2.2 (hsteady hboth.1)

theorem cursorOk_zero (d : Dict K V) : cursorOk d 0 = true := by
  simp [cursorOk, middle]

/-- So does the first one, whatever was before. -/
theorem scanInv_start (hmap : MapInv hash s.toMapped) : ScanInv hash s.start := by
  refine scanInv_call (s := s.begun) hmap (fun key hkey => ?_) (cursorOk_zero _)
    (fun key _ hlt => ?_) fun _ k _ _ => ⟨nodup_nil, fun b i => ?_, Nat.two_pow_pos k, ?_⟩
  · obtain ⟨e, he, rfl⟩ := mem_map.1 hkey
    exact Option.isSome_iff_exists.2 ⟨e.2, (hmap.represents.mem e).1 he⟩
  · rw [rank_zero] at hlt
    exact absurd hlt (Nat.not_lt_zero _)
  · exact ⟨(fun h => by cases h), fun h => absurd h.2 (Nat.not_lt_zero _)⟩
  · show rank 0 = 0 * 2 ^ (64 - k)
    rw [rank_zero, Nat.zero_mul]

section Steps

variable [DecidableEq K]

variable {s : Scanner K V}

theorem mem_of_leaves {op : MapOp K V} {keys : List K} {key : K} (h : key ∈ leaves op keys) :
    key ∈ keys := by
  cases op with
  | delete k => exact (mem_filter.1 h).1
  | _ => exact h

/-- An operation leaves the key in the map, unless it deletes it. -/
theorem isSome_map_next {m m' : Mapped K V} {op : MapOp K V} (hstep : m.next hash op = some m')
    {keys : List K} {key : K} (hkey : key ∈ leaves op keys) (h : (m.map key).isSome) :
    (m'.map key).isSome := by
  have hupdate : ∀ k val, (update m.map k (some val) key).isSome := by
    intro k val
    by_cases heq : key = k
    · rw [heq, update_self]
      rfl
    · rwa [update_of_ne heq]
  have haddTo : ∀ k val, (addTo m.map k val key).isSome := by
    intro k val
    unfold addTo
    split
    · exact hupdate k val
    · exact h
  cases op with
  | add k val | addOrFind k val =>
    obtain ⟨-, ⟨⟩⟩ := Option.ite_none_right_eq_some.1 hstep
    exact haddTo k val
  | replace k val =>
    obtain ⟨-, ⟨⟩⟩ := Option.ite_none_right_eq_some.1 hstep
    exact hupdate k val
  | delete k =>
    cases hstep
    have hne : key ≠ k := of_decide_eq_true (mem_filter.1 hkey).2
    show (update m.map k none key).isSome
    rwa [update_of_ne hne]
  | find | expand | resize | rehash | setResize | setExpandMaxIdle | setIterators =>
    cases hstep
    exact h

/-- A step that is not a call of a scan. -/
theorem ScanInv.op (h : ScanInv hash s) {op : MapOp K V} (hop : Permitted s.toMapped op)
    {m : Mapped K V} (hstep : s.toMapped.next hash op = some m) :
    ScanInv hash { s with toMapped := m, present := leaves op s.present } := by
  refine ⟨h.map.next hop hstep, fun key hkey => ?_, fun v hv key hkey => ?_,
    fun hend key hkey => ?_, fun hst => ?_⟩
  · exact isSome_map_next hstep hkey (h.present key (mem_of_leaves hkey))
  · exact h.running v hv key (mem_of_leaves hkey)
  · exact h.finished hend key (mem_of_leaves hkey)
  · obtain ⟨k, hk⟩ := h.steady hst
    exact ⟨k, hk.small, hk.size, hk.nodup, hk.mem, hk.running, hk.finished, hk.begun⟩

theorem scanInv_step {s' : Scanner K V} (h : ScanInv hash s) {a : Act K V}
    (hok : inOrder s a = true) (hstep : s.next hash a = some s') : ScanInv hash s' := by
  cases a with
  | start =>
    cases hstep
    exact scanInv_start h.map
  | scan =>
    cases hphase : s.phase with
    | running v =>
      simp only [Scanner.next, hphase, Option.some.injEq] at hstep
      subst hstep
      refine scanInv_call h.map h.present ?_ (h.running v hphase) fun hst k hk hmin => ?_
      · simpa only [inOrder, hphase] using hok
      · obtain ⟨k', hsteady⟩ := h.steady hst
        obtain rfl : k' = k :=
          Nat.pow_right_injective (Nat.le_refl 2) (hsteady.size.symm.trans hmin)
        exact ⟨hsteady.nodup, hsteady.mem, hsteady.running v hphase⟩
    | idle => simp [Scanner.next, hphase] at hstep
    | finished => simp [Scanner.next, hphase] at hstep
  | op op =>
    obtain ⟨m, hm, rfl⟩ := Option.map_eq_some_iff.1 hstep
    exact h.op (of_decide_eq_true hok) hm

/-- What a scan promises. A scan at its end has emitted every key that was there from its
first call on. If all its calls found the same sizes and a dictionary with entries, it ends
with the call whose number is the size of the smaller table, and has then visited every
bucket exactly once. -/
structure Guarantee (s : Scanner K V) : Prop where
  emits : s.phase = .finished → ∀ key ∈ s.present, key ∈ s.emitted
  ends : s.steady = true → s.calls ≤ minSize s.sizes ∧
    (s.phase = .finished ↔ s.calls = minSize s.sizes)
  once : s.steady = true → s.phase = .finished → s.visited.Perm (allBuckets s.sizes)

omit [DecidableEq K] in
theorem guarantee_of_inv (h : ScanInv hash s) : Guarantee s := by
  refine ⟨h.finished, fun hst => ?_, fun hst hend => ?_⟩
  · obtain ⟨k, hk⟩ := h.steady hst
    rw [hk.size]
    cases hphase : s.phase with
    | idle => exact absurd hphase hk.begun
    | running v =>
      have hlt := (hk.running v hphase).1
      exact ⟨Nat.le_of_lt hlt, (fun hno => by cases hno), fun heq => absurd heq (Nat.ne_of_lt hlt)⟩
    | finished =>
      have hcalls := hk.finished hphase
      exact ⟨Nat.le_of_eq hcalls, fun _ => hcalls, fun _ => rfl⟩
  · obtain ⟨k, hk⟩ := h.steady hst
    refine (perm_ext_iff_of_nodup hk.nodup (nodup_allBuckets _)).2 fun ⟨b, i⟩ => ?_
    rw [hk.mem, mem_allBuckets, hk.finished hend]
    exact and_iff_left (turn_lt hk.small i)

theorem scanInv_init (h : (scans hash).init s) : ScanInv hash s := by
  obtain ⟨hmap, hphase, hpresent, hsteady⟩ := h
  refine ⟨mapInv_init hmap, fun key hkey => ?_, fun v hv => ?_, fun hend => ?_, fun hst => ?_⟩
  · rw [hpresent] at hkey
    cases hkey
  · rw [hphase] at hv
    cases hv
  · rw [hphase] at hend
    cases hend
  · rw [hsteady] at hst
    cases hst

/-- In every run in which each call of a scan that goes on finds its cursor in order, scans
keep their promise. -/
theorem scan_guarantee {s : Scanner K V}
    (h : (scans hash).Reachable (fun s a => inOrder s a = true) s) : Guarantee s := by
  have hinv : ScanInv hash s := by
    refine h.invariant (fun s hs => ?_) fun _ _ _ hinv hok hstep => scanInv_step hinv hok hstep
    exact scanInv_init hs
  exact guarantee_of_inv hinv

end Steps

/-- Keys that are numbers and their own hashes. -/
def numberHash (n : Nat) : BitVec 64 := BitVec.ofNat 64 n

/-- An empty dictionary without a scan. -/
def emptyScanner : Scanner Nat Unit := ⟨newMapped, .idle, [], [], [], 0, (0, 0), false⟩

theorem emptyScanner_init : (scans numberHash).init emptyScanner :=
  ⟨⟨rfl, rfl⟩, rfl, rfl, rfl⟩

/-- A table of four buckets is expanded to eight in the middle of a scan, and rehashed
after the third call; the keys 2 and 6 have the same bucket at first. -/
theorem scan_guarantee_expanding : ∃ s : Scanner Nat Unit,
    (scans numberHash).Reachable (fun s a => inOrder s a = true) s ∧
      s.phase = .finished ∧ s.present = [6, 2] ∧ Guarantee s := by
  have hrun : (((scans numberHash).runMeeting (fun s a => inOrder s a = true)
      emptyScanner [.op (.add 2 ()), .op (.add 6 ()), .start, .op (.expand 8), .scan, .scan,
        .op (.rehash 10), .scan, .scan]).any
          fun s => s.phase = .finished ∧ s.present = [6, 2]) = true := by decide +kernel
  obtain ⟨s, hs, hend⟩ := (Option.any_eq_true _ _).1 hrun
  have hreach := Lib.System.reachable_of_runMeeting (.init emptyScanner_init) hs
  obtain ⟨hphase, hpresent⟩ := of_decide_eq_true hend
  exact ⟨s, hreach, hphase, hpresent, scan_guarantee hreach⟩

/-- A table of sixteen buckets with the key 4. After the first call of a scan, which
returns the cursor 8, it starts to shrink to four buckets. The second call visits bucket 0
of the new table and the buckets 8 and 12 of the old one, and goes on to the cursor 2: the
scan ends without the key. -/
theorem scan_misses_key : ¬ ∀ s : Scanner Nat Unit,
    (scans numberHash).Reachable Lib.System.anyStep s →
      s.phase = .finished → ∀ key ∈ s.present, key ∈ s.emitted := by
  intro hall
  have hrun : (((scans numberHash).run emptyScanner [.op (.expand 16), .op (.add 4 ()),
      .start, .op .resize, .scan, .scan, .scan, .scan]).any fun s =>
        s.phase = .finished ∧ s.present = [4] ∧ s.emitted = []) = true := by decide +kernel
  obtain ⟨s, hs, hend⟩ := (Option.any_eq_true _ _).1 hrun
  have hreach := Lib.System.reachable_of_run (.init emptyScanner_init) hs
  obtain ⟨hphase, hpresent, hemitted⟩ := of_decide_eq_true hend
  have hkey := hall s hreach hphase 4 (by rw [hpresent]; exact mem_singleton_self 4)
  rw [hemitted] at hkey
  cases hkey

end XredisCrdt.Hash
