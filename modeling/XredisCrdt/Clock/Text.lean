import XredisCrdt.Clock.VectorClock

/-!
# Texts with separators

`sdssplitlen` takes a text apart at a separator; the texts it is used for are written
piece by piece with the separator between them. `sdssplitlen_intercalate` is the
round trip, and `sdsToVectorClock_vectorClockToSds` the one for clocks.
-/

namespace XredisCrdt.Clock

open List

/-! ## Splitting -/

theorem splitLoop_eq_modifyHead (sep : UInt8) (token s : Bytes) :
    splitLoop sep token s = (splitLoop sep [] s).modifyHead (token ++ ·) := by
  induction s generalizing token with
  | nil => simp [splitLoop]
  | cons b s ih =>
    by_cases hb : b = sep
    · simp [splitLoop, hb]
    · -- both tokens grow by `b`; what comes after does not depend on the token
      rw [splitLoop, if_neg hb, ih (token ++ [b]), splitLoop, if_neg hb, ih ([] ++ [b])]
      cases splitLoop sep [] s <;> simp

/-- The loop is the library's `List.splitOn`. -/
theorem splitLoop_eq_splitOn (sep : UInt8) (s : Bytes) : splitLoop sep [] s = s.splitOn sep := by
  induction s with
  | nil => rfl
  | cons b s ih =>
    rw [splitLoop, splitOn_cons_eq_if_modifyHead, ih, splitLoop_eq_modifyHead sep ([] ++ [b]), ih]
    simp

theorem sdssplitlen_eq_splitOn {s : Bytes} (sep : UInt8) (h : s ≠ []) :
    sdssplitlen s sep = s.splitOn sep := by
  rw [sdssplitlen, if_neg h, splitLoop_eq_splitOn]

/-- The loop that prints pieces: the first one, and then each with the separator before
it. -/
theorem intercalate_cons (sep : UInt8) (p : Bytes) (pieces : List Bytes) :
    [sep].intercalate (p :: pieces) = p ++ pieces.flatMap (sep :: ·) := by
  induction pieces generalizing p with
  | nil => simp
  | cons q pieces ih => rw [intercalate_cons_cons, ih, flatMap_cons]; simp

/-- Pieces that hold no separator are found again. Only an empty text is split into
nothing. -/
theorem sdssplitlen_intercalate {sep : UInt8} {pieces : List Bytes}
    (hsep : ∀ p ∈ pieces, sep ∉ p) (hne : [sep].intercalate pieces ≠ []) :
    sdssplitlen ([sep].intercalate pieces) sep = pieces := by
  have hpieces : pieces ≠ [] := by
    intro h
    exact hne (by rw [h]; rfl)
  rw [sdssplitlen_eq_splitOn sep hne, splitOn_intercalate sep hsep hpieces]

/-- The first piece ends at the first separator. -/
theorem sdssplitlen_cons {sep : UInt8} {p rest : Bytes} (h : sep ∉ p) :
    sdssplitlen (p ++ sep :: rest) sep = p :: rest.splitOn sep := by
  rw [sdssplitlen_eq_splitOn sep (by simp), splitOn_append_cons_self_of_not_mem h]

/-! ## Clocks -/

/-- A unit as `vectorClockToSds` prints it. -/
def unitText (u : ClockUnit) : Bytes := ll2string u.gid ++ 58 :: ll2string u.clock

/-- `vectorClockToSds`. -/
def vectorClockToSds (us : Units) : Bytes := [59].intercalate (us.map unitText)

theorem unitText_no_separator (u : ClockUnit) : (59 : UInt8) ∉ unitText u := by
  simp [unitText, not_mem_ll2string (b := 59) (by decide) (by decide)]

theorem unitText_ne_nil (u : ClockUnit) : unitText u ≠ [] := by simp [unitText]

theorem sdssplitlen_unitText (u : ClockUnit) :
    sdssplitlen (unitText u) 58 = [ll2string u.gid, ll2string u.clock] := by
  have hcolon : ∀ n : Nat, (58 : UInt8) ∉ ll2string n := fun n =>
    not_mem_ll2string (by decide) (by decide)
  rw [unitText, sdssplitlen_cons (hcolon _), splitOn_eq_singleton (hcolon _)]

/-- A unit that fits its bits is read back. -/
theorem sdsToVectorClockUnit_unitText {u : ClockUnit} (hgid : u.gid < 16)
    (hclock : u.clock < 2 ^ 56) : sdsToVectorClockUnit (unitText u) = some u := by
  have hmax : (llongMax : Int) = 9223372036854775807 := by decide
  simp only [sdsToVectorClockUnit, sdssplitlen_unitText]
  rw [string2ll_ll2string (by omega) (by omega), string2ll_ll2string (by omega) (by omega)]
  simp only [Option.bind_eq_bind, Option.bind_some, initClock, toClock_natCast hclock]
  rw [show ((u.gid : Int) % 16).toNat = u.gid by omega]

theorem sdssplitlen_vectorClockToSds (us : Units) :
    sdssplitlen (vectorClockToSds us) 59 = us.map unitText := by
  cases us with
  | nil => rfl
  | cons u us =>
    refine sdssplitlen_intercalate ?_ ?_
    · intro p hp
      obtain ⟨w, -, rfl⟩ := mem_map.1 hp
      exact unitText_no_separator w
    · rw [map_cons, intercalate_cons]
      simp [unitText_ne_nil]

theorem sdstrimNul_of_no_zero {s : Bytes} (h : (0 : UInt8) ∉ s) : sdstrimNul s = s := by
  have hne : ∀ b ∈ s, ¬ decide (b = 0) = true := fun b hb h0 => h (of_decide_eq_true h0 ▸ hb)
  have hdrop : s.dropWhile (· = 0) = s := by
    rw [dropWhile_eq_self_iff]
    intro hlen
    exact hne _ (getElem_mem hlen)
  rw [sdstrimNul, hdrop, rdropWhile_eq_self_iff]
  intro hnil
  exact hne _ (getLast_mem hnil)

theorem unitText_no_zero (u : ClockUnit) : (0 : UInt8) ∉ unitText u := by
  simp [unitText, not_mem_ll2string (b := 0) (by decide) (by decide)]

theorem trimLast_of_forall {trim : Bytes → Bytes} {texts : List Bytes}
    (h : ∀ t ∈ texts, t ≠ [] ∧ trim t = t) : trimLast trim texts = texts := by
  rcases eq_nil_or_concat' texts with rfl | ⟨init, last, rfl⟩
  · rfl
  · obtain ⟨hne, htrim⟩ := h last (by simp)
    simp only [trimLast, getLast?_concat, htrim, if_neg hne, dropLast_concat]

theorem unitTexts_vectorClockToSds (us : Units) :
    unitTexts (vectorClockToSds us) = us.map unitText := by
  rw [unitTexts, sdssplitlen_vectorClockToSds]
  apply trimLast_of_forall
  intro t ht
  obtain ⟨u, -, rfl⟩ := mem_map.1 ht
  exact ⟨unitText_ne_nil u, sdstrimNul_of_no_zero (unitText_no_zero u)⟩

/-- A reader of units reads back what is printed if it does so for each unit. -/
theorem mapM_unitText {read : Bytes → Option ClockUnit} {us : Units}
    (h : ∀ u ∈ us, read (unitText u) = some u) : (us.map unitText).mapM read = some us := by
  induction us with
  | nil => rfl
  | cons u us ih =>
    rw [map_cons, mapM_cons, h u (by simp), ih fun w hw => h w (by simp [hw])]
    rfl

/-- `sdsToVectorClock` reads back every clock that `vectorClockToSds` prints. -/
theorem sdsToVectorClock_vectorClockToSds (v : VectorClock) :
    sdsToVectorClock (vectorClockToSds v.units) = some v.units := by
  have hunits : (v.units.map unitText).mapM sdsToVectorClockUnit = some v.units :=
    mapM_unitText fun u hu => sdsToVectorClockUnit_unitText (v.bits u hu).2.1 (v.bits u hu).2.2
  simp only [sdsToVectorClock, unitTexts_vectorClockToSds, hunits, Option.bind_eq_bind,
    Option.bind_some, length_map, v.store_units]

end XredisCrdt.Clock
