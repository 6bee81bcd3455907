import XredisCrdt.Clock.Text

/-!
# The codecs on C strings, and texts from the wire

A clock has two writers and two readers: `vectorClockToSds` with `sdsToVectorClock`, and
`vectorClockToString` with `stringToVectorClock`, which works in a buffer of the caller
that `vectorClockToStringLen` measures. They agree on the texts of clocks
(`text_codecs`).

On other texts the reader relies on its callers: a unit that is not `gid:time`, or whose
gid is a multiple of 16, trips the assertion of `set_gid`, and nothing looks for a gid that
is named twice. `Readable` says which texts are read safely.
-/

namespace XredisCrdt.Clock

open Lib.Decimal List Option

/-! ## The source -/

/-- `strtok` over a whole text; it skips empty tokens. -/
def strtokLoop (sep : UInt8) : Bytes → Bytes → List Bytes
  | token, [] => if token = [] then [] else [token]
  | token, b :: bs =>
    if b = sep then
      if token = [] then strtokLoop sep [] bs else token :: strtokLoop sep [] bs
    else strtokLoop sep (token ++ [b]) bs

/-- `split`; `none` if there are more tokens than `dest` has room for. -/
def split (src : Bytes) (sep : UInt8) (room : Nat) : Option (List Bytes) :=
  let tokens := strtokLoop sep [] (cstr src)
  if tokens.length ≤ room then some tokens else none

def trim (str : Bytes) : Bytes := (str.dropWhile isspace).rdropWhile isspace

def stringToVectorClockUnit (vcUnitStr : Bytes) : Option ClockUnit := do
  match ← split vcUnitStr 58 2 with
  | [gid, time] => do
    let gid ← string2ll gid
    let time ← string2ll time
    some (initClock gid time)
  | _ => some ⟨0, 0⟩

/-- All units are cut out before the first one is read, so the state of `strtok` is free
again. -/
def stringToVectorClock (buf : Bytes) : Option Units := do
  let vcUnits ← split buf 59 32
  let vcUnits := trimLast trim vcUnits
  let us ← vcUnits.mapM stringToVectorClockUnit
  store vcUnits.length us

/-- The loop of `lllen`; the fuel bounds the number of digits. -/
def lllenLoop : Nat → Nat → Nat
  | 0, _ => 0
  | fuel + 1, v => 1 + if v / 10 = 0 then 0 else lllenLoop fuel (v / 10)

def lllen (v : Int) : Nat :=
  (if v < 0 then 1 else 0) + lllenLoop (v.natAbs.log2 + 1) v.natAbs

def vectorClockToStringLen : Units → Nat
  | [] => 0
  | u :: us => (if 10 ≤ u.gid then 3 else 2) + lllen u.clock +
      (us.map fun w => (if 10 ≤ w.gid then 4 else 3) + lllen w.clock).sum

/-- `sprintf(buf + pos, ..)`: the text and its terminator. -/
def sprintfAt (buf : Bytes) (pos : Nat) (text : Bytes) : Bytes :=
  buf.take pos ++ text ++ 0 :: buf.drop (pos + text.length + 1)

/-- The loop of `vectorClockToString`, with the buffer and `buflen`. -/
def toStringLoop : Units → Bytes × Nat → Bytes × Nat
  | [], acc => acc
  | u :: us, (buf, buflen) =>
    toStringLoop us (sprintfAt buf buflen (59 :: unitText u), buflen + (unitText u).length + 1)

/-- The buffer afterwards and the length returned. -/
def vectorClockToString (buf : Bytes) : Units → Bytes × Nat
  | [] => (sprintfAt buf 0 [], 0)
  | u :: us => toStringLoop us (sprintfAt buf 0 (unitText u), (unitText u).length)

/-! ## The writers -/

theorem lllenLoop_eq (fuel n : Nat) : lllenLoop fuel n = (digitsFuel fuel n).length := by
  induction fuel generalizing n with
  | zero => rfl
  | succ fuel ih =>
    rw [lllenLoop, digitsFuel]
    by_cases h : n < 10
    · rw [if_pos h, if_pos (Nat.div_eq_of_lt h)]
      rfl
    · rw [if_neg h, if_neg (by omega), ih, length_append]
      exact Nat.add_comm _ _

theorem lllen_natCast (n : Nat) : lllen n = (ll2string n).length := by
  have hn : ¬ (n : Int) < 0 := by omega
  rw [lllen, ll2string, if_neg hn, if_neg hn, Nat.zero_add, lllenLoop_eq]
  rfl

theorem length_ll2string_gid {g : Nat} (h : g < 16) :
    (ll2string g).length = if 10 ≤ g then 2 else 1 := by
  revert g
  decide

theorem unitText_length {u : ClockUnit} (h : u.gid < 16) :
    (unitText u).length = (if 10 ≤ u.gid then 3 else 2) + lllen u.clock := by
  rw [unitText, length_append, length_cons, length_ll2string_gid h, lllen_natCast]
  split <;> omega

theorem vectorClockToSds_cons (u : ClockUnit) (us : Units) :
    vectorClockToSds (u :: us) = unitText u ++ us.flatMap fun w => 59 :: unitText w := by
  rw [vectorClockToSds, map_cons, intercalate_cons, flatMap_map]

/-- The text is as long as the caller was told. -/
theorem vectorClockToStringLen_eq {us : Units} (h : ∀ u ∈ us, u.gid < 16) :
    vectorClockToStringLen us = (vectorClockToSds us).length := by
  cases us with
  | nil => rfl
  | cons u us =>
    rw [vectorClockToStringLen, vectorClockToSds_cons, length_append,
      unitText_length (h u (by simp)), length_flatMap]
    congr 2
    apply map_congr_left
    intro w hw
    rw [length_cons, unitText_length (h w (by simp [hw]))]
    split <;> omega

/-- Written behind the text that is there, the terminator moves along. -/
theorem sprintfAt_append (buf text more : Bytes) :
    sprintfAt (sprintfAt buf 0 text) text.length more = sprintfAt buf 0 (text ++ more) := by
  simp only [sprintfAt, take_zero, nil_append, Nat.zero_add]
  rw [take_left, append_assoc, append_assoc, length_append]
  congr 3
  rw [Nat.add_assoc, drop_append, drop_eq_nil_of_le (by omega), nil_append,
    show text.length + (more.length + 1) - text.length = more.length + 1 by omega,
    drop_succ_cons, drop_drop]
  congr 1
  omega

theorem toStringLoop_eq (buf text : Bytes) (us : Units) :
    toStringLoop us (sprintfAt buf 0 text, text.length) =
      (sprintfAt buf 0 (text ++ us.flatMap fun w => 59 :: unitText w),
        (text ++ us.flatMap fun w => 59 :: unitText w).length) := by
  induction us generalizing text with
  | nil => simp [toStringLoop]
  | cons u us ih =>
    have hlen : text.length + (unitText u).length + 1 = (text ++ 59 :: unitText u).length := by
      rw [length_append, length_cons, Nat.add_assoc]
    rw [toStringLoop, sprintfAt_append, hlen, ih, flatMap_cons, append_assoc]

/-- Both writers print the same text; behind it and its terminator the buffer is left. -/
theorem vectorClockToString_eq (buf : Bytes) (us : Units) : vectorClockToString buf us =
      (vectorClockToSds us ++ 0 :: buf.drop ((vectorClockToSds us).length + 1),
        (vectorClockToSds us).length) := by
  have hzero : ∀ text, sprintfAt buf 0 text = text ++ 0 :: buf.drop (text.length + 1) := by
    intro text
    simp [sprintfAt]
  cases us with
  | nil => rfl
  | cons u us => rw [vectorClockToString, toStringLoop_eq, ← vectorClockToSds_cons, hzero]

/-! ## The readers -/

/-- `strtok` finds the pieces of `sdssplitlen` that are not empty. -/
theorem strtokLoop_eq_filter (sep : UInt8) (token s : Bytes) :
    strtokLoop sep token s = (splitLoop sep token s).filter (· ≠ []) := by
  induction s generalizing token with
  | nil => by_cases h : token = [] <;> simp [strtokLoop, splitLoop, h]
  | cons b s ih =>
    rw [strtokLoop, splitLoop]
    split_ifs with hb htoken
    · rw [ih, htoken]
      rfl
    · rw [ih, filter_cons_of_pos (by simpa using htoken)]
    · exact ih _

/-- Where no piece is empty the two ways of splitting agree. -/
theorem split_eq {s : Bytes} {sep : UInt8} {room : Nat} {pieces : List Bytes}
    (hzero : (0 : UInt8) ∉ s) (hsplit : sdssplitlen s sep = pieces) (hne : ∀ p ∈ pieces, p ≠ [])
    (hroom : pieces.length ≤ room) : split s sep room = some pieces := by
  have htokens : strtokLoop sep [] s = pieces := by
    rw [strtokLoop_eq_filter]
    by_cases hs : s = []
    · subst hs
      rw [← hsplit]
      rfl
    · rw [sdssplitlen, if_neg hs] at hsplit
      rw [hsplit, filter_eq_self]
      intro p hp
      exact decide_eq_true (hne p hp)
  unfold split
  rw [cstr_of_no_zero hzero, htokens]
  exact if_pos hroom

theorem isspace_isDigit {b : UInt8} (h : IsDigit b) : isspace b = false := by
  obtain ⟨hlo, hhi⟩ := h
  unfold isspace
  simp only [decide_eq_false_iff_not, not_or, not_and, UInt8.le_iff_toNat_le, ← UInt8.toNat_inj]
  constructor
  · intro h
    simp at h
    omega
  · intro _ h
    simp at h
    omega

theorem ll2string_natCast (n : Nat) : ll2string n = digits n := by
  have hn : ¬ (n : Int) < 0 := by omega
  rw [ll2string, if_neg hn]
  rfl

theorem mem_unitText {u : ClockUnit} {b : UInt8} (h : b ∈ unitText u) : IsDigit b ∨ b = 58 := by
  rw [unitText, ll2string_natCast, ll2string_natCast, mem_append, mem_cons] at h
  rcases h with h | rfl | h
  · exact .inl (digits_isDigit h)
  · exact .inr rfl
  · exact .inl (digits_isDigit h)

theorem trim_unitText (u : ClockUnit) : trim (unitText u) = unitText u := by
  have hspace : ∀ b ∈ unitText u, ¬ isspace b = true := by
    intro b hb
    rcases mem_unitText hb with hdigit | rfl
    · simp [isspace_isDigit hdigit]
    · decide
  have hdrop : (unitText u).dropWhile isspace = unitText u := by
    rw [dropWhile_eq_self_iff]
    intro hlen
    exact hspace _ (getElem_mem hlen)
  rw [trim, hdrop, rdropWhile_eq_self_iff]
  intro hnil
  exact hspace _ (getLast_mem hnil)

theorem stringToVectorClockUnit_unitText {u : ClockUnit} (hgid : u.gid < 16)
    (hclock : u.clock < 2 ^ 56) : stringToVectorClockUnit (unitText u) = some u := by
  have hsplit : split (unitText u) 58 2 = some [ll2string u.gid, ll2string u.clock] := by
    apply split_eq (unitText_no_zero u) (sdssplitlen_unitText u) ?_ (by simp)
    intro p hp
    rcases mem_pair.1 hp with rfl | rfl
    · exact ll2string_ne_nil _
    · exact ll2string_ne_nil _
  -- from here on the two readers do the same
  have hsds := sdsToVectorClockUnit_unitText hgid hclock
  rw [sdsToVectorClockUnit, sdssplitlen_unitText] at hsds
  rw [stringToVectorClockUnit, hsplit]
  exact hsds

theorem vectorClockToSds_no_zero (us : Units) : (0 : UInt8) ∉ vectorClockToSds us := by
  cases us with
  | nil => simp [vectorClockToSds]
  | cons u us =>
    rw [vectorClockToSds_cons, mem_append, mem_flatMap]
    rintro (h | ⟨w, -, h⟩)
    · exact unitText_no_zero u h
    · rcases mem_cons.1 h with h | h
      · exact absurd h (by decide)
      · exact unitText_no_zero w h

theorem stringToVectorClock_vectorClockToSds (v : VectorClock) :
    stringToVectorClock (vectorClockToSds v.units) = some v.units := by
  have hlen := v.length_lt
  have hsplit : split (vectorClockToSds v.units) 59 32 = some (v.units.map unitText) := by
    apply split_eq (vectorClockToSds_no_zero _) (sdssplitlen_vectorClockToSds _)
    · intro p hp
      obtain ⟨u, -, rfl⟩ := mem_map.1 hp
      exact unitText_ne_nil u
    · rw [length_map]
      omega
  have htrim : trimLast trim (v.units.map unitText) = v.units.map unitText := by
    apply trimLast_of_forall
    intro t ht
    obtain ⟨u, -, rfl⟩ := mem_map.1 ht
    exact ⟨unitText_ne_nil u, trim_unitText u⟩
  have hunits : (v.units.map unitText).mapM stringToVectorClockUnit = some v.units :=
    mapM_unitText fun u hu =>
      stringToVectorClockUnit_unitText (v.bits u hu).2.1 (v.bits u hu).2.2
  simp only [stringToVectorClock, hsplit, htrim, hunits, bind_eq_bind, bind_some,
    length_map, v.store_units]

/-- The reader of C strings stops at the terminator. -/
theorem stringToVectorClock_append_zero {text rest : Bytes} (h : (0 : UInt8) ∉ text) :
    stringToVectorClock (text ++ 0 :: rest) = stringToVectorClock text := by
  have hcstr : cstr (text ++ 0 :: rest) = cstr text := by
    have hall : ∀ b ∈ text, decide (b ≠ 0) = true := fun b hb =>
      decide_eq_true fun h0 => h (h0 ▸ hb)
    rw [cstr_of_no_zero h, cstr, takeWhile_append_of_pos hall]
    simp
  unfold stringToVectorClock split
  rw [hcstr]

/-- Both readers read back what both writers print, which is one text, in whatever buffer
it is written. The buffer has to hold the bytes that `vectorClockToStringLen` tells and the
terminator, and what lies behind is not touched. -/
theorem text_codecs (v : VectorClock) (buf : Bytes) :
    sdsToVectorClock (vectorClockToSds v.units) = some v.units ∧
    stringToVectorClock (vectorClockToString buf v.units).1 = some v.units ∧
    (vectorClockToString buf v.units).1 =
      vectorClockToSds v.units ++ 0 :: buf.drop (vectorClockToStringLen v.units + 1) ∧
    stringToVectorClock (vectorClockToSds v.units) = sdsToVectorClock (vectorClockToSds v.units) ∧
    (vectorClockToString buf v.units).2 = vectorClockToStringLen v.units ∧
    vectorClockToStringLen v.units = (vectorClockToSds v.units).length := by
  have hlen := vectorClockToStringLen_eq fun u hu => (v.bits u hu).2.1
  have hsds := sdsToVectorClock_vectorClockToSds v
  have hstring := stringToVectorClock_vectorClockToSds v
  rw [vectorClockToString_eq, hlen]
  refine ⟨hsds, ?_, rfl, hstring.trans hsds.symm, rfl, rfl⟩
  rw [stringToVectorClock_append_zero (vectorClockToSds_no_zero _)]
  exact hstring

/-! ## Texts from the wire -/

/-- `sdsToVectorClockUnit` on any text. Where `string2ll` fails, `ll_gid` and `ll_time` keep
the values `unset` that they happen to have. -/
def readUnit (unset : Int × Int) (s : Bytes) : ClockUnit :=
  match sdssplitlen s 58 with
  | [gid, time] => initClock ((string2ll gid).getD unset.1) ((string2ll time).getD unset.2)
  | _ => ⟨0, 0⟩

/-- `sdsToVectorClock` on any text; `none` if an assertion fires. -/
def readClock (unset : Nat → Int × Int) (s : Bytes) : Option Units :=
  store (unitTexts s).length ((unitTexts s).mapIdx fun i text => readUnit (unset i) text)

theorem readUnit_of_some {text : Bytes} {u : ClockUnit} (h : sdsToVectorClockUnit text = some u)
    (unset : Int × Int) : readUnit unset text = u := by
  unfold sdsToVectorClockUnit at h
  unfold readUnit
  rcases hsplit : sdssplitlen text 58 with _ | ⟨gid, _ | ⟨time, _ | ⟨_, _⟩⟩⟩
  all_goals rw [hsplit] at h
  case cons.cons.nil =>
    obtain ⟨g, hg, h⟩ := bind_eq_some_iff.1 h
    obtain ⟨t, ht, h⟩ := bind_eq_some_iff.1 h
    simp only [hg, ht, getD_some]
    exact some.inj h
  all_goals exact some.inj h

/-- Where `sdsToVectorClock` has a value, no variable was read that was not set, and this is
the value. -/
theorem readClock_of_some {s : Bytes} {us : Units} (h : sdsToVectorClock s = some us)
    (unset : Nat → Int × Int) : readClock unset s = some us := by
  obtain ⟨vs, hvs, hstore⟩ := bind_eq_some_iff.1 h
  have hunits : ∀ (texts : List Bytes) (vs : Units) (unset : Nat → Int × Int),
      texts.mapM sdsToVectorClockUnit = some vs →
        texts.mapIdx (fun i text => readUnit (unset i) text) = vs := by
    intro texts
    induction texts with
    | nil =>
      intro vs unset hvs
      exact some.inj hvs
    | cons text texts ih =>
      intro vs unset hvs
      rw [List.mapM_cons] at hvs
      obtain ⟨u, hu, hvs⟩ := bind_eq_some_iff.1 hvs
      obtain ⟨vs', hvs', hcons⟩ := bind_eq_some_iff.1 hvs
      obtain rfl := some.inj hcons
      rw [mapIdx_cons, readUnit_of_some hu, ih vs' (fun i => unset (i + 1)) hvs']
  rw [readClock, hunits _ vs unset hvs]
  exact hstore

/-- The gid that a text for a unit leaves in its four bits, if it is a number. -/
def textGid (text : Bytes) : Option Nat :=
  match sdssplitlen text 58 with
  | [gid, _] => (string2ll gid).map fun n => (n % 16).toNat
  | _ => none

/-- Each unit has the form `gid:time` with a number for the gid, no gid is a multiple of 16,
and no two are equal modulo 16. -/
def Readable (s : Bytes) : Prop :=
  (∀ text ∈ unitTexts s, ∃ g, textGid text = some g ∧ 0 < g) ∧
    ((unitTexts s).map textGid).Nodup

/-- Whatever the variables hold that were not set, the text is read as a clock. -/
def SafelyRead (s : Bytes) : Prop := ∀ unset, ∃ v : VectorClock, readClock unset s = some v.units

theorem readUnit_gid_of_some {text : Bytes} {g : Nat} (h : textGid text = some g)
    (unset : Int × Int) : (readUnit unset text).gid = g := by
  unfold textGid at h
  split at h
  · rename_i gid time hsplit
    obtain ⟨n, hn, rfl⟩ := map_eq_some_iff.1 h
    rw [readUnit, hsplit]
    simp only [hn, getD_some]
    rfl
  · cases h

/-- A text without a gid can leave the zero that `set_gid` refuses. -/
theorem readUnit_gid_of_none {text : Bytes} (h : textGid text = none) (t : Int) :
    (readUnit (0, t) text).gid = 0 := by
  unfold textGid at h
  unfold readUnit
  split
  · rename_i gid time hsplit
    rw [hsplit] at h
    rw [map_eq_none_iff.1 h]
    rfl
  · rfl

theorem readUnit_bits (unset : Int × Int) (text : Bytes) :
    (readUnit unset text).gid < 16 ∧ (readUnit unset text).clock < 2 ^ 56 := by
  unfold readUnit
  split
  · refine ⟨?_, toClock_lt _⟩
    simp only [initClock]
    omega
  · exact ⟨by decide, by decide⟩

theorem map_gid_readUnits {texts : List Bytes} (h : ∀ text ∈ texts, ∃ g, textGid text = some g)
    (unset : Nat → Int × Int) :
    ((texts.mapIdx fun i text => readUnit (unset i) text).map ClockUnit.gid).map some =
      texts.map textGid := by
  rw [List.map_map]
  apply ext_getElem
  · simp
  · intro i hi hi'
    have hlen : i < texts.length := by simpa using hi'
    obtain ⟨g, hg⟩ := h (texts[i]) (getElem_mem hlen)
    simp only [getElem_map, getElem_mapIdx, Function.comp_apply, hg, readUnit_gid_of_some hg]

theorem mem_readUnits {unset : Nat → Int × Int} {texts : List Bytes} {u : ClockUnit}
    (h : u ∈ texts.mapIdx fun i text => readUnit (unset i) text) :
    ∃ i, ∃ text ∈ texts, u = readUnit (unset i) text := by
  obtain ⟨i, hi, rfl⟩ := getElem_of_mem h
  have hlen : i < texts.length := by simpa using hi
  refine ⟨i, texts[i], getElem_mem hlen, ?_⟩
  rw [getElem_mapIdx]

/-- A text is read safely if and only if its gids are numbers, not zero modulo 16 and
distinct modulo 16. There are then at most 15 of them; their times may be anything. -/
theorem safelyRead_iff (s : Bytes) : SafelyRead s ↔ Readable s := by
  constructor
  · intro h
    have hgid : ∀ text ∈ unitTexts s, ∃ g, textGid text = some g ∧ 0 < g := by
      intro text htext
      -- with zeros for what is not set, a gid that is not a number is 0
      obtain ⟨v, hv⟩ := h fun _ => (0, 0)
      obtain ⟨⟨-, -, hpos⟩, -⟩ := ite_none_right_eq_some.1 hv
      obtain ⟨i, hi, hget⟩ := getElem_of_mem htext
      have hunit : readUnit (0, 0) text ∈
          (unitTexts s).mapIdx fun i text => readUnit ((fun _ => (0, 0)) i) text := by
        refine mem_mapIdx.2 ⟨i, hi, ?_⟩
        rw [hget]
      have hne := hpos _ hunit
      cases hg : textGid text with
      | none =>
        rw [readUnit_gid_of_none hg] at hne
        exact absurd hne (lt_irrefl 0)
      | some g => exact ⟨g, rfl, readUnit_gid_of_some hg (0, 0) ▸ hne⟩
    refine ⟨hgid, ?_⟩
    obtain ⟨v, hv⟩ := h fun _ => (0, 0)
    obtain ⟨-, hunits⟩ := ite_none_right_eq_some.1 hv
    rw [← map_gid_readUnits (fun text ht => (hgid text ht).imp fun _ h => h.1) fun _ => (0, 0),
      some.inj hunits]
    exact v.distinct.map (some_injective _)
  · rintro ⟨hgid, hnodup⟩ unset
    have hsome : ∀ text ∈ unitTexts s, ∃ g, textGid text = some g :=
      fun text ht => (hgid text ht).imp fun _ h => h.1
    rw [← map_gid_readUnits hsome unset] at hnodup
    have hbits : ∀ u ∈ (unitTexts s).mapIdx fun i text => readUnit (unset i) text,
        0 < u.gid ∧ u.gid < 16 ∧ u.clock < 2 ^ 56 := by
      intro u hu
      obtain ⟨i, text, ht, rfl⟩ := mem_readUnits hu
      obtain ⟨g, hg, hpos⟩ := hgid text ht
      exact ⟨(readUnit_gid_of_some hg _).symm ▸ hpos, readUnit_bits _ _⟩
    let v : VectorClock := ⟨_, hnodup.of_map some, hbits⟩
    refine ⟨v, ?_⟩
    have hlen : v.units.length = (unitTexts s).length := length_mapIdx
    rw [readClock, ← hlen]
    exact v.store_units

/-- `0:1` and `x` trip the assertion of `set_gid` whatever the stack holds, and `1:1;1:2` is
read as a clock with two units for one gid. -/
theorem not_safelyRead :
    (∀ unset, readClock unset (ascii "0:1") = none) ∧
      (∀ unset, readClock unset (ascii "x") = none) ∧
    (∀ unset, readClock unset (ascii "1:1;1:2") = some [⟨1, 1⟩, ⟨1, 2⟩]) ∧
    ¬ ∀ s, SafelyRead s := by
  have hzero : ∀ unset, readClock unset (ascii "0:1") = none := fun unset => rfl
  refine ⟨hzero, fun unset => rfl, fun unset => rfl, ?_⟩
  intro h
  obtain ⟨v, hv⟩ := h (ascii "0:1") fun _ => (0, 0)
  rw [hzero] at hv
  cases hv

end XredisCrdt.Clock
