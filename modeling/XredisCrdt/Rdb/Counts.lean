import XredisCrdt.Rdb.Primitives

/-!
# Strings, and what the RDB savers return (`rdb.c`)

A string is stored as an integer, compressed or verbatim. The savers have their C types.
`rdbWriteRaw` returns a `size_t` as an `int`, so a long write may return a wrong count, or
the -1 of a failed write; LZF takes its sizes as `unsigned int`s. `roundTrips_iff` says for every
    sequence of values that the counts
are right and that the matching loads return the values, exactly if no string in it has a
size that is lost this way. No string below 2 GB has.
-/

namespace XredisCrdt.Rdb.Counted

open Lib.Loading Lib.Decimal List

/-! ## Saving -/

/-- What a saver wrote, and what it returned. -/
structure Saved where
  written : Bytes
  ret : Int

/-- The count is that of the bytes. -/
def Saved.Exact (n : Saved) : Prop := n.ret = n.written.length

/-- A number that is stored in an `ssize_t`. -/
def toSsize (n : Int) : Int := (n + 2 ^ 63) % 2 ^ 64 - 2 ^ 63

/-- `rdbWriteRaw`, where the write succeeds. -/
def rdbWriteRaw (p : Bytes) : Saved := ⟨p, toInt p.length⟩

/-- `rdbSaveMillisecondTime`. -/
def rdbSaveMillisecondTime (t : Int) : Saved := rdbWriteRaw (Rdb.rdbSaveMillisecondTime t)

/-- `rdbSaveLen`. Its writes are too short to seem to fail. -/
def rdbSaveLen (len : Nat) : Saved where
  written := Rdb.rdbSaveLen len
  ret :=
    if len < 2 ^ 6 then 1
    else if len < 2 ^ 14 then 2
    else if len ≤ 2 ^ 32 - 1 then 1 + 4
    else 1 + 8

/-- `lzf_compress` of the string into a buffer of `outlen` bytes, both sizes passed as
`unsigned int`s. The result is empty if it returns 0. -/
def lzfCompress (lzf : Lzf) (s : Bytes) (outlen : Nat) : Bytes :=
  if s.length % 2 ^ 32 = 0 ∨ outlen % 2 ^ 32 = 0 then []
  else (lzf.compress (s.take (s.length % 2 ^ 32)) (outlen % 2 ^ 32)).getD []

/-- `lzf_decompress` into a buffer of `len` bytes. -/
def lzfDecompress (lzf : Lzf) (c : Bytes) (len : Nat) : Bytes :=
  (lzf.decompress (c.take (c.length % 2 ^ 32)) (len % 2 ^ 32)).getD []

/-- `rdbSaveLzfBlob`. -/
def rdbSaveLzfBlob (data : Bytes) (originalLen : Nat) : Saved :=
  let compressLen := rdbSaveLen data.length
  let originalLen := rdbSaveLen originalLen
  let n := rdbWriteRaw data
  { written := encodingByte rdbEncLzf :: (compressLen.written ++ originalLen.written ++ n.written)
    ret := if n.ret = -1 then -1 else 1 + compressLen.ret + originalLen.ret + n.ret }

/-- `rdbSaveLzfStringObject`; 0 if nothing was written. -/
def rdbSaveLzfStringObject (lzf : Lzf) (s : Bytes) : Saved :=
  if s.length ≤ 4 then ⟨[], 0⟩
  else
    let out := lzfCompress lzf s (s.length - 4)
    if out = [] then ⟨[], 0⟩ else rdbSaveLzfBlob out s.length

/-- The end of `rdbSaveRawString`. -/
def storeVerbatim (s : Bytes) : Saved :=
  let n := rdbSaveLen s.length
  { written := n.written ++ s
    ret := if 0 < s.length ∧ (rdbWriteRaw s).ret = -1 then -1 else toSsize (n.ret + s.length) }

/-- `rdbSaveRawString` after the attempt to compress: a count that is not positive, and not
that of a failed write, stands for nothing written. -/
def orStoreVerbatim (n : Saved) (s : Bytes) : Saved :=
  if n.ret = -1 ∨ 0 < n.ret then n
  else ⟨n.written ++ (storeVerbatim s).written, (storeVerbatim s).ret⟩

/-- `rdbSaveRawString`. -/
def rdbSaveRawString (z : Compression) (s : Bytes) : Saved :=
  match if s.length ≤ 11 then rdbTryIntegerEncoding s else none with
  | some enc => ⟨enc, enc.length⟩
  | none =>
    orStoreVerbatim
      (if z.enabled ∧ 20 < s.length then rdbSaveLzfStringObject z.lzf s else ⟨[], 0⟩) s

/-- `rdbSaveLongLongAsStringObject`. -/
def rdbSaveLongLongAsStringObject (value : Int) : Saved :=
  match rdbEncodeInteger value with
  | some enc => rdbWriteRaw enc
  | none =>
    let len := rdbSaveLen (ll2string value).length
    let n := rdbWriteRaw (ll2string value)
    ⟨len.written ++ n.written, if n.ret = -1 then -1 else len.ret + n.ret⟩

/-- A string object by its encoding: an integer, or a raw or embedded `sds`. -/
inductive StringObject
  | int (value : Int)
  | sds (s : Bytes)

/-- The string that the object stands for. -/
def StringObject.text : StringObject → Bytes
  | .int value => ll2string value
  | .sds s => s

/-- `rdbSaveStringObject`. -/
def rdbSaveStringObject (z : Compression) : StringObject → Saved
  | .int value => rdbSaveLongLongAsStringObject value
  | .sds s => rdbSaveRawString z s

/-! ## Loading -/

/-- The flags of `rdbGenericLoadStringObject`, of which callers set at most one. -/
inductive LoadFlag
  | none
  | enc
  | plain
  | sds
  deriving DecidableEq

/-- A new buffer: `sdsnewlen` clears it, and `zmalloc` leaves what was in memory. -/
def newBuffer (flag : LoadFlag) (memory : Nat → UInt8) (len : Nat) : Bytes :=
  if flag = .plain then (List.range len).map memory else List.replicate len 0

/-- `rdbLoadLzfStringObject`. The length of what was decompressed is not compared with `len`. -/
def rdbLoadLzfStringObject (lzf : Lzf) (flag : LoadFlag) (memory : Nat → UInt8) :
    Loader Bytes := do
  let clen ← rdbLoadLen
  let len ← rdbLoadLen
  let c ← takeBytes clen
  let val := lzfDecompress lzf c len
  check (val ≠ [])
  return val ++ (newBuffer flag memory len).drop val.length

/-- `rdbGenericLoadStringObject`; a plain string or an `sds` is returned as `.sds`. -/
def rdbGenericLoadStringObject (lzf : Lzf) (flag : LoadFlag) (memory : Nat → UInt8) :
    Loader StringObject := do
  let (isencoded, len) ← rdbLoadLenByRef
  if isencoded then
    if len = rdbEncLzf then do
      let val ← rdbLoadLzfStringObject lzf flag memory
      return .sds val
    else do
      let val ← rdbLoadIntegerObject len
      return if flag = .enc then .int val else .sds (ll2string val)
  else do
    check (len ≠ rdbLenErr)
    let buf ← takeBytes len
    return .sds buf

/-! ## Sequences -/

/-- A value that is saved: a `uint64_t` other than the error code, a string or a string object
in memory, or a `long long`. -/
inductive Item
  | len (n : Nat) (h : n < rdbLenErr)
  | rawString (s : Bytes) (h : s.length < rdbLenErr)
  | intObject (value : Int) (hlo : -2 ^ 63 ≤ value) (hhi : value < 2 ^ 63)
  | sdsObject (s : Bytes) (h : s.length < rdbLenErr)
  | millisecondTime (t : Int) (hlo : -2 ^ 63 ≤ t) (hhi : t < 2 ^ 63)

def Item.save (z : Compression) : Item → Saved
  | .len n _ => rdbSaveLen n
  | .rawString s _ => rdbSaveRawString z s
  | .intObject value _ _ => rdbSaveStringObject z (.int value)
  | .sdsObject s _ => rdbSaveStringObject z (.sds s)
  | .millisecondTime t _ _ => rdbSaveMillisecondTime t

/-- What a load returns. -/
inductive Value
  | len (n : Nat)
  | string (s : Bytes)
  | millisecondTime (t : Int)

def Item.value : Item → Value
  | .len n _ => .len n
  | .rawString s _ => .string s
  | .intObject value _ _ => .string (StringObject.int value).text
  | .sdsObject s _ => .string s
  | .millisecondTime t _ _ => .millisecondTime t

inductive Load
  | len
  | string (flag : LoadFlag)
  | millisecondTime

/-- The loads that match what is saved. -/
def Item.Matches : Item → Load → Prop
  | .len .., .len => True
  | .rawString .., .string _ => True
  | .intObject .., .string _ => True
  | .sdsObject .., .string _ => True
  | .millisecondTime .., .millisecondTime => True
  | _, _ => False

def Load.run (lzf : Lzf) (memory : Nat → UInt8) : Load → Loader Value
  | .len => do return .len (← rdbLoadLen)
  | .string flag => do return .string (← rdbGenericLoadStringObject lzf flag memory).text
  | .millisecondTime => do return .millisecondTime (← rdbLoadMillisecondTime)

def saveAll (z : Compression) (items : List Item) : Bytes :=
  items.flatMap fun i => (i.save z).written

def loadAll (lzf : Lzf) (memory : Nat → UInt8) : List Load → Loader (List Value)
  | [] => return []
  | l :: loads => do
    let v ← l.run lzf memory
    let vs ← loadAll lzf memory loads
    return v :: vs

/-- Every count is that of the bytes written, and matching loads, whatever new buffers hold,
return the values and leave what follows. -/
def RoundTrips (z : Compression) (items : List Item) : Prop :=
  (∀ i ∈ items, (i.save z).Exact) ∧
    ∀ memory loads, List.Forall₂ Item.Matches items loads →
      Reads (loadAll z.lzf memory loads) (saveAll z items) (items.map Item.value)

/-- The string compressed; empty if it is not stored so. -/
def compressed (z : Compression) (s : Bytes) : Bytes :=
  if z.enabled ∧ 20 < s.length then lzfCompress z.lzf s (s.length - 4) else []

/-- No size is lost: the `int` that a string stored verbatim is counted with is not -1, and
its `ssize_t` does not overflow; a compressed string passes its size as an `unsigned int`, and
its compressed size as an `int`. -/
def SizesFit (z : Compression) (s : Bytes) : Prop :=
  if compressed z s = [] then s.length % 2 ^ 32 ≠ 2 ^ 32 - 1 ∧ s.length + 9 < 2 ^ 63
  else s.length < 2 ^ 32 ∧ (compressed z s).length < 2 ^ 31

/-- The same for a value; only strings have a size. -/
def Item.Fits (z : Compression) : Item → Prop
  | .rawString s _ => SizesFit z s
  | .sdsObject s _ => SizesFit z s
  | _ => True

/-! ## Counts -/

variable {z : Compression} {s : Bytes}

theorem rdbSaveLen_exact (len : Nat) : (rdbSaveLen len).Exact := by
  unfold Saved.Exact rdbSaveLen Rdb.rdbSaveLen
  split_ifs <;> simp

theorem rdbSaveLen_ret_bounds (len : Nat) :
    1 ≤ (rdbSaveLen len).ret ∧ (rdbSaveLen len).ret ≤ 9 ∧
      (2 ^ 32 ≤ len → (rdbSaveLen len).ret = 9) := by
  unfold rdbSaveLen
  dsimp only
  split_ifs <;> omega

/-- A write below 2 GB is counted. -/
theorem rdbWriteRaw_exact {p : Bytes} (h : p.length < 2 ^ 31) : (rdbWriteRaw p).Exact :=
  toInt_of_int (by omega) (by omega)

/-- Any other write whose size is an `unsigned int` is counted as a negative number. -/
theorem rdbWriteRaw_ret_neg {p : Bytes} (hlo : 2 ^ 31 ≤ p.length) (hhi : p.length < 2 ^ 32) :
    (rdbWriteRaw p).ret < 0 := by
  show toInt p.length < 0
  unfold toInt
  omega

theorem storeVerbatim_length (s : Bytes) :
    ((storeVerbatim s).written.length : Int) = (rdbSaveLen s.length).ret + s.length := by
  rw [rdbSaveLen_exact]
  simp [storeVerbatim]

/-- A string stored verbatim never returns more than was written. -/
theorem storeVerbatim_ret_le (s : Bytes) :
    (storeVerbatim s).ret ≤ (storeVerbatim s).written.length := by
  have hlen := rdbSaveLen_ret_bounds s.length
  rw [storeVerbatim_length]
  unfold storeVerbatim toSsize
  dsimp only
  split_ifs <;> omega

theorem storeVerbatim_exact_iff (hs : s.length < rdbLenErr) :
    (storeVerbatim s).Exact ↔
      s.length % 2 ^ 32 ≠ 2 ^ 32 - 1 ∧ s.length + 9 < 2 ^ 63 := by
  obtain ⟨hpos, hle, hnine⟩ := rdbSaveLen_ret_bounds s.length
  unfold rdbLenErr at hs
  rw [Saved.Exact, storeVerbatim_length]
  unfold storeVerbatim rdbWriteRaw toInt toSsize
  dsimp only
  split_ifs with hfail
  · omega
  · omega

/-- What LZF returns fits the buffer, whose size is an `unsigned int`. -/
theorem lzfCompress_length (lzf : Lzf) (s : Bytes) (outlen : Nat) :
    (lzfCompress lzf s outlen).length ≤ outlen % 2 ^ 32 := by
  unfold lzfCompress
  split_ifs
  · exact Nat.zero_le _
  · cases hout : lzf.compress (s.take (s.length % 2 ^ 32)) (outlen % 2 ^ 32) with
    | none => exact Nat.zero_le _
    | some c => exact lzf.compress_length _ _ _ hout

theorem compressed_length_le (z : Compression) (s : Bytes) :
    (compressed z s).length ≤ (s.length - 4) % 2 ^ 32 := by
  unfold compressed
  split_ifs
  · exact lzfCompress_length ..
  · exact Nat.zero_le _

theorem compressed_length (z : Compression) (s : Bytes) : (compressed z s).length < 2 ^ 32 :=
  Nat.lt_of_le_of_lt (compressed_length_le z s) (Nat.mod_lt _ (by decide))

theorem rdbSaveLzfBlob_length (data : Bytes) (originalLen : Nat) :
    ((rdbSaveLzfBlob data originalLen).written.length : Int) =
      1 + (rdbSaveLen data.length).ret + (rdbSaveLen originalLen).ret + data.length := by
  rw [rdbSaveLen_exact, rdbSaveLen_exact]
  simp only [rdbSaveLzfBlob, rdbWriteRaw, length_cons, length_append]
  omega

/-- What was counted stays. -/
theorem orStoreVerbatim_pos {n : Saved} (h : 0 < n.ret) : orStoreVerbatim n s = n :=
  if_pos (.inr h)

/-- What was written but not counted stays uncounted, also when the string is stored again. -/
theorem orStoreVerbatim_ret_lt {n : Saved} (hwritten : 0 < n.written.length)
    (h : n.ret < n.written.length) :
    (orStoreVerbatim n s).ret < (orStoreVerbatim n s).written.length := by
  have hverbatim := storeVerbatim_ret_le s
  unfold orStoreVerbatim
  split_ifs
  · exact h
  · rw [length_append]
    push_cast
    omega

/-- A short string that is an integer is stored as one. -/
theorem rdbSaveRawString_integer {enc : Bytes} (hs : s.length ≤ 11)
    (henc : rdbTryIntegerEncoding s = some enc) : rdbSaveRawString z s = ⟨enc, enc.length⟩ := by
  rw [rdbSaveRawString, if_pos hs, henc]

/-- Any other string that is not compressed is stored verbatim. -/
theorem rdbSaveRawString_verbatim (hint : s.length ≤ 11 → rdbTryIntegerEncoding s = none)
    (hc : compressed z s = []) : rdbSaveRawString z s = storeVerbatim s := by
  have hn : (if z.enabled ∧ 20 < s.length then rdbSaveLzfStringObject z.lzf s else ⟨[], 0⟩) =
      (⟨[], 0⟩ : Saved) := by
    unfold compressed at hc
    split_ifs at hc ⊢ with h
    · rw [rdbSaveLzfStringObject, if_neg (by omega)]
      exact if_pos hc
    · rfl
  rw [rdbSaveRawString, ite_eq_right_iff.2 hint, hn]
  rfl

/-- A compressed string is stored as such, and may be stored again. -/
theorem rdbSaveRawString_compressed (hc : compressed z s ≠ []) :
    rdbSaveRawString z s = orStoreVerbatim (rdbSaveLzfBlob (compressed z s) s.length) s := by
  have henabled : z.enabled ∧ 20 < s.length := by
    by_contra h
    exact hc (if_neg h)
  have hout : compressed z s = lzfCompress z.lzf s (s.length - 4) := if_pos henabled
  have hn : rdbSaveLzfStringObject z.lzf s = rdbSaveLzfBlob (compressed z s) s.length := by
    rw [rdbSaveLzfStringObject, if_neg (by omega), ← hout]
    exact if_neg hc
  rw [rdbSaveRawString, if_neg (by omega), if_pos henabled, hn]

/-- Compressed data below 2 GB are counted. -/
theorem rdbSaveLzfBlob_exact {data : Bytes} (originalLen : Nat) (h : data.length < 2 ^ 31) :
    (rdbSaveLzfBlob data originalLen).Exact := by
  have hret : (rdbWriteRaw data).ret = data.length := rdbWriteRaw_exact h
  rw [Saved.Exact, rdbSaveLzfBlob_length]
  simp only [rdbSaveLzfBlob, hret]
  exact if_neg (by omega)

/-- Other data are not. -/
theorem rdbSaveLzfBlob_ret_lt {data : Bytes} (originalLen : Nat)
    (hneg : (rdbWriteRaw data).ret < 0) :
    (rdbSaveLzfBlob data originalLen).ret <
      (rdbSaveLzfBlob data originalLen).written.length := by
  have hclen := (rdbSaveLen_ret_bounds data.length).1
  have holen := (rdbSaveLen_ret_bounds originalLen).1
  rw [rdbSaveLzfBlob_length]
  unfold rdbSaveLzfBlob
  dsimp only
  split_ifs <;> omega

theorem rdbSaveLzfBlob_written_pos (data : Bytes) (originalLen : Nat) :
    0 < (rdbSaveLzfBlob data originalLen).written.length := Nat.zero_lt_succ _

/-- A string that compresses below 2 GB is stored once. -/
theorem rdbSaveRawString_short (hc : compressed z s ≠ [])
    (hshort : (compressed z s).length < 2 ^ 31) :
    rdbSaveRawString z s = rdbSaveLzfBlob (compressed z s) s.length := by
  have hpos := rdbSaveLzfBlob_written_pos (compressed z s) s.length
  have hret : _ = _ := rdbSaveLzfBlob_exact s.length hshort
  rw [rdbSaveRawString_compressed hc]
  exact orStoreVerbatim_pos (by omega)

/-- A string counts what it writes exactly if its stored size is counted. -/
theorem rdbSaveRawString_exact_iff (hs : s.length < rdbLenErr) :
    (rdbSaveRawString z s).Exact ↔
      if compressed z s = [] then s.length % 2 ^ 32 ≠ 2 ^ 32 - 1 ∧ s.length + 9 < 2 ^ 63
      else (compressed z s).length < 2 ^ 31 := by
  split_ifs with hc
  · cases henc : (if s.length ≤ 11 then rdbTryIntegerEncoding s else none) with
    | none =>
      rw [rdbSaveRawString_verbatim (ite_eq_right_iff.1 henc) hc]
      exact storeVerbatim_exact_iff hs
    | some enc =>
      obtain ⟨hlen, henc⟩ := Option.ite_none_right_eq_some.1 henc
      rw [rdbSaveRawString_integer hlen henc]
      exact ⟨fun _ => by omega, fun _ => rfl⟩
  · by_cases hshort : (compressed z s).length < 2 ^ 31
    · rw [rdbSaveRawString_short hc hshort]
      exact iff_of_true (rdbSaveLzfBlob_exact _ hshort) hshort
    · have hneg := rdbWriteRaw_ret_neg (Nat.le_of_not_lt hshort) (compressed_length z s)
      have hlt := orStoreVerbatim_ret_lt (s := s)
        (rdbSaveLzfBlob_written_pos (compressed z s) s.length)
        (rdbSaveLzfBlob_ret_lt s.length hneg)
      rw [rdbSaveRawString_compressed hc]
      exact iff_of_false hlt.ne hshort

theorem SizesFit.exact (h : SizesFit z s) (hs : s.length < rdbLenErr) :
    (rdbSaveRawString z s).Exact := by
  rw [rdbSaveRawString_exact_iff hs]
  unfold SizesFit at h
  split_ifs at h ⊢
  · exact h
  · exact h.2

/-- No string below 2 GB loses a size. -/
theorem sizesFit_of_lt (h : s.length < 2 ^ 31) : SizesFit z s := by
  have hle := compressed_length_le z s
  unfold SizesFit
  split_ifs
  · omega
  · omega

/-! ## Loads -/

section Loads

variable (lzf : Lzf) (flag : LoadFlag) (memory : Nat → UInt8)

/-- An encoded integer is read back as the number it stands for. -/
theorem reads_integer {value : Int} {enc : Bytes}
    (h : rdbEncodeInteger value = some enc) :
    Reads (rdbGenericLoadStringObject lzf flag memory) enc
      (if flag = .enc then .int value else .sds (ll2string value)) := by
  obtain ⟨enctype, word, hlt, rfl, hread⟩ := rdbEncodeInteger_reads h
  refine (reads_encodingByte (Nat.lt_trans hlt (by decide))).bind (p := [_]) ?_
  show Reads (if enctype = rdbEncLzf then _ else _) word _
  rw [if_neg (Nat.ne_of_lt hlt)]
  exact hread.bind_pure

theorem reads_verbatim (hs : s.length < rdbLenErr) :
    Reads (rdbGenericLoadStringObject lzf flag memory) (Rdb.rdbSaveLen s.length ++ s) (.sds s) := by
  refine (reads_lenByRef (Nat.lt_trans hs (by decide))).bind ?_
  exact (reads_takeBytes s).bind_pure.after_check (Nat.ne_of_lt hs)

theorem passed_length (s : Bytes) : (s.take (s.length % 2 ^ 32)).length = s.length % 2 ^ 32 := by
  rw [length_take, Nat.min_eq_left (Nat.mod_le ..)]

/-- What was compressed is what LZF was passed of the string. -/
theorem compressed_eq (hc : compressed z s ≠ []) :
    s.length % 2 ^ 32 ≠ 0 ∧ ∃ room,
      z.lzf.compress (s.take (s.length % 2 ^ 32)) room = some (compressed z s) := by
  unfold compressed lzfCompress at hc ⊢
  split_ifs at hc ⊢ with henabled hzero
  · exact absurd rfl hc
  · refine ⟨fun h => hzero (.inl h), (s.length - 4) % 2 ^ 32, ?_⟩
    cases hout : z.lzf.compress (s.take (s.length % 2 ^ 32)) ((s.length - 4) % 2 ^ 32) with
    | none => exact absurd (by rw [hout]; rfl) hc
    | some c => rfl
  · exact absurd rfl hc

/-- Decompression fills the front of the buffer, with as much as LZF was passed. -/
theorem lzfDecompress_compressed (hc : compressed z s ≠ []) :
    lzfDecompress z.lzf (compressed z s) s.length = s.take (s.length % 2 ^ 32) := by
  obtain ⟨-, room, hout⟩ := compressed_eq hc
  have hback := z.lzf.decompress_compress _ _ _ hout
  rw [passed_length] at hback
  rw [lzfDecompress, Nat.mod_eq_of_lt (compressed_length z s), take_length, hback]
  rfl

theorem reads_compressed (hc : compressed z s ≠ []) (hs : s.length < rdbLenErr) :
    Reads (rdbGenericLoadStringObject z.lzf flag memory)
      (rdbSaveLzfBlob (compressed z s) s.length).written
      (.sds (s.take (s.length % 2 ^ 32) ++
        (newBuffer flag memory s.length).drop (s.length % 2 ^ 32))) := by
  have hclen : (compressed z s).length < rdbLenErr :=
    Nat.lt_trans (compressed_length z s) (by decide)
  have hne : s.take (s.length % 2 ^ 32) ≠ [] := by
    intro h
    exact (compressed_eq hc).1 (passed_length s ▸ congrArg List.length h)
  refine (reads_encodingByte (by decide)).bind (p := [_]) ?_
  refine Reads.bind_pure (f := StringObject.sds) ?_
  show Reads _ (Rdb.rdbSaveLen _ ++ Rdb.rdbSaveLen s.length ++ compressed z s) _
  rw [append_assoc]
  refine (reads_len hclen).bind ((reads_len hs).bind ?_)
  have hread := (reads_takeBytes (compressed z s)).bind (q := [])
    (f := fun c => check (lzfDecompress z.lzf c s.length ≠ []) >>= fun _ =>
      pure (lzfDecompress z.lzf c s.length ++ (newBuffer flag memory s.length).drop
        (lzfDecompress z.lzf c s.length).length))
    (by rw [lzfDecompress_compressed hc]; exact (reads_pure _).after_check hne)
  rwa [append_nil, passed_length] at hread

/-- A string whose sizes fit is read back, whatever it is loaded as. -/
theorem reads_rawStringObject (hfit : SizesFit z s) (hs : s.length < rdbLenErr) :
    ∃ o, Reads (rdbGenericLoadStringObject z.lzf flag memory) (rdbSaveRawString z s).written o ∧
      o.text = s := by
  unfold SizesFit at hfit
  split_ifs at hfit with hc
  · cases henc : (if s.length ≤ 11 then rdbTryIntegerEncoding s else none) with
    | none =>
      rw [rdbSaveRawString_verbatim (ite_eq_right_iff.1 henc) hc]
      exact ⟨_, reads_verbatim z.lzf flag memory hs, rfl⟩
    | some enc =>
      obtain ⟨hlen, henc⟩ := Option.ite_none_right_eq_some.1 henc
      rw [rdbSaveRawString_integer hlen henc]
      -- the text was compared with that of the integer
      unfold rdbTryIntegerEncoding at henc
      split_ifs at henc with hend htext
      refine ⟨_, reads_integer z.lzf flag memory henc, ?_⟩
      split_ifs <;> exact not_not.1 htext
  · rw [rdbSaveRawString_short hc hfit.2]
    refine ⟨_, reads_compressed flag memory hc hs, ?_⟩
    rw [Nat.mod_eq_of_lt hfit.1, take_length, drop_of_length_le, append_nil]
    · rfl
    · unfold newBuffer
      split_ifs <;> simp

theorem reads_rawString (hfit : SizesFit z s) (hs : s.length < rdbLenErr) :
    Reads ((Load.string flag).run z.lzf memory) (rdbSaveRawString z s).written (.string s) := by
  obtain ⟨o, hread, htext⟩ := reads_rawStringObject flag memory hfit hs
  have h := hread.bind_pure (f := fun o => Value.string o.text)
  rwa [htext] at h

end Loads

/-! ## Integer objects -/

theorem ll2string_length {value : Int} (hlo : -2 ^ 63 ≤ value) (hhi : value < 2 ^ 63) :
    (ll2string value).length < 2 ^ 31 := by
  have hdigits : (digits value.natAbs).length ≤ value.natAbs.log2 + 1 := digitsFuel_length_le ..
  have hlog : value.natAbs.log2 < 64 := by
    rcases Nat.eq_zero_or_pos value.natAbs with h | h
    · rw [h]
      decide
    · exact (Nat.log2_lt (by omega)).2 (by omega)
  unfold ll2string
  split_ifs
  · rw [length_cons]
    omega
  · omega

/-- An integer object is counted. -/
theorem rdbSaveLongLong_exact {value : Int} (hlo : -2 ^ 63 ≤ value) (hhi : value < 2 ^ 63) :
    (rdbSaveLongLongAsStringObject value).Exact := by
  unfold rdbSaveLongLongAsStringObject
  cases henc : rdbEncodeInteger value with
  | some enc =>
    refine rdbWriteRaw_exact ?_
    unfold rdbEncodeInteger at henc
    split_ifs at henc <;> obtain rfl := Option.some.inj henc <;> simp
  | none =>
    have hret : (rdbWriteRaw (ll2string value)).ret = _ :=
      rdbWriteRaw_exact (ll2string_length hlo hhi)
    rw [Saved.Exact]
    dsimp only
    rw [hret, if_neg (by omega), length_append, rdbSaveLen_exact]
    rfl

/-- An integer object is read back as its text. -/
theorem reads_intObject {value : Int} (hlo : -2 ^ 63 ≤ value) (hhi : value < 2 ^ 63) (lzf : Lzf)
    (flag : LoadFlag) (memory : Nat → UInt8) :
    Reads ((Load.string flag).run lzf memory) (rdbSaveLongLongAsStringObject value).written
      (.string (ll2string value)) := by
  unfold rdbSaveLongLongAsStringObject
  cases henc : rdbEncodeInteger value with
  | some enc =>
    have h := (reads_integer lzf flag memory henc).bind_pure (f := fun o => Value.string o.text)
    split_ifs at h <;> exact h
  | none =>
    have hlen := Nat.lt_trans (ll2string_length hlo hhi) (show 2 ^ 31 < rdbLenErr by decide)
    exact (reads_verbatim lzf flag memory hlen).bind_pure (f := fun o => Value.string o.text)

/-! ## Whole sequences -/

/-- Every value that fits is counted. -/
theorem Item.exact {i : Item} (hfit : i.Fits z) : (i.save z).Exact := by
  cases i with
  | len n h => exact rdbSaveLen_exact n
  | rawString s h => exact hfit.exact h
  | intObject value hlo hhi => exact rdbSaveLongLong_exact hlo hhi
  | sdsObject s h => exact hfit.exact h
  | millisecondTime t hlo hhi => exact rdbWriteRaw_exact (by simp [Rdb.rdbSaveMillisecondTime])

/-- The load of every value that fits returns it. -/
theorem Item.reads {i : Item} {l : Load} (hfit : i.Fits z) (hl : i.Matches l)
    (memory : Nat → UInt8) : Reads (l.run z.lzf memory) (i.save z).written i.value := by
  cases i with
  | len n h =>
    cases l with
    | len => exact (reads_len h).bind_pure
    | _ => exact hl.elim
  | rawString s h =>
    cases l with
    | string flag => exact reads_rawString flag memory hfit h
    | _ => exact hl.elim
  | intObject value hlo hhi =>
    cases l with
    | string flag => exact reads_intObject hlo hhi z.lzf flag memory
    | _ => exact hl.elim
  | sdsObject s h =>
    cases l with
    | string flag => exact reads_rawString flag memory hfit h
    | _ => exact hl.elim
  | millisecondTime t hlo hhi =>
    cases l with
    | millisecondTime => exact (reads_millisecondTime hlo hhi).bind_pure
    | _ => exact hl.elim

theorem reads_loadAll {items : List Item} {loads : List Load} (hfit : ∀ i ∈ items, i.Fits z)
    (hloads : List.Forall₂ Item.Matches items loads) (memory : Nat → UInt8) :
    Reads (loadAll z.lzf memory loads) (saveAll z items) (items.map Item.value) := by
  induction hloads with
  | nil => exact reads_pure []
  | @cons i l items loads hl _ ih =>
    obtain ⟨hi, hitems⟩ := forall_mem_cons.1 hfit
    exact (Item.reads hi hl memory).bind (ih hitems).bind_pure

/-- If the first load reads what the first value wrote, then the others read the rest. -/
theorem loadAll_cons {lzf : Lzf} {memory : Nat → UInt8} {l : Load} {loads : List Load}
    {first rest : Bytes} {v v' : Value} {vs : List Value} (hl : Reads (l.run lzf memory) first v')
    (h : Reads (loadAll lzf memory (l :: loads)) (first ++ rest) (v :: vs)) :
    v' = v ∧ Reads (loadAll lzf memory loads) rest vs := by
  have hrun : ∀ more, v' = v ∧ (loadAll lzf memory loads).run (rest ++ more) = some (vs, more) := by
    intro more
    have hload := h more
    rw [loadAll, StateT.run_bind, append_assoc, hl] at hload
    change ((loadAll lzf memory loads).run (rest ++ more)).bind
      (fun r => some (v' :: r.1, r.2)) = some (v :: vs, more) at hload
    obtain ⟨r, hr, hpure⟩ := Option.bind_eq_some_iff.1 hload
    cases hpure
    exact ⟨rfl, hr⟩
  exact ⟨(hrun []).1, fun more => (hrun more).2⟩

/-- A string that is counted, and read back over any memory, has sizes that fit: of one of
4 GB or more LZF is passed a part, and the rest of the buffer stays as it was. -/
theorem sizesFit_of_loads {loads : List Load} {rest : Bytes} {vs : List Value}
    (hs : s.length < rdbLenErr)
    (hexact : (rdbSaveRawString z s).Exact)
    (hload : ∀ memory, Reads (loadAll z.lzf memory (.string .plain :: loads))
      ((rdbSaveRawString z s).written ++ rest) (.string s :: vs)) : SizesFit z s := by
  have hcount := (rdbSaveRawString_exact_iff hs).1 hexact
  unfold SizesFit
  split_ifs at hcount ⊢ with hc
  · exact hcount
  · refine ⟨?_, hcount⟩
    by_contra hlong
    have hfill : ∀ b : UInt8, s.take (s.length % 2 ^ 32) ++
        List.replicate (s.length - s.length % 2 ^ 32) b = s := by
      intro b
      have hread : Reads ((Load.string .plain).run z.lzf fun _ => b) _ _ :=
        (reads_compressed .plain (fun _ => b) hc hs).bind_pure
      rw [← rdbSaveRawString_short hc hcount] at hread
      have hsame := Value.string.inj (loadAll_cons hread (hload fun _ => b)).1
      simpa [newBuffer, StringObject.text] using hsame
    have hsame := append_cancel_left ((hfill 0).trans (hfill 1).symm)
    have hpart := Nat.mod_lt s.length (show 0 < 2 ^ 32 by decide)
    exact absurd ((replicate_right_inj (by omega)).1 hsame) (by decide)

/-- Some load matches; a string may be loaded as a plain one. -/
def Item.plainLoad : Item → Load
  | .len .. => .len
  | .millisecondTime .. => .millisecondTime
  | _ => .string .plain

theorem Item.matches_plainLoad (i : Item) : i.Matches i.plainLoad := by
  cases i <;> trivial

theorem forall₂_plainLoad (items : List Item) :
    List.Forall₂ Item.Matches items (items.map Item.plainLoad) := by
  rw [List.forall₂_map_right_iff]
  exact List.forall₂_same.2 fun i _ => i.matches_plainLoad

theorem RoundTrips.head {i : Item} {items : List Item} (h : RoundTrips z (i :: items)) :
    i.Fits z := by
  have hexact := h.1 i mem_cons_self
  have hload := fun memory => h.2 memory _ (forall₂_plainLoad (i :: items))
  cases i with
  | len | intObject | millisecondTime => trivial
  | rawString s hs => exact sizesFit_of_loads hs hexact hload
  | sdsObject s hs => exact sizesFit_of_loads hs hexact hload

theorem RoundTrips.tail {i : Item} {items : List Item} (h : RoundTrips z (i :: items)) :
    RoundTrips z items := by
  refine ⟨fun j hj => h.1 j (mem_cons_of_mem _ hj), fun memory loads hloads => ?_⟩
  have hread := h.2 memory _ (.cons i.matches_plainLoad hloads)
  exact (loadAll_cons (Item.reads h.head i.matches_plainLoad memory) hread).2

/-- **The primitives round trip.** Whatever is saved one after another, the counts are those
of the bytes and the matching loads return the values, exactly if the sizes fit. -/
theorem roundTrips_iff (z : Compression) (items : List Item) :
    RoundTrips z items ↔ ∀ i ∈ items, i.Fits z := by
  constructor
  · intro h
    induction items with
    | nil => exact forall_mem_nil _
    | cons i items ih => exact forall_mem_cons.2 ⟨h.head, ih h.tail⟩
  · intro hfit
    exact ⟨fun i hi => Item.exact (hfit i hi), fun memory loads hloads =>
      reads_loadAll hfit hloads memory⟩

/-- Compression switched off. -/
def noCompression : Compression where
  lzf := .never
  enabled := false

/-- A string of 2^32 - 1 bytes is written whole, and yet -1 is returned. -/
theorem rawString_not_roundTrips : ∃ h : (List.replicate (2 ^ 32 - 1) 0).length < rdbLenErr,
    (rdbSaveRawString noCompression (List.replicate (2 ^ 32 - 1) 0)).ret = -1 ∧
      ¬ RoundTrips noCompression [.rawString (List.replicate (2 ^ 32 - 1) 0) h] := by
  have hs : (List.replicate (2 ^ 32 - 1) (0 : UInt8)).length = 2 ^ 32 - 1 := length_replicate
  generalize List.replicate (2 ^ 32 - 1) (0 : UInt8) = s at hs ⊢
  refine ⟨hs.trans_lt (by decide), ?_, ?_⟩
  · rw [rdbSaveRawString_verbatim (by omega) rfl]
    exact if_pos ⟨by omega, by rw [rdbWriteRaw, hs]; rfl⟩
  · intro h
    exact h.head.1 (by omega)

end XredisCrdt.Rdb.Counted

/-! ## Strings below 2 GB -/

namespace XredisCrdt.Rdb

open Lib.Loading

/-- `rdbLoadStringObject`, as the text of the string. Without a flag no buffer is left as the
memory was. -/
def rdbLoadStringObject (lzf : Lzf) : Loader Bytes := do
  let o ← Counted.rdbGenericLoadStringObject lzf .none fun _ => 0
  return o.text

theorem reads_rawString {z : Compression} {s : Bytes} (h : s.length < 2 ^ 31) :
    Reads (rdbLoadStringObject z.lzf) (Counted.rdbSaveRawString z s).written s := by
  obtain ⟨o, hread, htext⟩ := Counted.reads_rawStringObject .none (fun _ => 0)
    (Counted.sizesFit_of_lt (z := z) h) (h.trans (by decide))
  have hload := hread.bind_pure (f := Counted.StringObject.text)
  rwa [htext] at hload

/-- No saver takes the count of such a string for a failed write. -/
theorem rawString_exact {z : Compression} {s : Bytes} (h : s.length < 2 ^ 31) :
    (Counted.rdbSaveRawString z s).Exact :=
  (Counted.sizesFit_of_lt h).exact (h.trans (by decide))

end XredisCrdt.Rdb
