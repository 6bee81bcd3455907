import XredisCrdt.Lib.Loading
import XredisCrdt.Util

/-!
# Primitives of RDB files (`rdb.c`)

What an RDB file is made of: types of one byte, millisecond times, lengths in five forms, and
integers in three. A saver returns the bytes that it writes; a loader returns `none` where the
source reports a short read or a file that is not an RDB file. Strings are in `Rdb.Counts`:
what their savers return matters. LZF is a parameter with the law that decompression inverts
compression. Failing writes are left out.
-/

namespace XredisCrdt.Rdb

open Lib.Loading Lib.Decimal Option UInt8

/-! ## Types and times -/

/-- `rdbSaveType`. -/
def rdbSaveType (type : UInt8) : Bytes := [type]

/-- `rdbLoadType`. -/
def rdbLoadType : Loader UInt8 := takeByte

/-- `rdbLoadTime`. -/
def rdbLoadTime : Loader Int := do
  let t32 ← takeBytes 4
  return ofLeInt 4 t32

/-- `rdbSaveMillisecondTime`. -/
def rdbSaveMillisecondTime (t : Int) : Bytes := leBytesInt 8 t

/-- `rdbLoadMillisecondTime`. -/
def rdbLoadMillisecondTime : Loader Int := do
  let t64 ← takeBytes 8
  return ofLeInt 8 t64

/-! ## Lengths -/

def rdb6BitLen : Nat := 0
def rdb14BitLen : Nat := 1
def rdb32BitLen : UInt8 := 0x80
def rdb64BitLen : UInt8 := 0x81
def rdbEncVal : Nat := 3

/-- `RDB_LENERR`, the length that stands for an error. -/
def rdbLenErr : Nat := 2 ^ 64 - 1

/-- `rdbSaveLen`, for a `uint64_t`. -/
def rdbSaveLen (len : Nat) : Bytes :=
  if len < 2 ^ 6 then [UInt8.ofNat (len &&& 0xFF ||| rdb6BitLen <<< 6)]
  else if len < 2 ^ 14 then
    [UInt8.ofNat (len >>> 8 &&& 0xFF ||| rdb14BitLen <<< 6), UInt8.ofNat (len &&& 0xFF)]
  else if len ≤ 2 ^ 32 - 1 then rdb32BitLen :: beBytes 4 len
  else rdb64BitLen :: beBytes 8 len

/-- `rdbLoadLenByRef` after the first byte. -/
def rdbLoadLenAfter (buf : UInt8) : Loader (Bool × Nat) :=
  let type := (buf.toNat &&& 0xC0) >>> 6
  if type = rdbEncVal then pure (true, buf.toNat &&& 0x3F)
  else if type = rdb6BitLen then pure (false, buf.toNat &&& 0x3F)
  else if type = rdb14BitLen then do
    let next ← takeByte
    return (false, (buf.toNat &&& 0x3F) <<< 8 ||| next.toNat)
  else if buf = rdb32BitLen then do
    let len ← takeBytes 4
    return (false, ofBe len)
  else if buf = rdb64BitLen then do
    let len ← takeBytes 8
    return (false, ofBe len)
  else failure

/-- `rdbLoadLenByRef`: whether a special encoding follows, and the length or the encoding. -/
def rdbLoadLenByRef : Loader (Bool × Nat) := do
  let buf ← takeByte
  rdbLoadLenAfter buf

/-- `rdbLoadLen` without a place for the encoding; every caller takes `RDB_LENERR` for a
failure. -/
def rdbLoadLen : Loader Nat := do
  let len ← rdbLoadLenByRef
  check (len.2 ≠ rdbLenErr)
  return len.2

/-! ## Strings -/

def rdbEncInt8 : Nat := 0
def rdbEncInt16 : Nat := 1
def rdbEncInt32 : Nat := 2
def rdbEncLzf : Nat := 3

/-- The byte before an encoded string. -/
def encodingByte (enctype : Nat) : UInt8 := UInt8.ofNat (rdbEncVal <<< 6 ||| enctype)

/-- `rdbEncodeInteger`. -/
def rdbEncodeInteger (value : Int) : Option Bytes :=
  if -2 ^ 7 ≤ value ∧ value ≤ 2 ^ 7 - 1 then some (encodingByte rdbEncInt8 :: leBytesInt 1 value)
  else if -2 ^ 15 ≤ value ∧ value ≤ 2 ^ 15 - 1 then
    some (encodingByte rdbEncInt16 :: leBytesInt 2 value)
  else if -2 ^ 31 ≤ value ∧ value ≤ 2 ^ 31 - 1 then
    some (encodingByte rdbEncInt32 :: leBytesInt 4 value)
  else none

/-- `rdbLoadIntegerObject`: the integer, which becomes a string by `ll2string`. -/
def rdbLoadIntegerObject (enctype : Nat) : Loader Int :=
  if enctype = rdbEncInt8 then do
    let enc ← takeBytes 1
    return ofLeInt 1 enc
  else if enctype = rdbEncInt16 then do
    let enc ← takeBytes 2
    return ofLeInt 2 enc
  else if enctype = rdbEncInt32 then do
    let enc ← takeBytes 4
    return ofLeInt 4 enc
  else failure

/-- Where `strtoll(s, &endptr, 10)` leaves `endptr`: after the digits, or at the start if
there are none. -/
def strtollEnd (s : Bytes) : Bytes :=
  let number := match s.dropWhile isspace with
    | 45 :: p => p
    | 43 :: p => p
    | p => p
  match number with
  | [] => s
  | b :: p => if IsDigit b then p.dropWhile fun b => IsDigit b else s

/-- `rdbTryIntegerEncoding`: only a text that `ll2string` would print is encoded. -/
def rdbTryIntegerEncoding (s : Bytes) : Option Bytes :=
  if cstr (strtollEnd s) ≠ [] then none
  else if ll2string (strtoll s) ≠ s then none
  else rdbEncodeInteger (strtoll s)

/-- LZF. `compress s room` is `lzf_compress` with an output buffer of `room` bytes, and
`decompress c len` is `lzf_decompress` with one of `len` bytes. -/
structure Lzf where
  compress : Bytes → Nat → Option Bytes
  decompress : Bytes → Nat → Option Bytes
  compress_length : ∀ s room c, compress s room = some c → c.length ≤ room
  decompress_compress : ∀ s room c, compress s room = some c → decompress c s.length = some s

/-- An LZF that finds nothing to compress. -/
def Lzf.never : Lzf where
  compress := fun _ _ => none
  decompress := fun _ _ => none
  compress_length := nofun
  decompress_compress := nofun

/-- What strings are saved with: LZF and the setting `rdb_compression`. -/
structure Compression where
  lzf : Lzf
  enabled : Bool

/-! ## Loading what was saved -/

theorem reads_type (type : UInt8) : Reads rdbLoadType (rdbSaveType type) type := reads_takeByte type

theorem reads_millisecondTime {t : Int} (hlo : -2 ^ 63 ≤ t) (hhi : t < 2 ^ 63) :
    Reads rdbLoadMillisecondTime (rdbSaveMillisecondTime t) t := by
  have hword : ofLeInt 8 (leBytesInt 8 t) = t := ofLeInt_leBytesInt (by omega) (by omega)
  have h := (reads_takeBytes_of_length (leBytesInt_length 8 t)).bind_pure (f := ofLeInt 8)
  rwa [hword] at h

/-- The two high bits of a byte. -/
theorem byte_type {b : Nat} (h : b < 256) : (b &&& 0xC0) >>> 6 = b / 64 := by
  have hmask : b >>> 6 &&& 3 = b >>> 6 % 4 := Nat.and_two_pow_sub_one_eq_mod _ 2
  rw [Nat.shiftRight_and_distrib, show (0xC0 : Nat) >>> 6 = 3 from rfl, hmask,
    Nat.shiftRight_eq_div_pow]
  omega

/-- The six low bits of a byte. -/
theorem byte_low (b : Nat) : b &&& 0x3F = b % 64 := Nat.and_two_pow_sub_one_eq_mod b 6

/-- The low byte of a number. -/
theorem low_byte (n : Nat) : n &&& 0xFF = n % 256 := Nat.and_two_pow_sub_one_eq_mod n 8

/-- The first byte of a length of six bits. -/
theorem byte_6bit {len : Nat} (h : len < 2 ^ 6) :
    (ofNat (len &&& 0xFF ||| rdb6BitLen <<< 6)).toNat = len := by
  rw [low_byte, show rdb6BitLen <<< 6 = 0 from rfl, Nat.or_zero, toNat_ofNat']
  omega

/-- The first byte of a length of fourteen bits. -/
theorem byte_14bit {len : Nat} (h : len < 2 ^ 14) :
    (ofNat (len >>> 8 &&& 0xFF ||| rdb14BitLen <<< 6)).toNat = 64 + len / 256 := by
  have hhigh : len / 256 % 256 < 2 ^ 6 := by omega
  have hor := Nat.two_pow_add_eq_or_of_lt hhigh 1
  rw [low_byte, Nat.shiftRight_eq_div_pow, show rdb14BitLen <<< 6 = 2 ^ 6 * 1 from rfl, Nat.or_comm,
    ← hor, toNat_ofNat']
  omega

theorem low_14bit {high low : Nat} (hlow : low < 256) : high <<< 8 ||| low = 256 * high + low := by
  have hor := Nat.two_pow_add_eq_or_of_lt (i := 8) hlow high
  rw [Nat.shiftLeft_eq, Nat.mul_comm, ← hor]

/-- Every length of 64 bits is read back, and is not taken for an encoding. -/
theorem reads_lenByRef {len : Nat} (h : len < 2 ^ 64) :
    Reads rdbLoadLenByRef (rdbSaveLen len) (false, len) := by
  unfold rdbSaveLen
  split_ifs with h6 h14 h32
  · -- the byte is the length
    refine (reads_takeByte _).bind (q := []) ?_
    rw [rdbLoadLenAfter, byte_6bit h6, byte_type (by omega), byte_low,
      if_neg (by unfold rdbEncVal; omega), if_pos (by unfold rdb6BitLen; omega),
      Nat.mod_eq_of_lt (show len < 64 from h6)]
    exact reads_pure _
  · refine (reads_takeByte _).bind (q := [_]) ?_
    rw [rdbLoadLenAfter, byte_14bit h14, byte_type (by omega), byte_low,
      if_neg (by unfold rdbEncVal; omega), if_neg (by unfold rdb6BitLen; omega),
      if_pos (by unfold rdb14BitLen; omega)]
    have hbyte : (ofNat (len &&& 0xFF)).toNat = len % 256 := by
      rw [low_byte, toNat_ofNat', Nat.mod_mod]
    have hlen : ((64 + len / 256) % 64) <<< 8 ||| (ofNat (len &&& 0xFF)).toNat = len := by
      rw [hbyte, low_14bit (Nat.mod_lt _ (by decide))]
      omega
    have hread := (reads_takeByte (ofNat (len &&& 0xFF))).bind_pure
      (f := fun next => (false, ((64 + len / 256) % 64) <<< 8 ||| next.toNat))
    rwa [hlen] at hread
  · refine (reads_takeByte _).bind ?_
    have hread := (reads_takeBytes_of_length (beBytes_length 4 len)).bind_pure
      (f := fun bytes => (false, ofBe bytes))
    rwa [ofBe_beBytes_of_lt (by omega)] at hread
  · refine (reads_takeByte _).bind ?_
    have hread := (reads_takeBytes_of_length (beBytes_length 8 len)).bind_pure
      (f := fun bytes => (false, ofBe bytes))
    rwa [ofBe_beBytes_of_lt (by omega)] at hread

theorem reads_len {len : Nat} (h : len < rdbLenErr) : Reads rdbLoadLen (rdbSaveLen len) len := by
  have hne : (false, len).2 ≠ rdbLenErr := Nat.ne_of_lt h
  have hread := (reads_lenByRef (Nat.lt_trans h (by decide))).bind
    (f := fun len => check (len.2 ≠ rdbLenErr) >>= fun _ => pure len.2) (q := [])
    ((reads_pure len).after_check hne)
  rwa [List.append_nil] at hread

/-- The byte before an encoded string is read as its encoding. -/
theorem reads_encodingByte {enctype : Nat} (h : enctype < 2 ^ 6) :
    Reads rdbLoadLenByRef [encodingByte enctype] (true, enctype) := by
  have hbyte : (encodingByte enctype).toNat = 192 + enctype := by
    have hor := Nat.two_pow_add_eq_or_of_lt h 3
    rw [encodingByte, show rdbEncVal <<< 6 = 2 ^ 6 * 3 from rfl, ← hor, toNat_ofNat']
    omega
  refine (reads_takeByte _).bind (q := []) ?_
  rw [rdbLoadLenAfter, hbyte, byte_type (by omega), byte_low, if_pos (by unfold rdbEncVal; omega),
    show (192 + enctype) % 64 = enctype by omega]
  exact reads_pure _

theorem reads_integerWord {n : Nat} {value : Int} (hlo : -(256 ^ n / 2 : Nat) ≤ value)
    (hhi : value < ((256 ^ n + 1) / 2 : Nat)) :
    Reads (takeBytes n >>= fun enc => pure (ofLeInt n enc)) (leBytesInt n value) value := by
  have hread := (reads_takeBytes_of_length (leBytesInt_length n value)).bind_pure (f := ofLeInt n)
  rwa [ofLeInt_leBytesInt hlo hhi] at hread

/-- An encoded integer is one of the three encodings followed by the integer. -/
theorem rdbEncodeInteger_reads {value : Int} {enc : Bytes} (h : rdbEncodeInteger value = some enc) :
    ∃ enctype word, enctype < rdbEncLzf ∧ enc = encodingByte enctype :: word ∧
      Reads (rdbLoadIntegerObject enctype) word value := by
  unfold rdbEncodeInteger at h
  split_ifs at h with h8 h16 h32
  · obtain rfl := some.inj h
    exact ⟨rdbEncInt8, _, by decide, rfl, reads_integerWord (by omega) (by omega)⟩
  · obtain rfl := some.inj h
    exact ⟨rdbEncInt16, _, by decide, rfl, reads_integerWord (by omega) (by omega)⟩
  · obtain rfl := some.inj h
    exact ⟨rdbEncInt32, _, by decide, rfl, reads_integerWord (by omega) (by omega)⟩

end XredisCrdt.Rdb
