import Mathlib.Logic.Function.Iterate
import XredisCrdt.Rdb.Counts

/-!
# LZF (`lzf_c.c`, `lzf_d.c`)

`lzf_compress` writes runs of literal bytes and references to bytes before them, which a hash
table proposes and comparisons confirm; `lzf_decompress` expands both. Nothing is assumed of
the table, which is not initialised. The settings are those of `lzfP.h`.
-/

namespace XredisCrdt.Rdb.LzfCodec

open Function List Lib.Loading

/-! ## Compression -/

def byte (s : Bytes) (i : Nat) : UInt8 := s.getD i 0

/-- `FRST`. -/
def frst (s : Bytes) (i : Nat) : UInt32 := (byte s i).toUInt32 <<< 8 ||| (byte s (i + 1)).toUInt32

/-- `NEXT`. -/
def next (v : UInt32) (s : Bytes) (i : Nat) : UInt32 := v <<< 8 ||| (byte s (i + 2)).toUInt32

/-- `IDX`. -/
def idx (h : UInt32) : Nat := ((h >>> 8 - h * 5) &&& 0xffff).toNat

def same (s : Bytes) (ref ip k : Nat) : Bool := byte s (ref + k) = byte s (ip + k)

/-- The octets that match: `len++` while the next are the same, where the first `free`
comparisons do not look at `maxlen`. The turns are bounded by `maxlen`, which is enough. -/
def matchLength (same : Nat → Bool) (maxlen : Nat) : Nat → Nat → Nat → Nat
  | 0, _, len => len + 1
  | n + 1, free, len =>
    if (0 < free ∨ len + 1 < maxlen) ∧ same (len + 1) then
      matchLength same maxlen n (free - 1) (len + 1)
    else len + 1

/-- A reference to `len` octets, in two or three bytes. -/
def reference (off len : Nat) : Bytes :=
  if len - 2 < 7 then [.ofNat (off / 256 + (len - 2) * 32), .ofNat off]
  else [.ofNat (off / 256 + 7 * 32), .ofNat (len - 2 - 7), .ofNat off]

def run (lit : Bytes) : Bytes := if lit = [] then [] else .ofNat (lit.length - 1) :: lit

/-- The variables of `lzf_compress`: `out` has the finished runs and references, `lit` the
bytes of the open run, which has a byte for its length before them. -/
structure Compressor where
  ip : Nat
  hval : UInt32
  htab : Nat → Nat
  out : Bytes
  lit : Bytes

namespace Compressor

variable (s : Bytes) (room : Nat) (x : Compressor)

def op : Nat := x.out.length + 1 + x.lit.length

/-- Stop the run, and undo it if its length is zero. -/
def stopRun : Compressor := { x with out := x.out ++ run x.lit, lit := [] }

/-- One more literal byte; 32 is `MAX_LIT`. -/
def literal : Compressor :=
  let x := { x with ip := x.ip + 1, lit := x.lit ++ [byte s x.ip] }
  if x.lit.length = 32 then x.stopRun else x

/-- `hval = NEXT (hval, ip)`, `htab[IDX (hval)] = ip` and `ip++`. -/
def hash : Compressor :=
  let hval := next x.hval s x.ip
  { x with hval, htab := update x.htab (idx hval) x.ip, ip := x.ip + 1 }

/-- After a match the two bytes before `ip` are hashed, unless the input ends. -/
def rehash : Compressor :=
  if s.length ≤ x.ip + 2 then x
  else (({ x with ip := x.ip - 2, hval := frst s (x.ip - 2) } : Compressor).hash s).hash s

/-- What is done with a match at `ref`; 264 is `MAX_REF`. -/
def refer (ref : Nat) : Compressor :=
  let maxlen := min (s.length - x.ip - 2) 264
  let len := matchLength (same s ref x.ip) maxlen maxlen (if 16 < maxlen then 16 else 0) 2
  rehash s { x.stopRun with
    out := x.stopRun.out ++ reference (x.ip - ref - 1) len, ip := x.ip + len }

/-- One turn of the loop; `none` is the return of 0, and 8192 is `MAX_OFF`. -/
def step : Option Compressor :=
  let hval := next x.hval s x.ip
  let ref := x.htab (idx hval)
  let x := { x with hval, htab := update x.htab (idx hval) x.ip }
  if ref < x.ip ∧ x.ip - ref - 1 < 8192 ∧ 0 < ref ∧ ∀ k ≤ 2, same s ref x.ip k then
    if room ≤ x.op + 3 + 1 ∧ room ≤ x.op - (if x.lit = [] then 1 else 0) + 3 + 1 then none
    else some (x.refer s ref)
  else if room ≤ x.op then none
  else some (x.literal s)

/-- The loop; every turn reads a byte at least. -/
def loop : Nat → Compressor → Option Compressor
  | 0, x => some x
  | n + 1, x => if x.ip + 2 < s.length then (x.step s room).bind (loop n) else some x

end Compressor

/-- `lzf_compress`; `htab` is what the stack holds in the place of the table. -/
def lzfCompress (htab : Nat → Nat) (s : Bytes) (room : Nat) : Option Bytes :=
  if s = [] ∨ room = 0 then none
  else (Compressor.loop s room s.length ⟨0, frst s 0, htab, [], []⟩).bind fun x =>
    if room < x.op + 3 then none
    else some ((Compressor.literal s)^[s.length - x.ip] x).stopRun.out

/-! ## Decompression -/

/-- `*op++ = *ref++`, so many times. -/
def copy : Nat → Nat → Bytes → Bytes
  | 0, _, out => out
  | n + 1, ref, out => copy n (ref + 1) (out ++ [byte out ref])

/-- A reference; the length 7 is continued in a byte of its own. -/
def expandReference (room : Nat) (out : Bytes) (ctrl : Nat) (ip : Bytes) :
    Option (Bytes × Bytes) :=
  let long := ctrl / 32 = 7
  let len := if long then 7 + (byte ip 0).toNat else ctrl / 32
  let rest := if long then ip.tail else ip
  let off := ctrl % 32 * 256 + (byte rest 0).toNat
  if ip = [] ∨ rest = [] then none
  else if room < out.length + len + 2 then none
  else if out.length < off + 1 then none
  else some (rest.tail, copy (len + 2) (out.length - off - 1) out)

/-- One turn of the loop: what is left of the input, and the output. -/
def expand (room : Nat) (out : Bytes) : Bytes → Option (Bytes × Bytes)
  | [] => none
  | ctrl :: ip =>
    let n := ctrl.toNat + 1
    if 32 < n then expandReference room out ctrl.toNat ip
    else if room < out.length + n then none
    else if ip.length < n then none
    else some (ip.drop n, out ++ ip.take n)

/-- The loop; here, too, every turn reads a byte at least. -/
def expandAll (room : Nat) : Nat → Bytes → Bytes → Option Bytes
  | 0, _, _ => none
  | n + 1, ip, out =>
    if ip = [] then some out else (expand room out ip).bind fun x => expandAll room n x.1 x.2

/-- `lzf_decompress`. -/
def lzfDecompress (c : Bytes) (room : Nat) : Option Bytes :=
  if c = [] then none else expandAll room (c.length + 1) c []

/-! ## What was compressed is expanded again -/

/-- The bytes are runs and references that expand to the text. -/
def Expands (room : Nat) (c t : Bytes) : Prop :=
  ∀ n rest, ∃ m, n ≤ m ∧ expandAll room (n + c.length) (c ++ rest) [] = expandAll room m rest t

variable {room n : Nat} {s c t : Bytes}

theorem Expands.snoc {d u : Bytes} (h : Expands room c t) (hd : d ≠ [])
    (hexpand : ∀ rest, expand room t (d ++ rest) = some (rest, u)) :
    Expands room (c ++ d) u := by
  intro n rest
  have hpos := length_pos_iff.2 hd
  obtain ⟨m, hm, heq⟩ := h (n + d.length) (d ++ rest)
  obtain ⟨m, rfl⟩ := Nat.exists_eq_add_one_of_ne_zero (show m ≠ 0 by omega)
  refine ⟨m, by omega, ?_⟩
  rw [length_append, Nat.add_comm c.length, ← Nat.add_assoc, append_assoc, heq, expandAll,
    if_neg (by simp [hd]), hexpand]
  rfl

theorem Expands.lzfDecompress_eq (h : Expands room c t) (ht : t ≠ []) :
    lzfDecompress c room = some t := by
  obtain ⟨m, hm, heq⟩ := h 1 []
  obtain ⟨m, rfl⟩ := Nat.exists_eq_add_one_of_ne_zero (show m ≠ 0 by omega)
  have hend : expandAll room (m + 1) [] t = some t := if_pos rfl
  rw [append_nil, Nat.add_comm 1, hend] at heq
  rw [lzfDecompress, heq]
  refine if_neg ?_
  rintro rfl
  exact ht (Option.some.inj heq).symm

theorem take_append_byte {i : Nat} (hi : i < s.length) :
    s.take i ++ [byte s i] = s.take (i + 1) := by
  rw [take_add_one, getElem?_eq_getElem hi, byte, getD_eq_getElem?_getD, getElem?_eq_getElem hi]
  rfl

theorem copy_take {i ref : Nat} (hi : i + n ≤ s.length) (href : ref < i)
    (hsame : ∀ k < n, byte s (ref + k) = byte s (i + k)) :
    copy n ref (s.take i) = s.take (i + n) := by
  induction n generalizing i ref with
  | zero => rfl
  | succ n ih =>
    have hbyte : byte (s.take i) ref = byte s i := by
      rw [← Nat.add_zero i, ← hsame 0 (by omega)]
      simp [byte, getElem?_take_of_lt href]
    have hrest : ∀ k < n, byte s (ref + 1 + k) = byte s (i + 1 + k) := by
      intro k hk
      rw [Nat.add_assoc, Nat.add_assoc, Nat.add_comm 1]
      exact hsame (k + 1) (by omega)
    rw [copy, hbyte, take_append_byte (by omega), ih (by omega) (by omega) hrest,
      Nat.add_right_comm]
    rfl

theorem Expands.run {lit : Bytes} {i : Nat} (h : Expands s.length c t)
    (heq : t ++ lit = s.take i) (hmax : lit.length ≤ 32) :
    Expands s.length (c ++ run lit) (s.take i) := by
  have hlen := congrArg length heq
  rw [length_append, length_take] at hlen
  rw [← heq, LzfCodec.run]
  split
  · rename_i hnil
    simpa [hnil] using h
  · rename_i hne
    have hpos := length_pos_iff.2 hne
    have hctrl : (UInt8.ofNat (lit.length - 1)).toNat + 1 = lit.length := by
      rw [UInt8.toNat_ofNat']
      omega
    refine h.snoc (cons_ne_nil _ _) fun rest => ?_
    simp (disch := omega) only [cons_append, expand, hctrl, length_append, if_neg]
    simp

theorem expand_reference {off len : Nat} (hoff : off < 8192) (hlen : 3 ≤ len) (hmax : len ≤ 264)
    (hroom : t.length + len ≤ room) (hback : off < t.length) (rest : Bytes) :
    expand room t (reference off len ++ rest) = some (rest, copy len (t.length - off - 1) t) := by
  have hbyte (b : UInt8) (l : Bytes) : byte (b :: l) 0 = b := rfl
  have hlow : off / 256 * 256 + off % 256 = off := by omega
  have hhigh {l : Nat} (h : l ≤ 7) : (off / 256 + l * 32) % 256 / 32 = l ∧
      (off / 256 + l * 32) % 256 % 32 = off / 256 := by omega
  have hlong (h : 7 ≤ len - 2) : 7 + (len - 2 - 7) % 256 = len - 2 := by omega
  rw [reference]
  split
  all_goals
    simp (disch := omega) only [cons_append, nil_append, expand, expandReference, hbyte, hlow,
      hhigh, hlong, UInt8.toNat_ofNat', Nat.reducePow, if_pos, if_neg, tail_cons, reduceCtorEq,
      or_false, if_false, if_true, Nat.sub_add_cancel]

theorem matchLength_spec {same : Nat → Bool} {maxlen free len : Nat}
    (h : ∀ k ≤ len, same k = true) :
    len < matchLength same maxlen n free len ∧
      matchLength same maxlen n free len ≤ max (len + free + 1) maxlen ∧
      ∀ k < matchLength same maxlen n free len, same k = true := by
  have hone : ∀ k < len + 1, same k = true := fun k hk => h k (Nat.le_of_lt_succ hk)
  induction n generalizing free len with
  | zero => exact ⟨Nat.lt_succ_self _, by rw [matchLength]; omega, hone⟩
  | succ n ih =>
    rw [matchLength]
    split
    · rename_i hgo
      have hnext : ∀ k ≤ len + 1, same k = true := fun k hk =>
        (Nat.le_succ_iff.1 hk).elim (h k) fun heq => heq ▸ hgo.2
      obtain ⟨hlt, hle, hsame⟩ := @ih (free - 1) (len + 1) hnext
        fun k hk => hnext k (Nat.le_of_lt_succ hk)
      exact ⟨by omega, by omega, hsame⟩
    · exact ⟨Nat.lt_succ_self _, by omega, hone⟩

namespace Compressor

variable {x x' : Compressor}

/-- What is written expands to the input before the run. -/
structure Open (s : Bytes) (x : Compressor) : Prop where
  ip : x.ip ≤ s.length
  lit : x.lit.length < 32
  out : ∃ t, Expands s.length x.out t ∧ t ++ x.lit = s.take x.ip

/-- Without a run there is nothing but what is written. -/
theorem open_of_expands (hip : x.ip ≤ s.length) (hlit : x.lit = [])
    (hout : Expands s.length x.out (s.take x.ip)) : Open s x :=
  ⟨hip, by simp [hlit], _, hout, by rw [hlit, append_nil]⟩

theorem Open.stopRun_expands (h : Open s x) : Expands s.length x.stopRun.out (s.take x.ip) := by
  obtain ⟨t, ht, heq⟩ := h.out
  exact ht.run heq h.lit.le

theorem literal_ip (x : Compressor) : (x.literal s).ip = x.ip + 1 := by
  unfold literal
  dsimp only
  split <;> rfl

theorem literal_open (h : Open s x) (hip : x.ip < s.length) : Open s (x.literal s) := by
  obtain ⟨t, ht, heq⟩ := h.out
  have heq' : t ++ (x.lit ++ [byte s x.ip]) = s.take (x.ip + 1) := by
    rw [← append_assoc, heq, take_append_byte hip]
  have hlit : (x.lit ++ [byte s x.ip]).length ≤ 32 := by
    rw [length_append]
    exact h.lit
  unfold literal
  dsimp only
  split
  · exact open_of_expands hip rfl (ht.run heq' hlit)
  · exact ⟨hip, lt_of_le_of_ne hlit ‹_›, t, ht, heq'⟩

theorem iterate_literal_open (h : Open s x) (hn : x.ip + n = s.length) :
    Open s ((literal s)^[n] x) ∧ ((literal s)^[n] x).ip = s.length := by
  induction n generalizing x with
  | zero => exact ⟨h, hn⟩
  | succ n ih =>
    rw [iterate_succ_apply]
    exact ih (literal_open h (by omega)) (by rw [literal_ip]; omega)

/-- The table does not matter. -/
theorem rehash_open (h : Open s x) (hip : 2 ≤ x.ip) :
    Open s (x.rehash s) ∧ (x.rehash s).ip = x.ip := by
  unfold rehash
  split
  · exact ⟨h, rfl⟩
  · have hsame : x.ip - 2 + 1 + 1 = x.ip := by omega
    exact ⟨⟨hsame.trans_le h.ip, h.lit, hsame.symm ▸ h.out⟩, hsame⟩

theorem refer_open {ref : Nat} (h : Open s x) (hip : x.ip + 2 < s.length) (href : ref < x.ip)
    (hoff : x.ip - ref - 1 < 8192) (hsame : ∀ k ≤ 2, same s ref x.ip k = true) :
    Open s (x.refer s ref) ∧ x.ip < (x.refer s ref).ip := by
  unfold refer
  extract_lets maxlen len
  obtain ⟨hlt, hle, hall⟩ : 2 < len ∧ len ≤ max (2 + _ + 1) maxlen ∧ _ := matchLength_spec hsame
  have hmax : x.ip + len ≤ s.length ∧ len ≤ 264 := by
    split at hle <;> omega
  have htake : (s.take x.ip).length = x.ip := length_take_of_le h.ip
  have hexpand := expand_reference (t := s.take x.ip) hoff hlt hmax.2 (htake.symm ▸ hmax.1)
    (by omega)
  -- the text expanded so far is as long as the input read, so `ref` is the same place in both
  rw [htake, show x.ip - (x.ip - ref - 1) - 1 = ref by omega,
    copy_take hmax.1 href fun k hk => of_decide_eq_true (hall k hk)] at hexpand
  have hne : reference (x.ip - ref - 1) len ≠ [] := by
    unfold reference
    split <;> simp
  obtain ⟨hopen, hend⟩ := rehash_open (open_of_expands (x := { x.stopRun with
    out := x.stopRun.out ++ reference (x.ip - ref - 1) len, ip := x.ip + len }) hmax.1 rfl
      (h.stopRun_expands.snoc hne hexpand)) (show 2 ≤ x.ip + len by omega)
  exact ⟨hopen, hend ▸ show x.ip < x.ip + len by omega⟩

theorem step_open (h : Open s x) (hip : x.ip + 2 < s.length) (hstep : x.step s room = some x') :
    Open s x' ∧ x.ip < x'.ip := by
  have hopen (hval : UInt32) (htab : Nat → Nat) : Open s { x with hval, htab } :=
    ⟨h.ip, h.lit, h.out⟩
  unfold step at hstep
  extract_lets hval ref y at hstep
  split at hstep
  · rename_i hmatch
    obtain ⟨-, heq⟩ := Option.ite_none_left_eq_some.1 hstep
    rw [← Option.some.inj heq]
    exact refer_open (hopen _ _) hip hmatch.1 hmatch.2.1 hmatch.2.2.2
  · obtain ⟨-, heq⟩ := Option.ite_none_left_eq_some.1 hstep
    rw [← Option.some.inj heq, literal_ip]
    exact ⟨literal_open (hopen _ _) (show x.ip < _ by omega), Nat.lt_succ_self _⟩

theorem loop_open (h : Open s x) (hn : s.length ≤ x.ip + n)
    (hloop : loop s room n x = some x') : Open s x' ∧ s.length ≤ x'.ip + 2 := by
  induction n generalizing x with
  | zero =>
    cases hloop
    exact ⟨h, by omega⟩
  | succ n ih =>
    rw [loop] at hloop
    split at hloop
    · rename_i hip
      obtain ⟨y, hy, hrest⟩ := Option.bind_eq_some_iff.1 hloop
      obtain ⟨hopen, hlt⟩ := step_open h hip hy
      exact ih hopen (by omega) hrest
    · cases hloop
      exact ⟨h, by omega⟩

/-- Two bytes after the loop need three bytes of room at most. -/
theorem iterate_literal_length (x : Compressor) (hn : n ≤ 2) :
    ((literal s)^[n] x).stopRun.out.length ≤ x.op + 3 := by
  have hstop (x : Compressor) : x.stopRun.out.length ≤ x.op := by
    rw [stopRun, op, length_append, run]
    split
    · exact Nat.le_add_right_of_le (Nat.le_succ _)
    · rw [length_cons, Nat.add_right_comm, ← Nat.add_assoc]
  have hone (x : Compressor) :
      (x.literal s).stopRun.out.length ≤ x.op + 1 ∧ (x.literal s).op ≤ x.op + 2 := by
    unfold literal stopRun op run
    dsimp only
    split <;> split <;> simp_all
    all_goals omega
  match n, hn with
  | 0, _ => exact (hstop x).trans (Nat.le_add_right _ _)
  | 1, _ => exact (hone x).1.trans (Nat.add_le_add_left (by decide) _)
  | 2, _ => exact (hone _).1.trans (Nat.add_le_add_right (hone x).2 1)

end Compressor

theorem lzfCompress_spec {htab : Nat → Nat} (h : lzfCompress htab s room = some c) :
    s ≠ [] ∧ c.length ≤ room ∧ Expands s.length c s := by
  unfold lzfCompress at h
  split_ifs at h with hempty
  obtain ⟨x, hx, h⟩ := Option.bind_eq_some_iff.1 h
  split_ifs at h with hroom
  cases h
  obtain ⟨hopen, hend⟩ := Compressor.loop_open (Compressor.open_of_expands (Nat.zero_le _) rfl
    fun n rest => ⟨n, le_rfl, rfl⟩) (Nat.le_add_left _ _) hx
  obtain ⟨hlast, hall⟩ := Compressor.iterate_literal_open hopen (Nat.add_sub_cancel' hopen.ip)
  have hexpands := hlast.stopRun_expands
  rw [hall, take_length] at hexpands
  have hlength := Compressor.iterate_literal_length (s := s) (n := s.length - x.ip) x (by omega)
  exact ⟨fun hs => hempty (.inl hs), by omega, hexpands⟩

/-- Whatever the table held, what was compressed fits in its buffer, and is expanded to what
it was. -/
theorem lzf_round_trip (htab : Nat → Nat) (h : lzfCompress htab s room = some c) :
    c.length ≤ room ∧ lzfDecompress c s.length = some s :=
  have hspec := lzfCompress_spec h
  ⟨hspec.2.1, hspec.2.2.lzfDecompress_eq hspec.1⟩

theorem lzf_round_trip_letters : ∃ c, lzfCompress (fun _ => 0) (replicate 24 97) 20 = some c ∧
    lzfDecompress c (replicate 24 97).length = some (replicate 24 97) := by
  have h : lzfCompress (fun _ => 0) (replicate 24 97) 20 =
      some [1, 97, 97, 224, 11, 0, 1, 97, 97] := by decide +kernel
  exact ⟨_, h, (lzf_round_trip _ h).2⟩

/-- The functions as RDB files use them. -/
def lzf (htab : Nat → Nat) : Lzf where
  compress := lzfCompress htab
  decompress := lzfDecompress
  compress_length _ _ _ h := (lzfCompress_spec h).2.1
  decompress_compress _ _ _ h := (lzfCompress_spec h).2.2.lzfDecompress_eq (lzfCompress_spec h).1

/-- What `rdbSaveRawString` writes, with the sizes in the types of C, is loaded as it was. -/
theorem stored_string_loads (htab : Nat → Nat) (enabled : Bool) (h : s.length < 2 ^ 31) :
    Reads (rdbLoadStringObject (lzf htab))
      (Counted.rdbSaveRawString ⟨lzf htab, enabled⟩ s).written s :=
  @reads_rawString ⟨lzf htab, enabled⟩ s h

theorem stored_string_loads_letters : Reads (rdbLoadStringObject (lzf fun _ => 0))
    (Counted.rdbSaveRawString ⟨lzf fun _ => 0, true⟩ (replicate 24 97)).written
    (replicate 24 97) :=
  stored_string_loads _ _ (by decide)

end XredisCrdt.Rdb.LzfCodec
