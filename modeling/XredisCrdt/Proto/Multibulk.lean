import XredisCrdt.Util
import Mathlib.Tactic.Set

/-!
# The RESP request format: encoder and resumable parser

`encodeCommand` is the wire form of a command. `processMultibulkBuffer` consumes
as much of one command as the query buffer holds and leaves its position in the
fields of `Input`, so that it can go on when more bytes have arrived.

The results are stated from any state in the middle of a command (`Awaits`), so no
matter how the bytes of a stream are split the same commands come out.
-/

namespace XredisCrdt.Proto

open Lib.Decimal List

/-- `PROTO_INLINE_MAX_SIZE`. -/
def protoInlineMaxSize : Nat := 1024 * 64

/-- `PROTO_MBULK_BIG_ARG`. -/
def protoMbulkBigArg : Nat := 1024 * 32

/-- The largest number of arguments of a command. -/
def maxMultibulkLen : Nat := 1024 * 1024

/-! ## Encoding -/

/-- A marker byte, a number and the end of the line. -/
def header (marker : UInt8) (n : Nat) : Bytes := marker :: digits n ++ crlf

/-- `$<len>\r\n<arg>\r\n`. -/
def encodeBulk (arg : Bytes) : Bytes := header 36 arg.length ++ arg ++ crlf

/-- `*<argc>\r\n` and the arguments. -/
def encodeCommand (argv : Argv) : Bytes := header 42 argv.length ++ argv.flatMap encodeBulk

/-! ## Parsing -/

/-- The request type of a client, `0` being none. -/
inductive ReqType
  | none
  | inline
  | multibulk
  deriving DecidableEq, Repr

/-- The fields of a client that the request parsers work on; `bulklen` is `none`
for `-1`. -/
structure Input where
  querybuf : Bytes
  reqtype : ReqType
  multibulklen : Nat
  bulklen : Option Nat
  argv : Argv
  deriving DecidableEq, Repr

/-- What a request parser returns: a command is ready (`C_OK`), more bytes are
needed (`C_ERR`), or the error text of a protocol error (`C_ERR` and the client
is to be closed). -/
inductive ParseResult
  | ok
  | again
  | protocolError (text : Bytes)
  deriving DecidableEq, Repr

/-- The bulk length at `pos`: not there yet, malformed (with the position the
buffer is trimmed to), or known, with the buffer and the position of the bulk. -/
inductive BulkLen
  | wait
  | error (text : Bytes) (trim : Nat)
  | known (buf : Bytes) (pos len : Nat)

/-- Read the bulk length at `pos`. A large bulk is moved to the start of the
buffer. -/
def readBulkLen (maxBulk : Nat) (buf : Bytes) (pos : Nat) : BulkLen :=
  match strchr (buf.drop pos) 13 with
  | none =>
    if buf.length > protoInlineMaxSize then
      .error (ascii "Protocol error: too big bulk count string") 0
    else .wait
  | some k =>
    if pos + k + 2 > buf.length then .wait
    else if buf[pos]? ≠ some 36 then
      .error (ascii "Protocol error: expected '$', got '" ++ (buf.drop pos).take 1 ++ ascii "'") pos
    else match string2ll ((buf.drop (pos + 1)).take (k - 1)) with
      | none => .error (ascii "Protocol error: invalid bulk length") pos
      | some ll =>
        if ll < 0 ∨ ll > maxBulk then .error (ascii "Protocol error: invalid bulk length") pos
        else if ll ≥ protoMbulkBigArg then .known (buf.drop (pos + k + 2)) 0 ll.toNat
        else .known buf (pos + k + 2) ll.toNat

/-- Where the argument loop ends: the buffer with the position in it, the number
of arguments missing, the bulk length if known and the arguments read; or a
protocol error. -/
inductive LoopEnd
  | stop (buf : Bytes) (pos multibulklen : Nat) (bulklen : Option Nat) (argv : Argv)
  | error (text : Bytes) (trim : Nat) (buf : Bytes) (multibulklen : Nat) (argv : Argv)

/-- The loop `while(c->multibulklen)`. -/
def bulkLoop (maxBulk : Nat) : Nat → Bytes → Nat → Option Nat → Argv → LoopEnd
  | 0, buf, pos, bulklen, argv => .stop buf pos 0 bulklen argv
  | n + 1, buf, pos, bulklen, argv =>
    let len := match bulklen with
      | some l => BulkLen.known buf pos l
      | none => readBulkLen maxBulk buf pos
    match len with
    | .wait => .stop buf pos (n + 1) none argv
    | .error text trim => .error text trim buf (n + 1) argv
    | .known buf pos l =>
      if buf.length - pos < l + 2 then .stop buf pos (n + 1) (some l) argv
      else if pos = 0 ∧ l ≥ protoMbulkBigArg ∧ buf.length = l + 2 then
        -- the buffer is just the bulk: it becomes the argument itself
        bulkLoop maxBulk n [] 0 none (argv ++ [buf.take l])
      else bulkLoop maxBulk n buf (pos + l + 2) none (argv ++ [(buf.drop pos).take l])

/-- The end of `processMultibulkBuffer`: trim the buffer to the position. -/
def finishLoop (i : Input) : LoopEnd → Input × ParseResult
  | .stop buf pos n bulklen argv =>
    ({ i with querybuf := buf.drop pos, multibulklen := n, bulklen := bulklen, argv := argv },
      if n = 0 then .ok else .again)
  | .error text trim buf n argv =>
    ({ i with querybuf := buf.drop trim, multibulklen := n, bulklen := none, argv := argv },
      .protocolError text)

def processMultibulkBuffer (maxBulk : Nat) (i : Input) : Input × ParseResult :=
  if i.multibulklen = 0 then
    match strchr i.querybuf 13 with
    | none =>
      if i.querybuf.length > protoInlineMaxSize then
        (i, .protocolError (ascii "Protocol error: too big mbulk count string"))
      else (i, .again)
    | some k =>
      if k + 2 > i.querybuf.length then (i, .again)
      else match string2ll ((i.querybuf.drop 1).take (k - 1)) with
        | none => (i, .protocolError (ascii "Protocol error: invalid multibulk length"))
        | some ll =>
          if ll > maxMultibulkLen then
            (i, .protocolError (ascii "Protocol error: invalid multibulk length"))
          else if ll ≤ 0 then ({ i with querybuf := i.querybuf.drop (k + 2) }, .ok)
          else finishLoop i (bulkLoop maxBulk ll.toNat i.querybuf (k + 2) i.bulklen i.argv)
  else
    finishLoop i (bulkLoop maxBulk i.multibulklen i.querybuf 0 i.bulklen i.argv)

/-! ## Lines -/

variable {argv cmd : Argv} {buf f r t : Bytes} {i : Input} {maxBulk n pos : Nat}

/-- Two ways to cut one string: the longer front starts with the shorter one. -/
theorem exists_append_of_le {b h u : Bytes} (heq : b ++ f = h ++ u) (hle : h.length ≤ b.length) :
    ∃ c, b = h ++ c ∧ c ++ f = u := by
  obtain ⟨c, rfl⟩ : h <+: b := prefix_of_prefix_length_le ⟨u, heq.symm⟩ (prefix_append b f) hle
  rw [append_assoc] at heq
  exact ⟨c, rfl, append_cancel_left heq⟩

theorem strchr_append {xs : Bytes} {c : UInt8} (h : ∀ b ∈ xs, b ≠ c ∧ b ≠ 0) :
    strchr (xs ++ c :: t) c = some xs.length := by
  induction xs with
  | nil => simp [strchr]
  | cons x xs ih =>
    obtain ⟨hc, h0⟩ := h x (by simp)
    rw [cons_append, strchr, if_neg hc, if_neg h0, ih fun b hb => h b (by simp [hb])]
    rfl

theorem strchr_eq_none {xs : Bytes} {c : UInt8} (h : ∀ b ∈ xs, b ≠ c) : strchr xs c = none := by
  induction xs with
  | nil => rfl
  | cons x xs ih =>
    rw [strchr, if_neg (h x (by simp)), ih fun b hb => h b (by simp [hb])]
    split <;> rfl

/-- The bytes of a line before its end are neither CR nor NUL. -/
theorem line_clean {marker : UInt8} (hm : marker ≠ 13 ∧ marker ≠ 0) :
    ∀ b ∈ marker :: digits n, b ≠ 13 ∧ b ≠ 0 := by
  intro b hb
  rcases mem_cons.mp hb with rfl | hb
  · exact hm
  · have hdig := digits_isDigit hb
    constructor <;> rintro rfl <;> revert hdig <;> decide

theorem header_eq (marker : UInt8) (n : Nat) (t : Bytes) :
    header marker n ++ t = (marker :: digits n) ++ 13 :: 10 :: t := by
  simp [header, crlf]

theorem header_length (marker : UInt8) (n : Nat) :
    (header marker n).length = (digits n).length + 3 := by
  simp [header, crlf]

/-- A proper part of a line: the CR is missing, or only the LF is. -/
theorem strchr_partial_header {marker : UInt8} {b : Bytes} (hm : marker ≠ 13 ∧ marker ≠ 0)
    (h : b ++ f = header marker n) (hf : f ≠ []) :
    strchr b 13 = none ∨ ∃ k, strchr b 13 = some k ∧ k + 2 > b.length := by
  have hclean := line_clean (n := n) hm
  have hlen : b.length + f.length = (digits n).length + 3 := by
    rw [← header_length marker n, ← h, length_append]
  have hfpos : 0 < f.length := length_pos_iff.mpr hf
  have hb : b = (header marker n).take b.length := by rw [← h, take_left]
  have hline : header marker n = (marker :: digits n) ++ [13, 10] := by simp [header, crlf]
  by_cases hshort : b.length ≤ (digits n).length + 1
  · left
    refine strchr_eq_none fun x hx => ?_
    rw [hb, hline, take_append_of_le_length (by simpa using hshort)] at hx
    exact (hclean x (mem_of_mem_take hx)).1
  · right
    refine ⟨(digits n).length + 1, ?_, by omega⟩
    have hcut : b = (marker :: digits n) ++ 13 :: [] := by
      rw [hb, hline, take_append, take_of_length_le (by simp; omega)]
      congr 1
      rw [show b.length - (marker :: digits n).length = 1 by simp; omega]
      rfl
    rw [hcut, strchr_append hclean]
    rfl

/-! ## The bulk length -/

theorem readBulkLen_header (hn : n ≤ maxBulk) (hmax : maxBulk ≤ llongMax)
    (hbuf : buf.drop pos = header 36 n ++ t) :
    ∃ buf' pos', readBulkLen maxBulk buf pos = .known buf' pos' n ∧ buf'.drop pos' = t ∧
      buf'.length ≤ buf.length := by
  have hclean : ∀ b ∈ (36 : UInt8) :: digits n, b ≠ 13 ∧ b ≠ 0 := line_clean (by decide)
  rw [header_eq] at hbuf
  have hlen : pos + ((digits n).length + 1) + 2 ≤ buf.length := by
    have := congrArg List.length hbuf
    simp only [length_drop, length_append, length_cons] at this
    omega
  have hfind : strchr (buf.drop pos) 13 = some ((digits n).length + 1) := by
    rw [hbuf, strchr_append hclean]
    rfl
  have hmark : buf[pos]? = some 36 := by
    have := congrArg (fun l : Bytes => l[0]?) hbuf
    simpa using this
  have hnum :
      string2ll ((buf.drop (pos + 1)).take ((digits n).length + 1 - 1)) = some (n : Int) := by
    rw [← drop_drop, hbuf]
    simp only [cons_append, drop_succ_cons, drop_zero, Nat.add_sub_cancel, take_left]
    exact string2ll_digits (Nat.le_trans hn hmax)
  have hrest : buf.drop (pos + ((digits n).length + 1) + 2) = t := by
    rw [show pos + ((digits n).length + 1) + 2 = pos + ((digits n).length + 3) by omega,
      ← drop_drop, hbuf]
    simp [drop_append]
  simp only [readBulkLen, hfind, hmark, hnum]
  rw [if_neg (by omega), if_neg (by simp), if_neg (by omega)]
  split
  · exact ⟨_, _, by rw [Int.toNat_natCast], by rw [drop_zero]; exact hrest, by simp⟩
  · exact ⟨_, _, by rw [Int.toNat_natCast], hrest, Nat.le_refl _⟩

theorem readBulkLen_wait (hbuf : buf.drop pos ++ f = header 36 n) (hf : f ≠ [])
    (hlen : buf.length ≤ protoInlineMaxSize) : readBulkLen maxBulk buf pos = .wait := by
  rcases strchr_partial_header (by decide) hbuf hf with h | ⟨k, h, hk⟩
  · simp only [readBulkLen, h]
    rw [if_neg (by omega)]
  · simp only [readBulkLen, h]
    rw [length_drop] at hk
    rw [if_pos (by omega)]

/-! ## The argument loop -/

/-- A buffer that cannot run into the limit for a line without CR: it is short,
or it holds nothing but a large bulk. -/
def Fits (buf : Bytes) (pos : Nat) (bulklen : Option Nat) : Prop :=
  buf.length ≤ protoInlineMaxSize ∨
    ∃ l, bulklen = some l ∧ protoMbulkBigArg ≤ l ∧ pos = 0 ∧ buf.length ≤ l + 2

theorem bulkLoop_header {l : Nat} (n : Nat) (argv : Argv) (hl : l ≤ maxBulk)
    (hmax : maxBulk ≤ llongMax) (hbuf : buf.drop pos = header 36 l ++ t) :
    ∃ buf' pos', bulkLoop maxBulk (n + 1) buf pos none argv =
        bulkLoop maxBulk (n + 1) buf' pos' (some l) argv ∧
      buf'.drop pos' = t ∧ buf'.length ≤ buf.length := by
  obtain ⟨buf', pos', hread, hdrop, hlen⟩ := readBulkLen_header hl hmax hbuf
  exact ⟨buf', pos', by simp only [bulkLoop, hread], hdrop, hlen⟩

theorem bulkLoop_bulk (maxBulk n : Nat) (argv : Argv) (pos : Nat) {a : Bytes}
    (hbuf : buf.drop pos = a ++ crlf ++ t) :
    ∃ buf' pos', bulkLoop maxBulk (n + 1) buf pos (some a.length) argv =
        bulkLoop maxBulk n buf' pos' none (argv ++ [a]) ∧
      buf'.drop pos' = t ∧
      (Fits buf pos (some a.length) → buf'.length ≤ protoInlineMaxSize) := by
  have hlen : buf.length - pos = a.length + 2 + t.length := by
    have := congrArg List.length hbuf
    simp only [length_drop, length_append, crlf, length_cons, length_nil] at this
    omega
  simp only [bulkLoop]
  rw [if_neg (by omega)]
  split
  · rename_i hjust
    -- the buffer is exactly the bulk and its CRLF
    obtain ⟨rfl, _, hall⟩ := hjust
    obtain rfl : t = [] := length_eq_zero_iff.mp (by omega)
    refine ⟨[], 0, ?_, rfl, fun _ => Nat.zero_le _⟩
    rw [drop_zero] at hbuf
    rw [hbuf, append_assoc, take_left]
  · rename_i hnot
    refine ⟨buf, pos + a.length + 2, ?_, ?_, ?_⟩
    · rw [hbuf, append_assoc, take_left]
    · rw [Nat.add_assoc, ← drop_drop, hbuf]
      simp [crlf, drop_append]
    · rintro (h | ⟨l, hl, hbig, rfl, hle⟩)
      · exact h
      · obtain rfl : a.length = l := Option.some.inj hl
        exact absurd ⟨rfl, hbig, by omega⟩ hnot

/-- A command that a peer can send: not empty, and within the limits of the
receiving parser. -/
structure WfCommand (maxBulk : Nat) (cmd : Argv) : Prop where
  ne_nil : cmd ≠ []
  argc_le : cmd.length ≤ maxMultibulkLen
  bulk_le : ∀ a ∈ cmd, a.length ≤ maxBulk

theorem bulkLoop_complete (hmax : maxBulk ≤ llongMax) :
    ∀ (rest : Argv) (buf : Bytes) (pos : Nat) (argv : Argv),
      (∀ a ∈ rest, a.length ≤ maxBulk) → buf.drop pos = rest.flatMap encodeBulk ++ t →
      ∃ buf' pos', bulkLoop maxBulk rest.length buf pos none argv =
          .stop buf' pos' 0 none (argv ++ rest) ∧ buf'.drop pos' = t := by
  intro rest
  induction rest with
  | nil =>
    intro buf pos argv _ hbuf
    exact ⟨buf, pos, by simp [bulkLoop], by simpa using hbuf⟩
  | cons a rest ih =>
    intro buf pos argv hwf hbuf
    have hcut :
        buf.drop pos = header 36 a.length ++ (a ++ crlf ++ (rest.flatMap encodeBulk ++ t)) := by
      rw [hbuf]
      simp [encodeBulk]
    obtain ⟨buf₁, pos₁, hstep₁, hdrop₁, _⟩ :=
      bulkLoop_header rest.length argv (hwf a (by simp)) hmax hcut
    obtain ⟨buf₂, pos₂, hstep₂, hdrop₂, _⟩ := bulkLoop_bulk maxBulk rest.length argv pos₁ hdrop₁
    obtain ⟨buf', pos', hloop, hdrop⟩ := ih buf₂ pos₂ (argv ++ [a])
      (fun b hb => hwf b (by simp [hb])) hdrop₂
    refine ⟨buf', pos', ?_, hdrop⟩
    rw [length_cons, hstep₁, hstep₂, hloop]
    simp

/-! ## In the middle of a command -/

/-- The rest of `cmd` that is still to come when the parser stands at a number of
missing arguments, a bulk length if known, and the arguments read. -/
inductive Awaits (cmd : Argv) : Nat → Option Nat → Argv → Bytes → Prop
  | start : Awaits cmd 0 none [] (encodeCommand cmd)
  | args {argv rest : Argv} (hcmd : cmd = argv ++ rest) (hne : rest ≠ []) :
      Awaits cmd rest.length none argv (rest.flatMap encodeBulk)
  | bulk {argv rest : Argv} {a : Bytes} (hcmd : cmd = argv ++ a :: rest) :
      Awaits cmd (rest.length + 1) (some a.length) argv
        (a ++ crlf ++ rest.flatMap encodeBulk)

/-- At most the whole command is missing. -/
theorem Awaits.length_le {k : Nat} {bulklen : Option Nat} (h : Awaits cmd k bulklen argv r) :
    r.length ≤ (encodeCommand cmd).length := by
  cases h with
  | start => exact Nat.le_refl _
  | args hcmd _ =>
    rw [encodeCommand, hcmd, flatMap_append]
    simp only [length_append]
    omega
  | bulk hcmd =>
    rw [encodeCommand, hcmd, flatMap_append, flatMap_cons, encodeBulk]
    simp only [length_append]
    omega

/-- Something is missing. -/
theorem Awaits.ne_nil {k : Nat} {bulklen : Option Nat} (h : Awaits cmd k bulklen argv r) :
    r ≠ [] := by
  cases h with
  | start => simp [encodeCommand, header]
  | args _ hne =>
    obtain ⟨a, rest, rfl⟩ := exists_cons_of_ne_nil hne
    simp [encodeBulk, header]
  | bulk _ => simp [crlf]

/-- So few bytes are left that the parser cannot go on: a proper part of a line,
or of a bulk of known length. -/
def Parked : Option Nat → Nat → Prop
  | none, len => len < 67
  | some l, len => len < l + 2

/-- The loop has stopped inside `cmd`, with `f` missing behind the buffer. -/
def StoppedIn (cmd : Argv) (f : Bytes) (e : LoopEnd) : Prop :=
  ∃ buf pos n bulklen argv, e = .stop buf pos n bulklen argv ∧ n ≠ 0 ∧
    Awaits cmd n bulklen argv (buf.drop pos ++ f) ∧ Parked bulklen (buf.drop pos).length

theorem bulkLoop_short_bulk {a : Bytes} {rest : Argv}
    (hbuf : buf.drop pos ++ f = a ++ crlf ++ rest.flatMap encodeBulk)
    (hshort : (buf.drop pos).length < a.length + 2) :
    StoppedIn (argv ++ a :: rest) f
      (bulkLoop maxBulk (rest.length + 1) buf pos (some a.length) argv) := by
  refine ⟨buf, pos, rest.length + 1, some a.length, argv, ?_, by omega, ?_, hshort⟩
  · rw [length_drop] at hshort
    simp only [bulkLoop]
    rw [if_pos hshort]
  · rw [hbuf]
    exact .bulk rfl

theorem bulkLoop_incomplete (hmax : maxBulk ≤ llongMax) (hf : f ≠ []) :
    ∀ (rest : Argv) (buf : Bytes) (pos : Nat) (argv : Argv),
      (∀ a ∈ rest, a.length ≤ maxBulk) → buf.length ≤ protoInlineMaxSize →
      buf.drop pos ++ f = rest.flatMap encodeBulk →
      StoppedIn (argv ++ rest) f (bulkLoop maxBulk rest.length buf pos none argv) := by
  intro rest
  induction rest with
  | nil =>
    intro buf pos argv _ _ hbuf
    simp only [flatMap_nil, append_eq_nil_iff] at hbuf
    exact absurd hbuf.2 hf
  | cons a rest ih =>
    intro buf pos argv hwf hshort hbuf
    have ha : a.length ≤ maxBulk := hwf a (by simp)
    have hcut : buf.drop pos ++ f =
        header 36 a.length ++ (a ++ crlf ++ rest.flatMap encodeBulk) := by
      rw [hbuf]
      simp [encodeBulk]
    by_cases hline : (buf.drop pos).length < (header 36 a.length).length
    · -- the line with the bulk length is not complete
      obtain ⟨g, hg, _⟩ := exists_append_of_le hcut.symm (Nat.le_of_lt hline)
      have hgne : g ≠ [] := by
        rintro rfl
        simp [hg] at hline
      have hlen := digits_length_le (n := a.length)
        (Nat.lt_of_le_of_lt (Nat.le_trans ha hmax) (by decide))
      rw [header_length] at hline
      refine ⟨buf, pos, rest.length + 1, none, argv, ?_, by omega, ?_, ?_⟩
      · simp only [length_cons, bulkLoop, readBulkLen_wait hg.symm hgne hshort]
      · rw [hbuf]
        exact .args rfl (by simp)
      · show (buf.drop pos).length < 67
        omega
    · obtain ⟨b, hb, hrest⟩ := exists_append_of_le hcut (Nat.le_of_not_lt hline)
      obtain ⟨buf₁, pos₁, hstep₁, hdrop₁, hlen₁⟩ := bulkLoop_header rest.length argv ha hmax hb
      rw [length_cons, hstep₁]
      by_cases hbulk : b.length < a.length + 2
      · exact bulkLoop_short_bulk (by rw [hdrop₁]; exact hrest) (by rw [hdrop₁]; exact hbulk)
      · -- the bulk is complete: go on behind it
        obtain ⟨c, rfl, hcf⟩ := exists_append_of_le hrest (by simp [crlf]; omega)
        obtain ⟨buf₂, pos₂, hstep₂, hdrop₂, hlen₂⟩ :=
          bulkLoop_bulk maxBulk rest.length argv pos₁ hdrop₁
        rw [hstep₂, show argv ++ a :: rest = (argv ++ [a]) ++ rest by simp]
        exact ih buf₂ pos₂ (argv ++ [a]) (fun x hx => hwf x (by simp [hx]))
          (hlen₂ (.inl (Nat.le_trans hlen₁ hshort))) (by rw [hdrop₂]; exact hcf)

/-! ## The parser -/

/-- What `i` has parsed of `cmd` leaves `r` to come. -/
def Input.Awaiting (i : Input) (cmd : Argv) (r : Bytes) : Prop :=
  Awaits cmd i.multibulklen i.bulklen i.argv r

/-- `i` has parsed as much as its buffer allows. -/
def Input.IsParked (i : Input) : Prop := Parked i.bulklen i.querybuf.length

theorem finishLoop_stopped {e : LoopEnd} (h : StoppedIn cmd f e) :
    ∃ i', finishLoop i e = (i', .again) ∧ i'.Awaiting cmd (i'.querybuf ++ f) ∧ i'.IsParked ∧
      i'.reqtype = i.reqtype := by
  obtain ⟨buf, pos, n, bulklen, argv, rfl, hn, hawaits, hparked⟩ := h
  refine ⟨{ i with querybuf := buf.drop pos, multibulklen := n, bulklen := bulklen, argv := argv },
    ?_, hawaits, hparked, rfl⟩
  simp only [finishLoop, if_neg hn]

/-- The first line of a command in front of the buffer. -/
theorem processMultibulkBuffer_header (hn : 0 < n) (hle : n ≤ maxMultibulkLen)
    (h0 : i.multibulklen = 0) (hbuf : i.querybuf = header 42 n ++ t) :
    processMultibulkBuffer maxBulk i =
      finishLoop i (bulkLoop maxBulk n i.querybuf (header 42 n).length i.bulklen i.argv) := by
  have hclean : ∀ b ∈ (42 : UInt8) :: digits n, b ≠ 13 ∧ b ≠ 0 := line_clean (by decide)
  have hline := hbuf
  rw [header_eq] at hline
  have hfind : strchr i.querybuf 13 = some ((digits n).length + 1) := by
    rw [hline, strchr_append hclean]
    rfl
  have hnum :
      string2ll ((i.querybuf.drop 1).take ((digits n).length + 1 - 1)) = some (n : Int) := by
    rw [hline]
    simp only [cons_append, drop_succ_cons, drop_zero, Nat.add_sub_cancel, take_left]
    exact string2ll_digits (Nat.le_trans hle (by decide))
  have hlen : (digits n).length + 1 + 2 ≤ i.querybuf.length := by
    rw [hline]
    simp only [length_append, length_cons]
    omega
  simp only [processMultibulkBuffer, h0, hfind, hnum]
  rw [if_pos trivial, if_neg (by omega), if_neg (by omega), if_neg (by omega), Int.toNat_natCast,
    header_length]

/-- A buffer that starts with the missing rest of a command gives the command. -/
theorem processMultibulkBuffer_complete (hmax : maxBulk ≤ llongMax) (hwf : WfCommand maxBulk cmd)
    (h : i.Awaiting cmd r) (hbuf : i.querybuf = r ++ t) :
    processMultibulkBuffer maxBulk i =
      ({ i with querybuf := t, multibulklen := 0, bulklen := none, argv := cmd }, .ok) := by
  obtain ⟨querybuf, reqtype, n, bulklen, argv⟩ := i
  simp only at hbuf
  have hpos : 0 < cmd.length := length_pos_iff.mpr hwf.ne_nil
  cases h with
  | start =>
    have hline : querybuf = header 42 cmd.length ++ (cmd.flatMap encodeBulk ++ t) := by
      rw [hbuf, encodeCommand, append_assoc]
    obtain ⟨buf', pos', hloop, hdrop⟩ := bulkLoop_complete hmax cmd querybuf
      (header 42 cmd.length).length [] hwf.bulk_le (by rw [hline, drop_left])
    rw [processMultibulkBuffer_header hpos hwf.argc_le rfl hline, hloop]
    simp [finishLoop, hdrop]
  | @args argv rest hcmd hne =>
    have hlen : rest.length ≠ 0 := by simpa using hne
    obtain ⟨buf', pos', hloop, hdrop⟩ := bulkLoop_complete hmax rest querybuf 0 argv
      (fun a ha => hwf.bulk_le a (by simp [hcmd, ha])) hbuf
    simp only [processMultibulkBuffer, hlen, hloop, finishLoop, hdrop, hcmd]
    rfl
  | @bulk argv rest a hcmd =>
    rw [append_assoc] at hbuf
    obtain ⟨buf₁, pos₁, hstep, hdrop₁, _⟩ := bulkLoop_bulk maxBulk rest.length argv 0 hbuf
    obtain ⟨buf', pos', hloop, hdrop⟩ := bulkLoop_complete hmax rest buf₁ pos₁ (argv ++ [a])
      (fun b hb => hwf.bulk_le b (by simp [hcmd, hb])) hdrop₁
    simp only [processMultibulkBuffer, Nat.succ_ne_zero, hstep, hloop, finishLoop, hdrop, hcmd]
    simp

/-- A buffer that holds a proper part of the missing rest is consumed up to a
place from which the command can be continued. -/
theorem processMultibulkBuffer_incomplete (hmax : maxBulk ≤ llongMax) (hwf : WfCommand maxBulk cmd)
    (h : i.Awaiting cmd (i.querybuf ++ f)) (hf : f ≠ []) (hfits : Fits i.querybuf 0 i.bulklen) :
    ∃ i', processMultibulkBuffer maxBulk i = (i', .again) ∧
      i'.Awaiting cmd (i'.querybuf ++ f) ∧ i'.IsParked ∧ i'.reqtype = i.reqtype := by
  have hpos : 0 < cmd.length := length_pos_iff.mpr hwf.ne_nil
  obtain ⟨querybuf, reqtype, n, bulklen, argv⟩ := i
  simp only [Input.Awaiting] at h hfits
  generalize hr : querybuf ++ f = r at h
  cases h with
  | start =>
    have hshort : querybuf.length ≤ protoInlineMaxSize := by
      rcases hfits with h | ⟨l, hl, _⟩
      · exact h
      · cases hl
    have hlen := digits_length_le (n := cmd.length) (Nat.lt_of_le_of_lt hwf.argc_le (by decide))
    rw [encodeCommand] at hr
    by_cases hline : querybuf.length < (header 42 cmd.length).length
    · -- the first line is not complete
      obtain ⟨g, hg, _⟩ := exists_append_of_le hr.symm (Nat.le_of_lt hline)
      have hgne : g ≠ [] := by
        rintro rfl
        simp [hg] at hline
      rw [header_length] at hline
      refine ⟨⟨querybuf, reqtype, 0, none, []⟩, ?_, ?_, ?_, rfl⟩
      · rcases strchr_partial_header (by decide) hg.symm hgne with h | ⟨k, h, hk⟩
        · simp only [processMultibulkBuffer, h]
          rw [if_pos trivial, if_neg (by omega)]
        · simp only [processMultibulkBuffer, h]
          rw [if_pos trivial, if_pos hk]
      · show Awaits cmd 0 none [] (querybuf ++ f)
        rw [hr]
        exact .start
      · show querybuf.length < 67
        omega
    · obtain ⟨b, hb, hrest⟩ := exists_append_of_le hr (Nat.le_of_not_lt hline)
      rw [processMultibulkBuffer_header hpos hwf.argc_le rfl hb]
      refine finishLoop_stopped (bulkLoop_incomplete hmax hf cmd _ _ [] hwf.bulk_le hshort ?_)
      rw [hb, drop_left]
      exact hrest
  | @args argv rest hcmd hne =>
    have hshort : querybuf.length ≤ protoInlineMaxSize := by
      rcases hfits with h | ⟨l, hl, _⟩
      · exact h
      · cases hl
    have hlen : rest.length ≠ 0 := by simpa using hne
    simp only [processMultibulkBuffer, hlen, if_false]
    refine finishLoop_stopped ?_
    rw [hcmd]
    exact bulkLoop_incomplete hmax hf rest querybuf 0 argv
      (fun a ha => hwf.bulk_le a (by simp [hcmd, ha])) hshort hr
  | @bulk argv rest a hcmd =>
    simp only [processMultibulkBuffer, Nat.succ_ne_zero, if_false]
    refine finishLoop_stopped ?_
    rw [hcmd]
    by_cases hbulk : querybuf.length < a.length + 2
    · exact bulkLoop_short_bulk hr hbulk
    · obtain ⟨c, hc, hcf⟩ := exists_append_of_le hr (by simp [crlf]; omega)
      obtain ⟨buf₁, pos₁, hstep, hdrop₁, hlen₁⟩ := bulkLoop_bulk maxBulk rest.length argv 0 hc
      rw [hstep, show argv ++ a :: rest = (argv ++ [a]) ++ rest by simp]
      exact bulkLoop_incomplete hmax hf rest buf₁ pos₁ (argv ++ [a])
        (fun x hx => hwf.bulk_le x (by simp [hcmd, hx])) (hlen₁ hfits) (by rw [hdrop₁]; exact hcf)

/-! ## Whole streams -/

/-- A client that has just been reset, with a buffer. -/
def Input.fresh (buf : Bytes) : Input where
  querybuf := buf
  reqtype := .multibulk
  multibulklen := 0
  bulklen := none
  argv := []

/-- Parse a received stream command by command, at most `fuel` of them. -/
def decodeCommands (maxBulk : Nat) : Nat → Bytes → List Argv
  | 0, _ => []
  | fuel + 1, buf =>
    if buf = [] then []
    else match processMultibulkBuffer maxBulk (.fresh buf) with
      | (i, .ok) => i.argv :: decodeCommands maxBulk fuel i.querybuf
      | _ => []

theorem encodeCommand_ne_nil (cmd : Argv) : encodeCommand cmd ≠ [] := by
  simp [encodeCommand, header]

theorem length_le_flatMap_encodeCommand (cmds : List Argv) :
    cmds.length ≤ (cmds.flatMap encodeCommand).length := by
  induction cmds with
  | nil => exact Nat.le_refl 0
  | cons cmd cmds ih =>
    have := length_pos_iff.mpr (encodeCommand_ne_nil cmd)
    rw [flatMap_cons, length_append, length_cons]
    omega

/-- Decoding gives back the commands that were encoded. -/
theorem decodeCommands_encode (hmax : maxBulk ≤ llongMax) {cmds : List Argv}
    (hwf : ∀ cmd ∈ cmds, WfCommand maxBulk cmd) {fuel : Nat} (hfuel : cmds.length ≤ fuel) :
    decodeCommands maxBulk fuel (cmds.flatMap encodeCommand) = cmds := by
  induction cmds generalizing fuel with
  | nil => cases fuel <;> simp [decodeCommands]
  | cons cmd cmds ih =>
    cases fuel with
    | zero => simp at hfuel
    | succ fuel =>
      have hparse := processMultibulkBuffer_complete hmax (hwf cmd (by simp))
        (i := .fresh ((cmd :: cmds).flatMap encodeCommand)) (t := cmds.flatMap encodeCommand)
        .start (by simp [Input.fresh])
      rw [decodeCommands, if_neg (by simp [encodeCommand_ne_nil]), hparse]
      simp only
      rw [ih (fun c hc => hwf c (by simp [hc])) (by simpa using hfuel)]

end XredisCrdt.Proto
