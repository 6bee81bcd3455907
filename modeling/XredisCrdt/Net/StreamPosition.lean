import Mathlib.Data.List.Induction
import XredisCrdt.Net.Frame

/-!
# Where a link stands in its stream

A replication stream is a list of commands, of which a number of bytes has been
received. `StreamInv` relates a client to it: which commands it has processed,
what its parser still awaits of the next one, and what follows for the offsets.
`inputLoop_inv` shows that the loop of `processInputBuffer` keeps this and stops
only where the next command is not complete.
-/

namespace XredisCrdt.Net

open Proto Repl List

/-! ## Bytes of a stream -/

/-- The bytes of a stream. -/
def encoded (cmds : List Argv) : Bytes := cmds.flatMap encodeCommand

/-- The number of bytes of the first `k` commands. -/
def prefixLen (cmds : List Argv) (k : Nat) : Nat := (encoded (cmds.take k)).length

/-- How many commands are complete in the first `len` bytes. -/
def completeCommands : List Argv → Nat → Nat
  | [], _ => 0
  | cmd :: cmds, len =>
    if (encodeCommand cmd).length ≤ len then
      completeCommands cmds (len - (encodeCommand cmd).length) + 1
    else 0

variable (cmds : List Argv) (k : Nat)

theorem encoded_split : encoded cmds = encoded (cmds.take k) ++ encoded (cmds.drop k) := by
  rw [encoded, encoded, encoded, ← flatMap_append, take_append_drop]

theorem encoded_length :
    (encoded cmds).length = prefixLen cmds k + (encoded (cmds.drop k)).length := by
  rw [encoded_split cmds k, length_append, prefixLen]

theorem encoded_take : (encoded cmds).take (prefixLen cmds k) = encoded (cmds.take k) := by
  rw [encoded_split cmds k, prefixLen, take_left]

theorem prefixLen_zero : prefixLen cmds 0 = 0 := rfl

theorem prefixLen_cons (cmd : Argv) (cmds : List Argv) (k : Nat) :
    prefixLen (cmd :: cmds) (k + 1) = (encodeCommand cmd).length + prefixLen cmds k := by
  simp [prefixLen, encoded]

theorem prefixLen_mono {j k : Nat} (h : j ≤ k) : prefixLen cmds j ≤ prefixLen cmds k := by
  induction cmds generalizing j k with
  | nil => simp [prefixLen, encoded]
  | cons cmd cmds ih =>
    cases j with
    | zero => exact Nat.zero_le _
    | succ j =>
      cases k with
      | zero => omega
      | succ k =>
        rw [prefixLen_cons, prefixLen_cons]
        have := ih (j := j) (k := k) (by omega)
        omega

theorem prefixLen_lt {cmds : List Argv} {j k : Nat} (hjk : j < k) (hk : k ≤ cmds.length) :
    prefixLen cmds j < prefixLen cmds k := by
  induction cmds generalizing j k with
  | nil => simp only [length_nil] at hk; omega
  | cons cmd cmds ih =>
    have hpos := length_pos_iff.mpr (encodeCommand_ne_nil cmd)
    obtain ⟨k, rfl⟩ : ∃ k', k = k' + 1 := ⟨k - 1, by omega⟩
    rw [length_cons] at hk
    rw [prefixLen_cons]
    cases j with
    | zero =>
      rw [prefixLen_zero]
      omega
    | succ j =>
      rw [prefixLen_cons]
      have := ih (j := j) (k := k) (by omega) (by omega)
      omega

/-- The number of complete commands is where the received bytes end. -/
theorem completeCommands_eq {cmds : List Argv} {k len : Nat} (hk : k ≤ cmds.length)
    (hle : prefixLen cmds k ≤ len) (hlt : k < cmds.length → len < prefixLen cmds (k + 1)) :
    completeCommands cmds len = k := by
  induction cmds generalizing k len with
  | nil =>
    rw [length_nil] at hk
    show 0 = k
    omega
  | cons cmd cmds ih =>
    rw [length_cons] at hk hlt
    cases k with
    | zero =>
      have := hlt (by omega)
      rw [prefixLen_cons, prefixLen_zero] at this
      rw [completeCommands, if_neg (by omega)]
    | succ k =>
      rw [prefixLen_cons] at hle
      have hrest : k < cmds.length → len - (encodeCommand cmd).length < prefixLen cmds (k + 1) := by
        intro hlt'
        have := hlt (by omega)
        rw [prefixLen_cons] at this
        omega
      rw [completeCommands, if_pos (by omega), ih (k := k) (by omega) (by omega) hrest]

/-! ## Transactions in a trace -/

/-- The longest part of a trace after which no transaction is open. -/
def closedPrefix (trace : List Processed) : Nat :=
  trace.length - (trace.reverse.takeWhile (·.multi)).length

theorem closedPrefix_nil : closedPrefix [] = 0 := rfl

theorem closedPrefix_append (trace : List Processed) (p : Processed) :
    closedPrefix (trace ++ [p]) = if p.multi then closedPrefix trace else trace.length + 1 := by
  unfold closedPrefix
  cases hm : p.multi with
  | true => simp [hm]
  | false => simp [hm]

theorem closedPrefix_le (trace : List Processed) : closedPrefix trace ≤ trace.length :=
  Nat.sub_le _ _

theorem closedPrefix_mono {t t' : List Processed} (h : t <+: t') :
    closedPrefix t ≤ closedPrefix t' := by
  obtain ⟨u, rfl⟩ := h
  induction u using List.reverseRecOn with
  | nil => simp
  | append_singleton u p ih =>
    rw [← append_assoc, closedPrefix_append]
    split
    · exact ih
    · have := closedPrefix_le t
      rw [length_append]
      omega

/-! ## The invariant of a link -/

variable {σ : Type}

/-- The parser is between two commands. -/
def AtStart (i : Input) : Prop := i.multibulklen = 0 ∧ i.bulklen = none ∧ i.argv = []

/-- `r` is what the parser awaits of the command after the first `done` ones. -/
def AwaitsNext (stream : List Argv) (done : Nat) (i : Input) (r : Bytes) : Prop :=
  match stream[done]? with
  | some cmd => i.Awaiting cmd r
  | none => r = [] ∧ AtStart i

/-- A stream of commands that a link can carry, within the limits of the parser. -/
structure LinkStream (P : Procs σ) (peer : Option Int) (maxBulk : Nat)
    (stream : List Argv) : Prop where
  maxBulk_le : maxBulk ≤ llongMax
  wf : ∀ cmd ∈ stream, WfCommand maxBulk cmd
  link : ∀ cmd ∈ stream, LinkCommand P peer cmd

/-- The client has been sent the first `received` bytes of a stream whose first
byte has the offset `start + 1`, and has last forwarded its bytes up to the
offset `base`. -/
structure StreamInv (peer : Option Int) (maxBulk : Nat) (stream : List Argv)
    (start base : Int) (received : Nat) (n : Node σ) : Prop where
  link : Link peer n
  queue : QueueOk n.c
  notSlave : n.c.isSlave = false
  notBlocked : n.c.blocked = false
  notClosing : n.c.closeAfterReply = false ∧ n.c.closeAsap = false
  notFreed : n.freed = false
  maxBulk : n.protoMaxBulkLen = maxBulk
  received_le : received ≤ (encoded stream).length
  argvs : n.trace.map (·.argv) = stream.take n.trace.length
  reqtype : n.c.input.reqtype = .multibulk ∨ n.c.input.reqtype = .none ∧ AtStart n.c.input
  awaits : ∃ r, AwaitsNext stream n.trace.length n.c.input r ∧
    r ++ encoded (stream.drop (n.trace.length + 1)) =
      n.c.input.querybuf ++ (encoded stream).drop received
  fits : Fits n.c.input.querybuf 0 n.c.input.bulklen
  readReploff : n.c.readReploff = start + received
  reploff : n.c.reploff = start + prefixLen stream (closedPrefix n.trace)
  used : n.c.pendingUsedOffset = n.c.reploff - base

/-- The parser has gone as far as the received bytes allow. -/
structure Drained (stream : List Argv) (received : Nat) (n : Node σ) : Prop where
  parked : n.c.input.IsParked
  next : n.trace.length < stream.length → received < prefixLen stream (n.trace.length + 1)

section Loop

variable {P : Procs σ} {peer : Option Int} {maxBulk : Nat} {stream : List Argv}
  {start base : Int} {received : Nat} {n : Node σ}

variable {cmd : Argv} {i : Input} {r t : Bytes}

theorem StreamInv.done_le (h : StreamInv peer maxBulk stream start base received n) :
    n.trace.length ≤ stream.length := by
  have := congrArg List.length h.argvs
  rw [length_map, length_take] at this
  omega

/-- The bytes of the processed commands have been received. -/
theorem StreamInv.prefixLen_le (h : StreamInv peer maxBulk stream start base received n) :
    prefixLen stream n.trace.length + n.c.input.querybuf.length ≤ received := by
  obtain ⟨r, hr, heq⟩ := h.awaits
  have hlen := congrArg List.length heq
  have htotal := encoded_length stream n.trace.length
  have hrecv := h.received_le
  rw [length_append, length_append, length_drop] at hlen
  unfold AwaitsNext at hr
  cases hcmd : stream[n.trace.length]? with
  | none =>
    have hend : stream.length ≤ n.trace.length := List.getElem?_eq_none_iff.mp hcmd
    rw [drop_eq_nil_of_le hend] at htotal
    rw [drop_eq_nil_of_le (by omega)] at hlen
    simp only [hcmd] at hr
    simp [hr.1, encoded] at hlen htotal
    simp [encoded] at hrecv
    omega
  | some cmd =>
    obtain ⟨hlt, hget⟩ := List.getElem?_eq_some_iff.mp hcmd
    have hdrop : stream.drop n.trace.length = cmd :: stream.drop (n.trace.length + 1) := by
      rw [drop_eq_getElem_cons hlt, hget]
    have hcons : (encoded (stream.drop n.trace.length)).length =
        (encodeCommand cmd).length + (encoded (stream.drop (n.trace.length + 1))).length := by
      rw [hdrop]
      simp [encoded]
    have hrest : r.length ≤ (encodeCommand cmd).length := by
      simp only [hcmd] at hr
      exact hr.length_le
    omega

/-- Where there is something left to parse or to read, it begins in a command of the stream. -/
theorem StreamInv.exists_next (h : StreamInv peer maxBulk stream start base received n)
    (hmore : n.c.input.querybuf ++ (encoded stream).drop received ≠ []) :
    ∃ cmd r, stream[n.trace.length]? = some cmd ∧ n.c.input.Awaiting cmd r ∧
      r ++ encoded (stream.drop (n.trace.length + 1)) =
        n.c.input.querybuf ++ (encoded stream).drop received := by
  obtain ⟨r, hr, heq⟩ := h.awaits
  unfold AwaitsNext at hr
  cases hcmd : stream[n.trace.length]? with
  | none =>
    have hend : stream.length ≤ n.trace.length := List.getElem?_eq_none_iff.mp hcmd
    simp only [hcmd] at hr
    rw [hr.1, drop_eq_nil_of_le (by omega)] at heq
    exact absurd heq.symm hmore
  | some cmd =>
    simp only [hcmd] at hr
    exact ⟨cmd, r, rfl, hr, heq⟩

/-- A stream is read by the multibulk parser. -/
theorem StreamInv.determineReqtype (h : StreamInv peer maxBulk stream start base received n)
    (hbuf : n.c.input.querybuf ≠ []) :
    determineReqtype n.c.input = { n.c.input with reqtype := .multibulk } := by
  obtain ⟨cmd, r, -, hr, heq⟩ := h.exists_next (append_ne_nil_of_left_ne_nil hbuf _)
  rcases h.reqtype with hm | ⟨hnone, hk, hb, ha⟩
  · rw [Net.determineReqtype, if_neg (by rw [hm]; decide), ← hm]
  · -- between two commands the buffer starts with the marker of a command
    rw [Input.Awaiting, hk, hb, ha] at hr
    have hhead : n.c.input.querybuf.head? = some 42 := by
      generalize hlen : (0 : Nat) = k at hr
      cases hr with
      | start =>
        rw [encodeCommand, header] at heq
        cases hq : n.c.input.querybuf with
        | nil => exact absurd hq hbuf
        | cons b bs =>
          rw [hq] at heq
          injection heq with hb' _
          rw [← hb']
          rfl
      | args hcmd hne =>
        exact absurd (length_eq_zero_iff.mp hlen.symm) hne
    rw [Net.determineReqtype, if_pos hnone, if_pos hhead]

/-- The client after the next command has been parsed. -/
def parsedInput (cmd : Argv) (t : Bytes) : Input where
  querybuf := t
  reqtype := .multibulk
  multibulklen := 0
  bulklen := none
  argv := cmd

theorem StreamInv.parse_complete (h : StreamInv peer maxBulk stream start base received n)
    (hs : LinkStream P peer maxBulk stream) (hcmd : stream[n.trace.length]? = some cmd)
    (hr : n.c.input.Awaiting cmd r) (hbuf : n.c.input.querybuf = r ++ t)
    (hne : n.c.input.querybuf ≠ []) :
    parseRequest n.protoMaxBulkLen (Net.determineReqtype n.c.input) = (parsedInput cmd t, .ok) := by
  rw [h.determineReqtype hne, h.maxBulk]
  exact processMultibulkBuffer_complete hs.maxBulk_le (hs.wf cmd (mem_of_getElem? hcmd))
    (i := { n.c.input with reqtype := .multibulk }) hr hbuf

theorem StreamInv.parse_incomplete (h : StreamInv peer maxBulk stream start base received n)
    (hs : LinkStream P peer maxBulk stream) {f : Bytes} (hcmd : stream[n.trace.length]? = some cmd)
    (hr : n.c.input.Awaiting cmd (n.c.input.querybuf ++ f)) (hf : f ≠ [])
    (hne : n.c.input.querybuf ≠ []) :
    ∃ i, parseRequest n.protoMaxBulkLen (Net.determineReqtype n.c.input) = (i, .again) ∧
      i.Awaiting cmd (i.querybuf ++ f) ∧ i.IsParked ∧ i.reqtype = .multibulk := by
  rw [h.determineReqtype hne, h.maxBulk]
  exact processMultibulkBuffer_incomplete hs.maxBulk_le (hs.wf cmd (mem_of_getElem? hcmd))
    (i := { n.c.input with reqtype := .multibulk }) hr hf h.fits

/-- The buffer behind a command that was complete is small enough again. -/
theorem fits_rest (h : Fits i.querybuf 0 i.bulklen) (hr : i.Awaiting cmd r)
    (hbuf : i.querybuf = r ++ t) : Fits t 0 none := by
  obtain ⟨querybuf, reqtype, k, bulklen, argv⟩ := i
  simp only [Input.Awaiting] at h hr hbuf
  have hlen := congrArg List.length hbuf
  rw [length_append] at hlen
  left
  rcases h with h | ⟨l, rfl, -, -, hle⟩
  · omega
  · -- a large bulk ends with the buffer
    cases hr with
    | bulk hcmd =>
      simp only [length_append, crlf, length_cons, length_nil] at hlen
      omega

/-- The awaited rest of the next command, if the parser is between two. -/
theorem awaitsNext_start (stream : List Argv) (done : Nat) (h : AtStart i) :
    ∃ r, AwaitsNext stream done i r ∧
      r ++ encoded (stream.drop (done + 1)) = encoded (stream.drop done) := by
  unfold AwaitsNext
  cases hcmd : stream[done]? with
  | none =>
    have hend : stream.length ≤ done := List.getElem?_eq_none_iff.mp hcmd
    refine ⟨[], ⟨rfl, h⟩, ?_⟩
    rw [drop_eq_nil_of_le hend, drop_eq_nil_of_le (by omega)]
    rfl
  | some cmd =>
    obtain ⟨hlt, hget⟩ := List.getElem?_eq_some_iff.mp hcmd
    refine ⟨encodeCommand cmd, ?_, ?_⟩
    · show Awaits cmd i.multibulklen i.bulklen i.argv (encodeCommand cmd)
      rw [h.1, h.2.1, h.2.2]
      exact .start
    · rw [drop_eq_getElem_cons hlt, hget]
      rfl

/-- A complete command is processed. -/
theorem StreamInv.command (h : StreamInv peer maxBulk stream start base received n)
    (hs : LinkStream P peer maxBulk stream) (hcmd : stream[n.trace.length]? = some cmd)
    (hr : n.c.input.Awaiting cmd r)
    (heq : r ++ encoded (stream.drop (n.trace.length + 1)) = n.c.input.querybuf ++ (encoded
      stream).drop received) (hbuf : n.c.input.querybuf = r ++ t) :
    ∃ n', processParsed P (n.withInput (parsedInput cmd t)) = n' ∧
      StreamInv peer maxBulk stream start base received n' ∧ Steady n n' ∧
      n'.c.input.querybuf = t ∧ n'.clientsPaused = n.clientsPaused ∧
      n'.unblocked = n.unblocked ∧ ∃ p, n'.trace = n.trace ++ [p] := by
  refine ⟨_, rfl, ?_⟩
  have hmem := mem_of_getElem? hcmd
  have hstep := processParsed_step (P := P) (n := n.withInput (parsedInput cmd t))
    h.link (hs.link cmd hmem) h.queue h.notFreed
  generalize processParsed P (n.withInput (parsedInput cmd t)) = n' at hstep ⊢
  obtain ⟨o, htrace⟩ := hstep.trace
  replace htrace : n'.trace = n.trace ++ [⟨cmd, o, n'.c.multi, !n'.c.multi⟩] := htrace
  have hinput : n'.c.input = ⟨t, .none, 0, none, []⟩ := hstep.input
  have hlen : n'.trace.length = n.trace.length + 1 := by
    rw [htrace, length_append]
    rfl
  have hrest :
      encoded (stream.drop (n.trace.length + 1)) = t ++ (encoded stream).drop received := by
    rw [hbuf, append_assoc] at heq
    exact append_cancel_left heq
  have htotal := encoded_length stream (n.trace.length + 1)
  have hrecv := h.received_le
  have hbytes := congrArg List.length hrest
  rw [length_append, length_drop] at hbytes
  refine ⟨?_, ?_, by rw [hinput], hstep.clientsPaused, hstep.unblocked, _, htrace⟩
  · have hst := hstep.steady
    refine ⟨hstep.link, hstep.queue, hst.isSlave.trans h.notSlave, hst.blocked.trans h.notBlocked,
      ⟨hst.closeAfterReply.trans h.notClosing.1, hst.closeAsap.trans h.notClosing.2⟩,
      hst.freed.trans h.notFreed, hst.protoMaxBulkLen.trans h.maxBulk, hrecv, ?_, ?_, ?_, ?_,
      hst.readReploff.trans h.readReploff, ?_, ?_⟩
    · rw [hlen, htrace, map_append, h.argvs, take_add_one, hcmd]
      rfl
    · rw [hinput]
      exact .inr ⟨rfl, rfl, rfl, rfl⟩
    · obtain ⟨r', hr', heq'⟩ := awaitsNext_start stream n'.trace.length (i := n'.c.input)
        (by rw [hinput]; exact ⟨rfl, rfl, rfl⟩)
      refine ⟨r', hr', ?_⟩
      rw [heq', hlen, hrest, hinput]
    · rw [hinput]
      exact fits_rest h.fits hr hbuf
    · have hoff := hstep.reploff
      replace hoff : n'.c.reploff =
        if n'.c.multi then n.c.reploff else n.c.readReploff - t.length := hoff
      rw [htrace, closedPrefix_append, hoff]
      split
      · exact h.reploff
      · rw [h.readReploff]
        omega
    · have hoff := hstep.reploff
      have hused := hstep.used
      replace hoff : n'.c.reploff =
        if n'.c.multi then n.c.reploff else n.c.readReploff - t.length := hoff
      replace hused : n'.c.pendingUsedOffset = if n'.c.multi then n.c.pendingUsedOffset
        else n.c.pendingUsedOffset + (n.c.readReploff - t.length - n.c.reploff) := hused
      have hbase := h.used
      rw [hoff, hused]
      split <;> omega
  · exact (steady_withInput n _).trans hstep.steady

/-- The next command is not complete. -/
theorem StreamInv.lt_prefixLen (h : StreamInv peer maxBulk stream start base received n)
    (heq : r ++ encoded (stream.drop (n.trace.length + 1)) = n.c.input.querybuf ++ (encoded
      stream).drop received) (hshort : n.c.input.querybuf.length < r.length) :
    received < prefixLen stream (n.trace.length + 1) := by
  have hlen := congrArg List.length heq
  have htotal := encoded_length stream (n.trace.length + 1)
  have hrecv := h.received_le
  rw [length_append, length_append, length_drop] at hlen
  omega

theorem StreamInv.drained_nil (h : StreamInv peer maxBulk stream start base received n)
    (hbuf : n.c.input.querybuf = []) : Drained stream received n := by
  constructor
  · unfold Input.IsParked Parked
    rw [hbuf]
    split
    · exact Nat.zero_lt_succ _
    · exact Nat.zero_lt_succ _
  · intro hlt
    obtain ⟨r, hr, heq⟩ := h.awaits
    rw [AwaitsNext, getElem?_eq_getElem hlt] at hr
    refine h.lt_prefixLen heq ?_
    rw [hbuf]
    exact length_pos_iff.mpr hr.ne_nil

/-- The end of a pause changes nothing for the link. -/
theorem StreamInv.clientsArePaused (h : StreamInv peer maxBulk stream start base received n) :
    StreamInv peer maxBulk stream start base received (clientsArePaused n) ∧
      Steady n (clientsArePaused n) ∧ (Net.clientsArePaused n).trace = n.trace ∧
      (Net.clientsArePaused n).c = n.c := by
  unfold Net.clientsArePaused
  split
  · exact ⟨⟨h.link, h.queue, h.notSlave, h.notBlocked, h.notClosing, h.notFreed, h.maxBulk,
      h.received_le, h.argvs, h.reqtype, h.awaits, h.fits, h.readReploff, h.reploff, h.used⟩,
      ⟨rfl, rfl, rfl, rfl, rfl, rfl, rfl, rfl, rfl, rfl, rfl⟩, rfl, rfl⟩
  · exact ⟨h, .refl n, rfl, rfl⟩

theorem fits_of_parked (h : i.IsParked) : Fits i.querybuf 0 i.bulklen := by
  unfold Input.IsParked at h
  cases hb : i.bulklen with
  | none =>
    rw [hb] at h
    replace h : i.querybuf.length < 67 := h
    exact .inl (Nat.le_of_lt (Nat.lt_of_lt_of_le h (by decide)))
  | some l =>
    rw [hb] at h
    replace h : i.querybuf.length < l + 2 := h
    by_cases hbig : protoMbulkBigArg ≤ l
    · exact .inr ⟨l, rfl, hbig, rfl, Nat.le_of_lt h⟩
    · left
      simp only [protoMbulkBigArg, protoInlineMaxSize] at *
      omega

/-- The loop stops inside a command. -/
theorem StreamInv.stopped (h : StreamInv peer maxBulk stream start base received n) {f : Bytes}
    (hcmd : stream[n.trace.length]? = some cmd)
    (hrest : f ++ encoded (stream.drop (n.trace.length + 1)) = (encoded stream).drop received)
    (hf : f ≠ []) (hi : i.Awaiting cmd (i.querybuf ++ f)) (hparked : i.IsParked)
    (hreq : i.reqtype = .multibulk) :
    StreamInv peer maxBulk stream start base received (n.withInput i) ∧
      Drained stream received (n.withInput i) := by
  have heq : (i.querybuf ++ f) ++ encoded (stream.drop (n.trace.length + 1)) =
      i.querybuf ++ (encoded stream).drop received := by
    rw [append_assoc, hrest]
  have hinv : StreamInv peer maxBulk stream start base received (n.withInput i) := by
    refine ⟨h.link, h.queue, h.notSlave, h.notBlocked, h.notClosing, h.notFreed, h.maxBulk,
      h.received_le, h.argvs, .inl hreq, ⟨i.querybuf ++ f, ?_, heq⟩,
      fits_of_parked hparked, h.readReploff, h.reploff, h.used⟩
    show AwaitsNext stream n.trace.length i (i.querybuf ++ f)
    rw [AwaitsNext, hcmd]
    exact hi
  refine ⟨hinv, hparked, ?_⟩
  intro _
  refine hinv.lt_prefixLen heq ?_
  have hpos := length_pos_iff.mpr hf
  show i.querybuf.length < (i.querybuf ++ f).length
  rw [length_append]
  omega

/-- What `processInputBuffer` leaves behind: the link stands in the stream as
before, and unless it is paused nothing complete is left in the buffer. -/
structure LoopEnds (peer : Option Int) (maxBulk : Nat) (stream : List Argv)
    (start base : Int) (received : Nat) (n n' : Node σ) : Prop where
  inv : StreamInv peer maxBulk stream start base received n'
  steady : Steady n n'
  trace : n.trace <+: n'.trace
  drained : n'.clientsPaused = false → Drained stream received n'

/-- The parsed command `cmd` is the next one of the stream, and `advance` counts
its bytes and those of the open transaction before it. -/
structure CommandAt (peer : Option Int) (stream : List Argv) (start base : Int)
    (received : Nat) (n : Node σ) (cmd : Argv) : Prop where
  next : stream[n.trace.length]? = some cmd
  argv : n.c.input.argv = cmd
  argvs : n.trace.map (·.argv) = stream.take n.trace.length
  complete : prefixLen stream (n.trace.length + 1) ≤ received
  used : n.c.pendingUsedOffset = start + prefixLen stream (closedPrefix n.trace) - base
  advance : n.advance =
    (prefixLen stream (n.trace.length + 1) : Int) - prefixLen stream (closedPrefix n.trace)
  link : Link peer n
  queue : QueueOk n.c
  notFreed : n.freed = false

theorem StreamInv.commandAt (h : StreamInv peer maxBulk stream start base received n)
    (hcmd : stream[n.trace.length]? = some cmd)
    (heq : r ++ encoded (stream.drop (n.trace.length + 1)) = n.c.input.querybuf ++ (encoded
      stream).drop received) (hbuf : n.c.input.querybuf = r ++ t) :
    CommandAt peer stream start base received (n.withInput (parsedInput cmd t)) cmd := by
  have hrest :
      encoded (stream.drop (n.trace.length + 1)) = t ++ (encoded stream).drop received := by
    rw [hbuf, append_assoc] at heq
    exact append_cancel_left heq
  have hbytes := congrArg List.length hrest
  have htotal := encoded_length stream (n.trace.length + 1)
  have hrecv := h.received_le
  rw [length_append, length_drop] at hbytes
  refine ⟨hcmd, rfl, h.argvs, ?_, h.used.trans (by rw [h.reploff]; rfl), ?_, h.link, h.queue,
    h.notFreed⟩
  · show prefixLen stream (n.trace.length + 1) ≤ received
    omega
  · show n.c.readReploff - (t.length : Int) - n.c.reploff =
      (prefixLen stream (n.trace.length + 1) : Int) - prefixLen stream (closedPrefix n.trace)
    rw [h.readReploff, h.reploff]
    omega

/-- The rule for the loop: what parsing, the end of a pause and each command of
the stream keep is kept by `processInputBuffer`. -/
theorem inputLoop_rule (hs : LinkStream P peer maxBulk stream) {Q : Node σ → Prop}
    (hparse : ∀ n i, Q n → Q (n.withInput i)) (hpause : ∀ n, Q n → Q (clientsArePaused n))
    (hcommand : ∀ n cmd, CommandAt peer stream start base received n cmd → Q n →
      Q (processParsed P n)) (fuel : Nat) (n : Node σ) (hfuel : n.c.input.querybuf.length ≤ fuel)
    (h : StreamInv peer maxBulk stream start base received n) (hQ : Q n) :
    LoopEnds peer maxBulk stream start base received n (inputLoop P fuel n) ∧
      Q (inputLoop P fuel n) := by
  induction fuel generalizing n with
  | zero =>
    have hnil : n.c.input.querybuf = [] := length_eq_zero_iff.mp (Nat.le_zero.mp hfuel)
    exact ⟨⟨h, .refl n, prefix_refl _, fun _ => h.drained_nil hnil⟩, hQ⟩
  | succ fuel ih =>
    by_cases hbuf : n.c.input.querybuf = []
    · rw [inputLoop, if_pos (.inr hbuf)]
      exact ⟨⟨h, .refl n, prefix_refl _, fun _ => h.drained_nil hbuf⟩, hQ⟩
    obtain ⟨hm, hsteady, htrace, hc⟩ := h.clientsArePaused
    replace hQ := hpause n hQ
    rw [inputLoop, if_neg (by simp [h.notFreed, hbuf]), h.notSlave]
    simp only [Bool.false_eq_true, if_false]
    generalize clientsArePaused n = m at hm hsteady htrace hc hQ ⊢
    rw [← hc] at hbuf hfuel
    rw [hm.notSlave, hm.notBlocked, hm.notClosing.1, hm.notClosing.2]
    by_cases hpaused : m.clientsPaused = true
    · rw [if_pos (by simp [hpaused])]
      refine ⟨⟨hm, hsteady, htrace ▸ prefix_refl _, ?_⟩, hQ⟩
      intro hno
      rw [hpaused] at hno
      exact absurd hno (by decide)
    rw [if_neg (by simp [hpaused]), if_neg (by simp), if_neg (by simp)]
    obtain ⟨cmd, r, hcmd, hr, heq⟩ := hm.exists_next (append_ne_nil_of_left_ne_nil hbuf _)
    by_cases hlen : r.length ≤ m.c.input.querybuf.length
    · -- the next command is complete
      obtain ⟨t, ht, -⟩ := exists_append_of_le heq.symm hlen
      rw [hm.parse_complete hs hcmd hr ht hbuf]
      obtain ⟨n', hproc, hn', hst, hquery, -, -, p, hp⟩ := hm.command hs hcmd hr heq ht
      have hQ' : Q n' := by
        rw [← hproc]
        exact hcommand _ cmd (hm.commandAt hcmd heq ht) (hparse m _ hQ)
      have hne : (parsedInput cmd t).argv ≠ [] := (hs.wf cmd (mem_of_getElem? hcmd)).ne_nil
      simp only [if_neg hne, hproc]
      have hpos := length_pos_iff.mpr hr.ne_nil
      obtain ⟨hend, hQend⟩ := ih n' (by rw [hquery]; rw [ht, length_append] at hfuel; omega)
        hn' hQ'
      refine ⟨⟨hend.inv, (hsteady.trans hst).trans hend.steady, ?_, hend.drained⟩, hQend⟩
      refine List.IsPrefix.trans ?_ hend.trace
      rw [hp, htrace]
      exact prefix_append _ _
    · -- it is not
      obtain ⟨f, hf, hrest⟩ := exists_append_of_le heq (Nat.le_of_not_le hlen)
      have hfne : f ≠ [] := by
        rintro rfl
        rw [append_nil] at hf
        exact hlen (by rw [hf])
      rw [hf] at hr
      obtain ⟨i, hparse', hi, hparked, hreq⟩ := hm.parse_incomplete hs hcmd hr hfne hbuf
      rw [hparse']
      obtain ⟨hinv, hdrained⟩ := hm.stopped hcmd hrest hfne hi hparked hreq
      exact ⟨⟨hinv, hsteady.trans (steady_withInput m i), htrace ▸ prefix_refl _,
        fun _ => hdrained⟩, hparse m i hQ⟩

theorem inputLoop_inv (hs : LinkStream P peer maxBulk stream) (fuel : Nat) (n : Node σ)
    (hfuel : n.c.input.querybuf.length ≤ fuel)
    (h : StreamInv peer maxBulk stream start base received n) :
    LoopEnds peer maxBulk stream start base received n (inputLoop P fuel n) :=
  (inputLoop_rule hs (Q := fun _ => True) (fun _ _ _ => trivial) (fun _ _ => trivial)
    (fun _ _ _ _ => trivial) fuel n hfuel h trivial).1

end Loop

end XredisCrdt.Net
