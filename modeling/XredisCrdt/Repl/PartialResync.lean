import XredisCrdt.Repl.Backlog

/-!
# Partial resynchronization

`masterTryPartialResynchronization` decides whether a `PSYNC` or `CRDT.PSYNC`
request can be continued from the backlog, and sends the missing bytes if so.
A backlog that was created and then fed any chunks answers every request it
accepts with exactly the history from the requested offset on.
-/

namespace XredisCrdt.Repl

open Lib.RingBuffer List Option

/-- What `masterTryPartialResynchronization` reads of the requesting client, and
whether the reply line can be written to its socket. -/
structure PsyncRequest where
  replid : Bytes
  offset : Bytes
  capaBackstream : Bool
  capaPsync2 : Bool
  writeOk : Bool

/-- How a request is answered: by leaving it to a full resynchronization (with
an error text that was already added to the reply), by `+CONTINUE` and bytes of
the backlog, or, when the line cannot be written, by closing the client. The
last constructor stands for a copy loop that does not end. -/
inductive PsyncAnswer
  | needFullResync (reply : Bytes)
  | continued (line bytes : Bytes)
  | closed
  | diverged
  deriving DecidableEq, Repr

/-- The two replication ids are valid, the second one up to an offset only. -/
def idAccepted (srv : ReplServer) (id : Bytes) (psyncOffset : Int) : Bool :=
  strcaseeq id srv.replid ||
    (strcaseeq id srv.replid2 && decide (psyncOffset ≤ srv.secondReplidOffset))

/-- The window of offsets that can be asked for. -/
def inBacklog (srv : ReplServer) (psyncOffset : Int) : Bool :=
  srv.replBacklog.isSome && decide (srv.replBacklogOff ≤ psyncOffset) &&
    decide (psyncOffset ≤ srv.replBacklogOff + srv.replBacklogHistlen)

/-- The `+CONTINUE` line, with the id for a client that knows `PSYNC2`. -/
def continueLine (srv : ReplServer) (req : PsyncRequest) : Bytes :=
  if req.capaPsync2 then ascii "+CONTINUE " ++ cstr srv.replid ++ crlf
  else ascii "+CONTINUE" ++ crlf

def masterTryPartialResynchronization (isCrdtServer : Bool) (srv : ReplServer) (fuel : Nat)
    (req : PsyncRequest) : PsyncAnswer :=
  if isCrdtServer && req.capaBackstream then .needFullResync []
  else match string2ll req.offset with
    | none => .needFullResync (ascii "-ERR value is not an integer or out of range" ++ crlf)
    | some psyncOffset =>
      if !idAccepted srv req.replid psyncOffset then .needFullResync []
      else if !inBacklog srv psyncOffset then .needFullResync []
      else if !req.writeOk then .closed
      else match addReplyReplicationBacklog srv fuel psyncOffset with
        | some bytes => .continued (continueLine srv req) bytes
        | none => .diverged

/-! ## Feeding a sequence of chunks -/

/-- Feed the chunks one after the other. -/
def feedChunks (srv : ReplServer) (chunks : List Bytes) : Option ReplServer :=
  chunks.foldlM feedReplicationBacklog srv

theorem extend_extend (hist : Int → UInt8) (m : Int) (p q : Bytes) :
    extend (extend hist m p) (m + p.length) q = extend hist m (p ++ q) := by
  funext o
  unfold extend
  by_cases hlo : m < o
  · rw [if_pos hlo, if_pos hlo]
    by_cases hhi : m + p.length < o
    · rw [if_pos hhi, getElem?_append_right (by omega),
        show (o - m - 1).toNat - p.length = (o - (m + p.length) - 1).toNat by omega,
        getElem?_eq_none (l := p) (by omega), getD_none]
    · rw [if_neg hhi, getElem?_append_left (by omega)]
  · rw [if_neg hlo, if_neg (by omega), if_neg hlo]

theorem feedAllocated_masterReplOffset (srv : ReplServer) (mem : Nat → UInt8) (p : Bytes) :
    (feedAllocated srv mem p).masterReplOffset = srv.masterReplOffset + p.length := rfl

theorem feedChunks_inv (hist : Int → UInt8) (chunks : List Bytes) :
    ∀ {srv : ReplServer} {mem : Nat → UInt8}, srv.replBacklog = some mem → BacklogInv srv hist mem →
      ∃ srv' mem', feedChunks srv chunks = some srv' ∧ srv'.replBacklog = some mem' ∧
        BacklogInv srv' (extend hist srv.masterReplOffset chunks.flatten) mem' ∧
        srv'.masterReplOffset = srv.masterReplOffset + chunks.flatten.length ∧
        srv.replBacklogOff ≤ srv'.replBacklogOff := by
  induction chunks generalizing hist with
  | nil =>
    intro srv mem hmem hinv
    refine ⟨srv, mem, rfl, hmem, hinv.congr ?_, by simp, le_refl _⟩
    intro o _ ho
    rw [extend, if_neg (by omega)]
  | cons p chunks ih =>
    intro srv mem hmem hinv
    obtain ⟨mem₁, hmem₁, hinv₁⟩ := feedAllocated_inv hinv p
    obtain ⟨srv', mem', hrun, hmem', hinv', hmro, hoff⟩ := ih _ hmem₁ hinv₁
    rw [feedAllocated_masterReplOffset] at hinv' hmro
    refine ⟨srv', mem', ?_, hmem', ?_, ?_, le_trans (feedAllocated_off_le hinv p) hoff⟩
    · rw [feedChunks, foldlM_cons, feedReplicationBacklog, hmem]
      exact hrun
    · rwa [extend_extend] at hinv'
    · rw [hmro, flatten_cons, length_append]
      omega

theorem feedAllocated_histlen {srv : ReplServer} {hist : Int → UInt8} {mem : Nat → UInt8}
    (h : BacklogInv srv hist mem) (p : Bytes) :
    (feedAllocated srv mem p).replBacklogHistlen =
      min srv.replBacklogSize (srv.replBacklogHistlen + p.length) := by
  obtain ⟨-, hlen, -⟩ := feedLoop_spec p.length mem srv.replBacklogIdx srv.replBacklogHistlen p
    h.idx_lt (Nat.le_refl _)
  show (if _ > srv.replBacklogSize then srv.replBacklogSize else _) = _
  rw [hlen]
  split <;> omega

/-- How much of its history a backlog holds after some chunks. -/
theorem feedChunks_histlen (chunks : List Bytes) :
    ∀ {srv srv' : ReplServer} {hist : Int → UInt8} {mem : Nat → UInt8},
      srv.replBacklog = some mem → BacklogInv srv hist mem → feedChunks srv chunks = some srv' →
      srv'.replBacklogSize = srv.replBacklogSize ∧ srv'.replBacklogHistlen =
        min srv.replBacklogSize (srv.replBacklogHistlen + chunks.flatten.length) := by
  induction chunks with
  | nil =>
    intro srv srv' hist mem _ hinv hrun
    obtain rfl : srv = srv' := by simpa [feedChunks] using hrun
    have := hinv.histlen_le
    refine ⟨rfl, ?_⟩
    rw [flatten_nil, length_nil]
    omega
  | cons p chunks ih =>
    intro srv srv' hist mem hmem hinv hrun
    obtain ⟨mem₁, hmem₁, hinv₁⟩ := feedAllocated_inv hinv p
    rw [feedChunks, foldlM_cons, feedReplicationBacklog, hmem] at hrun
    obtain ⟨hsize, hlen⟩ := ih hmem₁ hinv₁ hrun
    have hsize₁ : (feedAllocated srv mem p).replBacklogSize = srv.replBacklogSize := rfl
    rw [hsize₁] at hsize hlen
    refine ⟨hsize, ?_⟩
    rw [hlen, feedAllocated_histlen hinv p, flatten_cons, length_append]
    omega

/-- Behind the offset at which a history was continued, its window up to the end
is the tail of the continuation. -/
theorem window_extend (hist : Int → UInt8) (m o : Int) (p : Bytes) (hlo : m < o)
    (hhi : o ≤ m + p.length + 1) :
    window (extend hist m p) o (m + p.length + 1 - o).toNat = p.drop (o - m - 1).toNat := by
  refine ext_getElem (by simp [window]; omega) fun k hk hk' => ?_
  rw [length_drop] at hk'
  rw [getElem_drop]
  simp only [window, getElem_map, getElem_range, extend]
  rw [if_pos (by omega), show (o + (k : Int) - m - 1).toNat = (o - m - 1).toNat + k by omega,
    getElem?_eq_getElem (by omega), getD_some]

/-! ## What is accepted and what is sent -/

theorem inBacklog_iff {srv : ReplServer} {o : Int} : inBacklog srv o = true ↔
    srv.replBacklog.isSome ∧ srv.replBacklogOff ≤ o ∧
      o ≤ srv.replBacklogOff + srv.replBacklogHistlen := by
  simp [inBacklog, and_assoc]

/-- A request with a valid id and an offset in the window is answered from the
backlog; the copy loop ends. -/
theorem masterTry_accepts {isCrdtServer : Bool} {srv : ReplServer} {hist : Int → UInt8}
    {mem : Nat → UInt8} (hmem : srv.replBacklog = some mem) (hinv : BacklogInv srv hist mem)
    {fuel : Nat} (hfuel : 2 ≤ fuel) {req : PsyncRequest} {offset : Int}
    (hback : (isCrdtServer && req.capaBackstream) = false)
    (hparse : string2ll req.offset = some offset)
    (hid : idAccepted srv req.replid offset = true) (hwin : inBacklog srv offset = true)
    (hwrite : req.writeOk = true) :
    masterTryPartialResynchronization isCrdtServer srv fuel req = .continued (continueLine srv req)
        (window hist offset (srv.masterReplOffset + 1 - offset).toNat) := by
  obtain ⟨_, hlo, hhi⟩ := inBacklog_iff.mp hwin
  simp only [masterTryPartialResynchronization, hback, hparse, hid, hwin, hwrite,
    addReplyReplicationBacklog_eq hinv hmem hfuel hlo hhi]
  rfl

/-- Everything that follows from an answer that is not a refusal. -/
theorem masterTry_not_refused {isCrdtServer : Bool} {srv : ReplServer} {fuel : Nat}
    {req : PsyncRequest}
    (h : ∀ reply, masterTryPartialResynchronization isCrdtServer srv fuel req ≠ .needFullResync
      reply) :
    (isCrdtServer && req.capaBackstream) = false ∧ ∃ offset, string2ll req.offset = some offset ∧
      idAccepted srv req.replid offset = true ∧ inBacklog srv offset = true := by
  unfold masterTryPartialResynchronization at h
  split at h
  · exact absurd rfl (h _)
  · rename_i hback
    refine ⟨by simpa using hback, ?_⟩
    cases hparse : string2ll req.offset with
    | none =>
      rw [hparse] at h
      exact absurd rfl (h _)
    | some offset =>
      simp only [hparse] at h
      refine ⟨offset, rfl, ?_, ?_⟩
      · by_contra hid
        rw [Bool.not_eq_true] at hid
        simp [hid] at h
      · by_contra hwin
        rw [Bool.not_eq_true] at hwin
        simp [hwin] at h

/-- A backlog of any size that was created and fed any chunks answers a request
it accepts with exactly the bytes from the requested offset up to the last one
fed, and refuses every other request. -/
theorem partial_resync_sends_missing_bytes (isCrdtServer : Bool) (srv₀ : ReplServer)
    (hnull : srv₀.replBacklog = none) (hsize : 0 < srv₀.replBacklogSize)
    (chunks : List Bytes) :
    ∃ srv, feedChunks (createServerReplicationBacklog srv₀) chunks = some srv ∧
      srv.masterReplOffset = srv₀.masterReplOffset + chunks.flatten.length ∧
      ∀ (req : PsyncRequest) (fuel : Nat), 2 ≤ fuel →
        -- what is sent
        (∀ line bytes,
          masterTryPartialResynchronization isCrdtServer srv fuel req = .continued line bytes →
          ∃ offset, string2ll req.offset = some offset ∧ srv₀.masterReplOffset < offset ∧
            offset ≤ srv.masterReplOffset + 1 ∧
            bytes = chunks.flatten.drop (offset - srv₀.masterReplOffset - 1).toNat) ∧
        -- the copy loop ends
        masterTryPartialResynchronization isCrdtServer srv fuel req ≠ .diverged ∧
        -- what is refused
        (∀ offset, string2ll req.offset = some offset →
          (offset < srv.replBacklogOff ∨ srv.replBacklogOff + srv.replBacklogHistlen < offset ∨
            (strcaseeq req.replid srv.replid = false ∧
              (strcaseeq req.replid srv.replid2 = false ∨ srv.secondReplidOffset < offset))) →
          ∃ reply, masterTryPartialResynchronization isCrdtServer srv fuel req =
            .needFullResync reply) ∧
        -- what is accepted
        (∀ offset, string2ll req.offset = some offset →
          (isCrdtServer && req.capaBackstream) = false → req.writeOk = true →
          idAccepted srv req.replid offset = true → inBacklog srv offset = true →
          ∃ line bytes, masterTryPartialResynchronization isCrdtServer srv fuel req =
            .continued line bytes) := by
  have hcreate : createServerReplicationBacklog srv₀ = srv₀.emptyBacklog := by
    simp [createServerReplicationBacklog, hnull]
  obtain ⟨srv, mem, hrun, hmem, hinv, hmro, hoff⟩ := feedChunks_inv (fun _ => 0) chunks
    (rfl : srv₀.emptyBacklog.replBacklog = some zmalloc)
    (emptyBacklog_inv hsize _)
  change srv.masterReplOffset = srv₀.masterReplOffset + _ at hmro
  change srv₀.masterReplOffset + 1 ≤ _ at hoff
  change BacklogInv srv (extend _ srv₀.masterReplOffset _) mem at hinv
  have hend := hinv.off_eq
  refine ⟨srv, by rw [hcreate]; exact hrun, hmro, ?_⟩
  intro req fuel hfuel
  -- an answer that is no refusal is the one of `masterTry_accepts`, or `closed`
  have hanswer : ∀ offset, string2ll req.offset = some offset →
      (isCrdtServer && req.capaBackstream) = false → idAccepted srv req.replid offset = true →
      inBacklog srv offset = true → req.writeOk = true →
      masterTryPartialResynchronization isCrdtServer srv fuel req =
        .continued (continueLine srv req)
          (chunks.flatten.drop (offset - srv₀.masterReplOffset - 1).toNat) := by
    intro offset hparse hback hid hwin hwrite
    obtain ⟨_, hlo, hhi⟩ := inBacklog_iff.mp hwin
    rw [masterTry_accepts hmem hinv hfuel hback hparse hid hwin hwrite, hmro,
      window_extend _ _ _ _ (by omega) (by omega)]
  refine ⟨?_, ?_, ?_, ?_⟩
  · intro line bytes h
    have hne : ∀ reply, masterTryPartialResynchronization isCrdtServer srv fuel req ≠
        .needFullResync reply := by
      intro reply
      simp [h]
    obtain ⟨hback, offset, hparse, hid, hwin⟩ := masterTry_not_refused hne
    have hwrite : req.writeOk = true := by
      by_contra hw
      rw [Bool.not_eq_true] at hw
      simp [masterTryPartialResynchronization, hback, hparse, hid, hwin, hw] at h
    obtain ⟨_, hlo, hhi⟩ := inBacklog_iff.mp hwin
    rw [hanswer offset hparse hback hid hwin hwrite, PsyncAnswer.continued.injEq] at h
    exact ⟨offset, hparse, by omega, by omega, h.2.symm⟩
  · intro h
    have hne : ∀ reply, masterTryPartialResynchronization isCrdtServer srv fuel req ≠
        .needFullResync reply := by
      intro reply
      simp [h]
    obtain ⟨hback, offset, hparse, hid, hwin⟩ := masterTry_not_refused hne
    by_cases hwrite : req.writeOk = true
    · rw [hanswer offset hparse hback hid hwin hwrite] at h
      exact absurd h (by simp)
    · rw [Bool.not_eq_true] at hwrite
      simp [masterTryPartialResynchronization, hback, hparse, hid, hwin, hwrite] at h
  · intro offset hparse hbad
    by_contra hno
    obtain ⟨_, offset', hparse', hid, hwin⟩ := masterTry_not_refused fun reply h => hno ⟨reply, h⟩
    obtain rfl : offset = offset' := by simpa [hparse] using hparse'
    obtain ⟨_, hlo, hhi⟩ := inBacklog_iff.mp hwin
    rcases hbad with h | h | ⟨h1, h2⟩
    · omega
    · omega
    · rcases h2 with h2 | h2
      · simp [idAccepted, h1, h2] at hid
      · simp [idAccepted, h1] at hid
        omega
  · intro offset hparse hback hwrite hid hwin
    exact ⟨_, _, hanswer offset hparse hback hid hwin hwrite⟩

/-- A ring of four cells at offset 10 that is fed seven bytes in two chunks sends
the last two to a client that asks for offset 16. -/
theorem partial_resync_ring_of_four : ∃ srv line, feedChunks (createServerReplicationBacklog
        ⟨ascii "a1", [], 10, -1, none, 4, 0, 0, 0⟩) [[1, 2, 3], [4, 5, 6, 7]] = some srv ∧
      masterTryPartialResynchronization false srv 2
        ⟨ascii "A1", ascii "16", false, false, true⟩ = .continued line [6, 7] := by
  obtain ⟨srv, hrun, _, h⟩ := partial_resync_sends_missing_bytes false
    ⟨ascii "a1", [], 10, -1, none, 4, 0, 0, 0⟩ rfl (by decide) [[1, 2, 3], [4, 5, 6, 7]]
  obtain ⟨hsent, _, _, hacc⟩ := h ⟨ascii "A1", ascii "16", false, false, true⟩ 2 (le_refl 2)
  have hparse : string2ll (ascii "16") = some 16 := by decide
  obtain ⟨line, bytes, hcont⟩ := hacc 16 hparse rfl rfl
    (by rw [← some.inj hrun]; decide) (by rw [← some.inj hrun]; decide)
  obtain ⟨offset, hoffset, _, _, hbytes⟩ := hsent line bytes hcont
  obtain rfl : offset = 16 := by
    rw [hparse] at hoffset
    exact (some.inj hoffset).symm
  exact ⟨srv, line, hrun, by rw [hcont, hbytes]; rfl⟩

end XredisCrdt.Repl
