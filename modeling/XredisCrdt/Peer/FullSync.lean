import XredisCrdt.Peer.State

/-!
# The commands that frame a full sync

`CRDT.MERGE_START` and `CRDT.MERGE_END` stand before and after the objects that a
peer sends in a full sync; `crdt.peer.change` tells a slave that a peer goes on
under a new replication id. The value of a variable or buffer that was not
initialized is an argument, and so are `getQps()` and the gid of the executing
client.
-/

namespace XredisCrdt.Peer

open Clock Option Trace

/-- How a handler is left: at its end, or by an error. -/
inductive Exit
  | done
  | error
  deriving DecidableEq, Repr

/-- `c->argv[i]`. -/
def arg (argv : Argv) (i : Nat) : Trace Bytes := Trace.deref .missingArg argv[i]?

/-- The units are a clock. -/
def IsClock (us : Units) : Prop :=
  Lib.KeyedMerge.Distinct ClockUnit.gid us ∧ ∀ u ∈ us, 0 < u.gid ∧ u.gid < 16 ∧ u.clock < 2 ^ 56

instance (us : Units) : Decidable (IsClock us) := inferInstanceAs (Decidable (_ ∧ _))

/-- `sdsToVectorClock`. What becomes of a text that names a gid twice is not followed further:
the source goes on with the units, and here the command ends in a fault. So runs are those in
which no peer and no file names a gid twice. -/
def parseClock (text : Bytes) : Trace VectorClock :=
  match sdsToVectorClock text with
  | none => Trace.fail .clockText
  | some us => if h : IsClock us then pure ⟨us, h.1, h.2⟩ else Trace.fail .clockText

/-- The gid, if `check_gid` accepts it. -/
def asGid (gid : Int) : Option Gid :=
  if h : 0 < toInt gid ∧ toInt gid < 16 then some ⟨(toInt gid).toNat, by omega⟩ else none

/-- `memcpy` into the 41 bytes of a replication id. -/
def copyReplid (old new : Bytes) : Trace Bytes :=
  if new.length ≤ 41 then pure (new ++ old.drop new.length) else Trace.fail .replidOverflow

/-- The slot of the peer that a command names. -/
def namedSlot (argv : Argv) : Option (Fin 16) :=
  (argv[1]?.bind string2ll).bind fun gid => (slot gid).result.toOption

variable {argv : Argv} {clientGid gid : Int} {e : Exit} {i : Fin 16} {s s' : CrdtServer}

/-- The gid that a command names is one, and it has a slot. -/
structure Names (argv : Argv) (sourceGid : Int) (gid : Gid) (i : Fin 16) : Prop where
  read : argv[1]?.bind string2ll = some sourceGid
  isGid : asGid sourceGid = some gid
  slot : (slot sourceGid).result = .ok i

theorem Names.namedSlot {gid : Gid} {sourceGid : Int} (h : Names argv sourceGid gid i) :
    namedSlot argv = some i := by
  simp [Peer.namedSlot, h.read, h.slot, Except.toOption]

/-- The error exit of the merge commands. A slave gives up the client that it is
executing for, which is not one of a peer. -/
def mergeError (s : CrdtServer) (sourceGid : Int) : Trace (Exit × CrdtServer) :=
  if s.iAmMaster then do
    let s ← crdtCancelReplicationHandshake s sourceGid
    pure (.error, s)
  else pure (.error, s)

/-- `crdtReplicationCreateMasterClient` of a `createClient(-1)`, which leaves the
buffer of the replication id as it was allocated. -/
def createFakeClient (uninitialized : Bytes) : PeerClient where
  replid := uninitialized
  reploff := 0
  readReploff := 0
  db := 0
  crdtMaster := true
  closing := false

/-- What `crdtMergeStartCommand` does with the clock; `p` is the peer without its
former clients. -/
def startMerge (s : CrdtServer) (i : Fin 16) (p : PeerMaster) (gid : Gid) (vclock : VectorClock) :
    CrdtServer :=
  { s.setPeer i (some p) with
    gcVectorClock := s.gcVectorClock.merge vclock
    vectorClock := if s.vectorClock.time gid = 0 then s.vectorClock.add gid 0 else s.vectorClock
    dirty := s.dirty + 1 }

/-- `CRDT.MERGE_START gid vector-clock replid`. -/
def crdtMergeStartCommand (uninitialized : Bytes) (s : CrdtServer) (argv : Argv) :
    Trace (Exit × CrdtServer) := do
  match string2ll (← arg argv 1) with
  | none => mergeError s (-1)
  | some sourceGid =>
    match asGid sourceGid with
    | none => mergeError s sourceGid
    | some gid =>
      let i ← slot sourceGid
      let p ← Trace.deref .nullPeer (s.crdtMasters i)
      let p := { p with
        cachedMaster := none
        master := if s.iAmMaster then p.master else some (createFakeClient uninitialized) }
      let vclock ← parseClock (← arg argv 2)
      pure (.done, startMerge s i p gid vclock)

/-- The part of `crdtMergeEndCommand` for a peer that sent back the node's own
data: the own clock is moved past what the peer knows of it. -/
def finishBackstream (s : CrdtServer) (i : Fin 16) (p : PeerMaster) (qps : Nat) : CrdtServer :=
  let s := s.setPeer i (some { p with backstreamVc := VectorClock.null })
  let processVcu := s.vectorClock.time s.crdtGid
  let backstreamVcu := p.vectorClock.time s.crdtGid
  let s :=
    if processVcu < backstreamVcu then
      jumpVectorClock (incrLocalVcUnit s ((backstreamVcu : Int) - processVcu)) qps
    else s
  tryCleanCrdtServerLoading s

/-- What `crdtMergeEndCommand` does before it looks at the offset. -/
def takeMergedClock (s : CrdtServer) (i : Fin 16) (p : PeerMaster) (gid : Gid)
    (vclock : VectorClock) : CrdtServer :=
  refreshGcVectorClock
    { s.setPeer i (some { p with vectorClock := vclock }) with
      vectorClock := s.vectorClock.mergeAt vclock gid .max }
    vclock

/-- The link of a master to the peer is up. -/
def connectPeer (s : CrdtServer) (i : Fin 16) : CrdtServer :=
  if s.iAmMaster then
    { s with
      crdtMasters := Function.update s.crdtMasters i
        ((s.crdtMasters i).map fun p => { p with replState := .connected })
      dirty := s.dirty + 1 }
  else { s with dirty := s.dirty + 1 }

/-- The end of `crdtMergeEndCommand`: a master acknowledges the sync. -/
def acknowledgePeer (clientGid : Int) (s : CrdtServer) (i : Fin 16) : Trace (Exit × CrdtServer) :=
  if s.iAmMaster then do
    -- the acknowledgement goes to the peer of the executing client
    let j ← slot clientGid
    let _ ← Trace.deref .nullPeer (s.crdtMasters j)
    pure (.done, connectPeer s i)
  else pure (.done, connectPeer s i)

/-- The peer with what `CRDT.MERGE_END` says about its history. -/
def PeerMaster.synced (p : PeerMaster) (m : PeerClient) (vclock : VectorClock)
    (clientReplid masterReplid : Bytes) (offset : Int) : PeerMaster :=
  { p with
    vectorClock := vclock
    master := some { m with replid := clientReplid, reploff := offset, readReploff := offset }
    masterReplid := masterReplid }

/-- `crdtMergeEndCommand` from the point where its peer is found. -/
def crdtMergeEndPeer (clientGid : Int) (qps : Nat) (s : CrdtServer) (argv : Argv)
    (i : Fin 16) (p : PeerMaster) (gid : Gid) : Trace (Exit × CrdtServer) := do
  let vclock ← parseClock (← arg argv 2)
  let s := takeMergedClock s i p gid vclock
  match string2ll (← arg argv 4) with
  | none => pure (.error, s)
  | some offset =>
    let m ← Trace.deref .nullMaster p.master
    let replid ← arg argv 3
    let clientReplid ← copyReplid m.replid replid
    let masterReplid ← copyReplid p.masterReplid replid
    let p := p.synced m vclock clientReplid masterReplid offset
    let s := s.setPeer i (some p)
    acknowledgePeer clientGid (if p.backstreaming then finishBackstream s i p qps else s) i

/-- `CRDT.MERGE_END gid vector-clock replid offset`, executed for a client whose
gid is `clientGid`. -/
def crdtMergeEndCommand (clientGid : Int) (qps : Nat) (s : CrdtServer) (argv : Argv) :
    Trace (Exit × CrdtServer) := do
  match string2ll (← arg argv 1) with
  | none => mergeError s (-1)
  | some sourceGid =>
    match asGid sourceGid with
    | none => mergeError s sourceGid
    | some gid =>
      let i ← slot sourceGid
      match s.crdtMasters i with
      | none => mergeError s sourceGid
      | some p => crdtMergeEndPeer clientGid qps s argv i p gid

/-- `crdt.peer.change gid replid`; a gid that is no gid is passed over. -/
def peerChangeCommand (s : CrdtServer) (argv : Argv) : Trace (Exit × CrdtServer) := do
  match string2ll (← arg argv 1) with
  | none => pure (.error, s)
  | some gid =>
    match asGid gid with
    | none => pure (.error, s)
    | some _ =>
      let i ← slot gid
      let p ← Trace.deref .nullPeer (s.crdtMasters i)
      let m ← Trace.deref .nullMaster p.master
      let replid ← arg argv 2
      pure (.done, { s.setPeer i (some { p with
          master := some { m with replid := ← copyReplid m.replid replid }
          masterReplid := ← copyReplid p.masterReplid replid }) with
        dirty := s.dirty + 1 })

/-! ## What the commands leave -/

section frames

variable (s : CrdtServer) (i : Fin 16)

theorem tryClean_eq :
    tryCleanCrdtServerLoading s = { s with loading := s.recovering && s.loading } := by
  unfold tryCleanCrdtServerLoading
  cases h : s.recovering <;> simp

theorem finishBackstream_eq (p : PeerMaster) (qps : Nat) :
    ∃ v w, finishBackstream s i p qps = tryCleanCrdtServerLoading { s with
        vectorClock := v
        vectorClockCache := w
        crdtMasters := Function.update s.crdtMasters i
          (some { p with backstreamVc := VectorClock.null }) } := by
  unfold finishBackstream
  dsimp only
  split
  · exact ⟨_, _, rfl⟩
  · exact ⟨_, _, rfl⟩

/-- The state that `CRDT.MERGE_END` acknowledges; `q` is the peer with its history. -/
def syncedServer (qps : Nat) (p q : PeerMaster) (gid : Gid) (vclock : VectorClock) : CrdtServer :=
  let s₁ := (takeMergedClock s i p gid vclock).setPeer i (some q)
  if q.backstreaming then finishBackstream s₁ i q qps else s₁

theorem syncedServer_eq (qps : Nat) (p q : PeerMaster) (gid : Gid) (vclock : VectorClock) :
    ∃ v w c l b, syncedServer s i qps p q gid vclock = { s with
      vectorClock := v
      vectorClockCache := w
      gcVectorClock := c
      loading := l
      crdtMasters := Function.update s.crdtMasters i (some { q with backstreamVc := b }) } := by
  unfold syncedServer takeMergedClock refreshGcVectorClock CrdtServer.setPeer
  rw [Function.update_idem]
  dsimp only
  split
  · obtain ⟨v, w, heq⟩ := finishBackstream_eq { s with
      vectorClock := s.vectorClock.mergeAt vclock gid .max
      gcVectorClock := s.gcVectorClock.mergeMin vclock
      crdtMasters := Function.update s.crdtMasters i (some q) } i q qps
    rw [heq, tryClean_eq]
    dsimp only
    rw [Function.update_idem]
    exact ⟨v, w, _, _, _, rfl⟩
  · exact ⟨_, _, _, _, q.backstreamVc, rfl⟩

@[simp] theorem connectPeer_vectorClock : (connectPeer s i).vectorClock = s.vectorClock := by
  unfold connectPeer
  split <;> rfl

variable {s i}

/-- What a table holds after one of its slots was set. -/
theorem update_eq_some {ι α : Type} [DecidableEq ι] {f : ι → Option α} {i j : ι} {x : Option α}
    {y : α} (h : Function.update f i x j = some y) :
    j = i ∧ x = some y ∨ j ≠ i ∧ f j = some y := by
  rw [Function.update_apply] at h
  split at h
  · exact .inl ⟨‹_›, h⟩
  · exact .inr ⟨‹_›, h⟩

theorem connectPeer_eq {p : PeerMaster} (hp : s.crdtMasters i = some p) :
    connectPeer s i = { s with
      crdtMasters := Function.update s.crdtMasters i
        (some { p with replState := if s.iAmMaster then .connected else p.replState })
      dirty := s.dirty + 1 } := by
  unfold connectPeer
  cases s.iAmMaster with
  | true =>
    rw [if_pos rfl, hp]
    rfl
  | false =>
    simp only [Bool.false_eq_true, if_false]
    rw [← hp, Function.update_eq_self]

/-- Apart from clocks a complete sync changes the peer. -/
theorem connectPeer_synced (qps : Nat) (p q : PeerMaster) (gid : Gid) (vclock : VectorClock) :
    ∃ v w c l b r, connectPeer (syncedServer s i qps p q gid vclock) i = { s with
      vectorClock := v
      vectorClockCache := w
      gcVectorClock := c
      loading := l
      crdtMasters := Function.update s.crdtMasters i
        (some { q with backstreamVc := b, replState := r })
      dirty := s.dirty + 1 } := by
  obtain ⟨v, w, c, l, b, heq⟩ := syncedServer_eq s i qps p q gid vclock
  rw [heq, connectPeer_eq (Function.update_self ..)]
  dsimp only
  rw [Function.update_idem]
  exact ⟨v, w, c, l, b, _, rfl⟩

end frames

/-- At most the handshake of one peer was cancelled. -/
def Cancelled (s s' : CrdtServer) : Prop :=
  s' = s ∨ ∃ i p, s.crdtMasters i = some p ∧ s' = s.setPeer i (some p.cancelHandshake)

theorem crdtCancelReplicationHandshake_ok
    (h : (crdtCancelReplicationHandshake s gid).result = .ok s') : Cancelled s s' := by
  unfold crdtCancelReplicationHandshake at h
  obtain ⟨i, -, h⟩ := bind_result_ok.1 h
  cases hp : s.crdtMasters i with
  | none =>
    simp only [hp, pure_result, Except.ok.injEq] at h
    exact .inl h.symm
  | some p =>
    simp only [hp, pure_result, Except.ok.injEq] at h
    exact .inr ⟨i, p, hp, h.symm⟩

theorem mergeError_ok (h : (mergeError s gid).result = .ok (e, s')) :
    e = .error ∧ Cancelled s s' := by
  unfold mergeError at h
  split at h
  · obtain ⟨s₁, hs₁, h⟩ := bind_result_ok.1 h
    simp only [pure_result, Except.ok.injEq, Prod.mk.injEq] at h
    obtain ⟨rfl, rfl⟩ := h
    exact ⟨rfl, crdtCancelReplicationHandshake_ok hs₁⟩
  · simp only [pure_result, Except.ok.injEq, Prod.mk.injEq] at h
    exact ⟨h.1.symm, .inl h.2.symm⟩

theorem Names.val_eq {sourceGid : Int} {gid : Gid} (h : Names argv sourceGid gid i) :
    (gid : Nat) = i := by
  have hslot := slot_result h.slot
  have hgid := h.isGid
  unfold asGid at hgid
  split at hgid
  · simp only [some.injEq] at hgid
    rw [← hgid]
    simp only
    omega
  · cases hgid

/-- Every command of a sync begins with its gid. -/
theorem readsGid_ok {α : Type} {unread : Trace α} {refused : Int → Trace α}
    {k : Int → Gid → Fin 16 → Trace α} {r : α} (h : (do
      match string2ll (← arg argv 1) with
      | none => unread
      | some sourceGid =>
        match asGid sourceGid with
        | none => refused sourceGid
        | some gid => do
          let i ← slot sourceGid
          k sourceGid gid i : Trace α).result = .ok r) :
    unread.result = .ok r ∨
      (∃ sourceGid, argv[1]?.bind string2ll = some sourceGid ∧ asGid sourceGid = none ∧
        (refused sourceGid).result = .ok r) ∨
      ∃ sourceGid gid i, Names argv sourceGid gid i ∧ (k sourceGid gid i).result = .ok r := by
  obtain ⟨text, htext, h⟩ := bind_result_ok.1 h
  cases hg : string2ll text with
  | none =>
    simp only [hg] at h
    exact .inl h
  | some sourceGid =>
    simp only [hg] at h
    have hread : argv[1]?.bind string2ll = some sourceGid := by
      rw [deref_result_ok.1 htext, bind_some, hg]
    cases hgid : asGid sourceGid with
    | none =>
      simp only [hgid] at h
      exact .inr (.inl ⟨sourceGid, hread, hgid, h⟩)
    | some gid =>
      simp only [hgid] at h
      obtain ⟨i, hi, h⟩ := bind_result_ok.1 h
      exact .inr (.inr ⟨sourceGid, gid, i, ⟨hread, hgid, hi⟩, h⟩)

theorem acknowledgePeer_ok (h : (acknowledgePeer clientGid s i).result = .ok (e, s')) :
    e = .done ∧ s' = connectPeer s i := by
  unfold acknowledgePeer at h
  split at h
  · obtain ⟨j, -, h⟩ := bind_result_ok.1 h
    obtain ⟨p, -, h⟩ := bind_result_ok.1 h
    simp only [pure_result, Except.ok.injEq, Prod.mk.injEq] at h
    exact ⟨h.1.symm, h.2.symm⟩
  · simp only [pure_result, Except.ok.injEq, Prod.mk.injEq] at h
    exact ⟨h.1.symm, h.2.symm⟩

/-- `CRDT.MERGE_START` cancels a handshake, or drops the clients that the peer had
and starts to merge. -/
theorem crdtMergeStartCommand_ok {uninitialized : Bytes}
    (h : (crdtMergeStartCommand uninitialized s argv).result = .ok (e, s')) :
    (e = .error ∧ Cancelled s s') ∨
    ∃ i p, ∃ gid : Gid, ∃ vclock, s.crdtMasters i = some p ∧ namedSlot argv = some i ∧
      (gid : Nat) = i ∧ e = .done ∧
      s' = startMerge s i { p with
          cachedMaster := none
          master := if s.iAmMaster then p.master else some (createFakeClient uninitialized) }
        gid vclock := by
  unfold crdtMergeStartCommand at h
  rcases readsGid_ok h with h | ⟨_, -, -, h⟩ | ⟨sourceGid, gid, i, hi, h⟩
  · exact .inl (mergeError_ok h)
  · exact .inl (mergeError_ok h)
  · obtain ⟨p, hp, h⟩ := bind_result_ok.1 h
    obtain ⟨a₂, -, h⟩ := bind_result_ok.1 h
    obtain ⟨vclock, -, h⟩ := bind_result_ok.1 h
    simp only [pure_result, Except.ok.injEq, Prod.mk.injEq] at h
    exact .inr ⟨i, p, gid, vclock, deref_result_ok.1 hp, hi.namedSlot, hi.val_eq, h.1.symm,
      h.2.symm⟩

/-- `CRDT.MERGE_END` for a peer that is configured takes over its clock. Then the offset
cannot be read, or the sync is complete. -/
def EndsSync (qps : Nat) (s : CrdtServer) (argv : Argv) (i : Fin 16) (p : PeerMaster)
    (gid : Gid) (e : Exit) (s' : CrdtServer) : Prop :=
  ∃ text vclock, argv[2]? = some text ∧ (parseClock text).result = .ok vclock ∧
    ((e = .error ∧ (∃ text, argv[4]? = some text ∧ string2ll text = none) ∧
        s' = takeMergedClock s i p gid vclock) ∨
      ∃ m replid clientReplid masterReplid offset, p.master = some m ∧
        argv[3]? = some replid ∧ (copyReplid m.replid replid).result = .ok clientReplid ∧
        argv[4]?.bind string2ll = some offset ∧ e = .done ∧
        s' = connectPeer (syncedServer s i qps p
          (p.synced m vclock clientReplid masterReplid offset) gid vclock) i)

theorem crdtMergeEndPeer_ok {qps : Nat} {p : PeerMaster} {gid : Gid}
    (h : (crdtMergeEndPeer clientGid qps s argv i p gid).result = .ok (e, s')) :
    EndsSync qps s argv i p gid e s' := by
  unfold crdtMergeEndPeer at h
  obtain ⟨a₂, h₂, h⟩ := bind_result_ok.1 h
  obtain ⟨vclock, hclock, h⟩ := bind_result_ok.1 h
  obtain ⟨a₄, h₄, h⟩ := bind_result_ok.1 h
  refine ⟨a₂, vclock, deref_result_ok.1 h₂, hclock, ?_⟩
  cases ho : string2ll a₄ with
  | none =>
    simp only [ho, pure_result, Except.ok.injEq, Prod.mk.injEq] at h
    exact .inl ⟨h.1.symm, ⟨a₄, deref_result_ok.1 h₄, ho⟩, h.2.symm⟩
  | some offset =>
    simp only [ho] at h
    obtain ⟨m, hm, h⟩ := bind_result_ok.1 h
    obtain ⟨a₃, h₃, h⟩ := bind_result_ok.1 h
    obtain ⟨id₁, hid₁, h⟩ := bind_result_ok.1 h
    obtain ⟨id₂, -, h⟩ := bind_result_ok.1 h
    obtain ⟨he, hs'⟩ := acknowledgePeer_ok h
    have hoff : argv[4]?.bind string2ll = some offset := by
      rw [deref_result_ok.1 h₄, bind_some, ho]
    exact .inr ⟨m, a₃, id₁, id₂, offset, deref_result_ok.1 hm,
      deref_result_ok.1 h₃, hid₁, hoff, he, hs'⟩

/-- The ways in which `CRDT.MERGE_END` ends: nothing but a cancelled handshake, or what it
does for a peer. -/
theorem crdtMergeEndCommand_ok {qps : Nat}
    (h : (crdtMergeEndCommand clientGid qps s argv).result = .ok (e, s')) :
    (e = .error ∧ Cancelled s s') ∨
    ∃ sourceGid gid i p, Names argv sourceGid gid i ∧ s.crdtMasters i = some p ∧
      EndsSync qps s argv i p gid e s' := by
  unfold crdtMergeEndCommand at h
  rcases readsGid_ok h with h | ⟨_, -, -, h⟩ | ⟨sourceGid, gid, i, hi, h⟩
  · exact .inl (mergeError_ok h)
  · exact .inl (mergeError_ok h)
  · cases hp : s.crdtMasters i with
    | none =>
      simp only [hp] at h
      exact .inl (mergeError_ok h)
    | some p =>
      simp only [hp] at h
      exact .inr ⟨sourceGid, gid, i, p, hi, hp, crdtMergeEndPeer_ok h⟩

theorem crdtMergeEndCommand_of_names (clientGid : Int) (qps : Nat) (s : CrdtServer)
    {sourceGid : Int} {gid : Gid} (h : Names argv sourceGid gid i) :
    (crdtMergeEndCommand clientGid qps s argv).result =
      ((s.crdtMasters i).elim (mergeError s sourceGid)
        fun p => crdtMergeEndPeer clientGid qps s argv i p gid).result := by
  obtain ⟨text, htext, hg⟩ := bind_eq_some_iff.1 h.read
  have harg : (arg argv 1).result = .ok text := deref_result_ok.2 htext
  unfold crdtMergeEndCommand
  rw [bind_of_ok harg]
  simp only [hg, h.isGid]
  rw [bind_of_ok h.slot]
  cases s.crdtMasters i <;> rfl

/-- The slot of a peer is named by a gid that is one. -/
theorem exists_names (hi : namedSlot argv = some i) (hpos : 0 < i.val) :
    ∃ (sourceGid : Int) (gid : Gid), Names argv sourceGid gid i := by
  obtain ⟨sourceGid, hread, hslot⟩ := bind_eq_some_iff.1 hi
  have hslot' := toOption_eq_some.1 hslot
  have heq := slot_result hslot'
  refine ⟨sourceGid, ⟨i, hpos, i.isLt⟩, hread, ?_, hslot'⟩
  unfold asGid
  rw [dif_pos (by omega)]
  simp only [some.injEq, Subtype.mk.injEq]
  omega

/-- `crdt.peer.change` changes the id under which a peer is followed, or nothing. -/
theorem peerChangeCommand_ok (h : (peerChangeCommand s argv).result = .ok (e, s')) :
    s' = s ∨ ∃ i p m text clientReplid masterReplid, s.crdtMasters i = some p ∧ p.master = some m ∧
      namedSlot argv = some i ∧ argv[2]? = some text ∧
        (copyReplid m.replid text).result = .ok clientReplid ∧
      s' = { s.setPeer i (some { p with
          master := some { m with replid := clientReplid }
          masterReplid := masterReplid }) with
        dirty := s.dirty + 1 } := by
  unfold peerChangeCommand at h
  rcases readsGid_ok h with ⟨⟨⟩⟩ | ⟨_, -, -, ⟨⟩⟩ | ⟨sourceGid, gid, i, hi, h⟩
  · exact .inl rfl
  · exact .inl rfl
  · obtain ⟨p, hp, h⟩ := bind_result_ok.1 h
    obtain ⟨m, hm, h⟩ := bind_result_ok.1 h
    obtain ⟨text, ht, h⟩ := bind_result_ok.1 h
    obtain ⟨id₁, h₁, h⟩ := bind_result_ok.1 h
    obtain ⟨id₂, -, h⟩ := bind_result_ok.1 h
    cases h
    exact .inr ⟨i, p, m, text, id₁, id₂, deref_result_ok.1 hp, deref_result_ok.1 hm,
      hi.namedSlot, deref_result_ok.1 ht, h₁, rfl⟩

end XredisCrdt.Peer
