import XredisCrdt.Peer.Peerof

/-!
# The link to a peer

What a node asks a peer to continue from, what it does with the answer, what becomes
of the clients of its peers when a link is lost or its role changes, and what an RDB
file says about peers. The pair of replication id and offset lives in the client of
the link, in the cached client, in `master_replid` and `master_initial_offset`, and
in the RDB file.

Left out are the earlier exchanges of the handshake, which concern none of this; a
value read from memory that was not initialized is an argument.
-/

namespace XredisCrdt.Peer

open Clock

/-! ## Handshakes -/

/-- `CRDT.PSYNC replid offset`. -/
structure PsyncRequest where
  replid : Bytes
  offset : Int
  deriving DecidableEq, Repr

/-- Answers to `CRDT.PSYNC`: `+FULLRESYNC replid offset`, `+CONTINUE` with the text
after it, an error that may pass, anything else. -/
inductive PsyncReply
  | fullResync (replid : Bytes) (offset : Int)
  | resume (text : Bytes)
  | tryLater
  | other
  deriving DecidableEq, Repr

namespace PeerMaster

/-- What the writing half of `crdtSlaveTryPartialResynchronization` asks for; `none`
is `CRDT.PSYNC ? -1`. -/
def psyncRequest (p : PeerMaster) : Option PsyncRequest :=
  p.cachedMaster.map fun c => ⟨cstr c.replid, c.reploff + 1⟩

/-- A full sync is announced; an id that has not 40 bytes blanks `master_replid`. -/
def startTransfer (p : PeerMaster) (uninitialized replid : Bytes) (offset : Int) : PeerMaster :=
  let p :=
    if replid.length = 40 then
      { p with masterReplid := replid ++ [0], masterInitialOffset := offset }
    else { p with masterReplid := List.replicate 41 0 }
  { p with
    cachedMaster := none
    master := some (createFakeClient uninitialized)
    replState := .transfer }

/-- The cached client goes on, under a new id if the answer has one. -/
def resurrect (p : PeerMaster) (c : PeerClient) (text : Bytes) : PeerMaster :=
  let changed : Bool := text.length = 40 ∧ text ≠ cstr c.replid
  { p with
    masterReplid := if changed then text ++ [0] else p.masterReplid
    master := some
      { c with
        replid := if changed then text ++ c.replid.drop 40 else c.replid
        closing := false }
    cachedMaster := none
    replState := .connected }

/-- The reading half, and the end of `crdtSyncWithMaster`. There is no step where the
source follows a null pointer. -/
def readPsync (p : PeerMaster) (uninitialized : Bytes) : PsyncReply → Option PeerMaster
  | .fullResync replid offset => some (p.startTransfer uninitialized replid offset)
  | .resume text => p.cachedMaster.map fun c => p.resurrect c text
  | .tryLater => some { p with replState := .connect }
  | .other => some { p with cachedMaster := none, replState := .connect }

end PeerMaster

/-- What happens to the link of one peer. -/
inductive LinkAct
  /-- The cron and the connection drive the state on. -/
  | advance
  | sendPsync
  | readPsync (uninitialized : Bytes) (reply : PsyncReply)
  /-- The handshake fails. -/
  | giveUp
  /-- A time limit, or an error in a merge. -/
  | cancel
  /-- The client is to be closed. -/
  | close
  | disconnect
  deriving DecidableEq, Repr

def PeerMaster.linkStep (p : PeerMaster) : LinkAct → Option PeerMaster
  | .advance =>
    match p.replState with
    | .none => some { p with replState := .connect }
    | .connect => some { p with replState := .connecting }
    | .connecting => some { p with replState := .handshake }
    | _ => none
  | .sendPsync =>
    if p.replState = .handshake then some { p with masterInitialOffset := -1 } else none
  | .readPsync uninitialized reply =>
    if p.replState = .handshake then p.readPsync uninitialized reply else none
  | .giveUp => if p.replState = .handshake then some { p with replState := .connect } else none
  | .cancel => some p.cancelHandshake
  | .close => some { p with master := p.master.map fun c => { c with closing := true } }
  | .disconnect => some p.freeMaster

/-! ## Roles -/

/-- What `crdtReplicationAllPeersStateReset` makes of a peer: a client that has the
position of the cached one, else of the one of the link. One that has neither gets a
client without the flag. -/
def PeerMaster.stateReset (p : PeerMaster) (uninitialized : Bytes) : PeerMaster :=
  let c : PeerClient :=
    match p.cachedMaster.or p.master with
    | none => { createFakeClient uninitialized with crdtMaster := false }
    | some m => { m with readReploff := 0 }
  { p with master := some c, cachedMaster := none, replState := .none }

/-- What `crdtReplicationCacheAllMaster` makes of a peer. -/
def PeerMaster.cacheForRole (p : PeerMaster) : PeerMaster :=
  match p.master with
  | none => { p with replState := .none }
  | some c =>
    if c.crdtMaster then { p.cacheMaster with replState := .none }
    else { p with cachedMaster := none, replState := .none }

namespace CrdtServer

def mapPeers (s : CrdtServer) (f : PeerMaster → PeerMaster) : CrdtServer :=
  { s with crdtMasters := fun i => (s.crdtMasters i).map f }

/-- `replicationSetMaster`, for its peers: only a node that was a master resets them. -/
def becomeSlave (s : CrdtServer) (uninitialized : Bytes) : CrdtServer :=
  if s.iAmMaster then { s.mapPeers (·.stateReset uninitialized) with iAmMaster := false } else s

/-- `replicationUnsetMaster`, for its peers. -/
def becomeMaster (s : CrdtServer) : CrdtServer :=
  if s.iAmMaster then s else { s.mapPeers PeerMaster.cacheForRole with iAmMaster := true }

end CrdtServer

/-! ## RDB files -/

/-- The fields of an RDB file about one peer. -/
structure PeerAux where
  gid : Fin 16
  host : Bytes
  port : Int
  dbid : Int
  replid : Bytes
  offset : Int
  proxy : Option XpipeProxy
  deriving DecidableEq

/-- The position that `rdbSaveAuxFieldCrdt` writes. -/
def PeerMaster.savedPosition (p : PeerMaster) : Bytes × Int :=
  match p.master.or p.cachedMaster with
  | some c => (cstr c.replid, c.reploff)
  | none => (cstr p.masterReplid, p.masterInitialOffset)

def PeerMaster.aux (p : PeerMaster) (i : Fin 16) : PeerAux where
  gid := i
  host := p.masterhost
  port := p.masterport
  dbid := (p.master.map PeerClient.db).getD p.dbid
  replid := p.savedPosition.1
  offset := p.savedPosition.2
  proxy := p.proxy

/-- `rdbSaveAuxFieldCrdt`. -/
def rdbSaveAuxFieldCrdt (s : CrdtServer) : List PeerAux :=
  (List.finRange 16).filterMap fun i => (s.crdtMasters i).map (·.aux i)

/-- The peer with what the file says; an id that has not 40 bytes is not taken. -/
def PeerMaster.fromAux (p : PeerMaster) (uninitialized : Bytes) (a : PeerAux) : PeerMaster :=
  let c := createFakeClient uninitialized
  { p with
    masterhost := a.host
    masterport := a.port
    dbid := a.dbid
    proxy := if a.proxy.isSome then a.proxy else p.proxy
    master := some
      { c with
        db := a.dbid
        replid := if a.replid.length = 40 then a.replid ++ [0] else c.replid
        reploff := a.offset } }

/-- `rdbLoadCrdtInfoAuxFields`, for the fields about one peer. A master keeps the
peers that its configuration gave it; the gid 0 ends the process. -/
def loadPeerAux (uninitialized : Bytes) (s : CrdtServer) (a : PeerAux) : Option CrdtServer :=
  if a.gid = 0 then none
  else
    match s.crdtMasters a.gid with
    | none =>
      some ((addPeerSet s a.gid).setPeer a.gid
        (some ((createPeerMaster uninitialized).fromAux uninitialized a)))
    | some p =>
      if s.iAmMaster then some s
      else some (s.setPeer a.gid (some (p.fromAux uninitialized a)))

/-- What the load of an RDB file of a node does with the peers; a slave starts
without any. -/
def rdbLoadPeers (uninitialized : Bytes) (s : CrdtServer) (file : List PeerAux) :
    Option CrdtServer :=
  file.foldlM (loadPeerAux uninitialized)
    (if s.iAmMaster then s else { s with crdtMasters := fun _ => none, loading := false })

section load

variable {s s' : CrdtServer} {uninitialized : Bytes}

/-- What the fields about one peer do: nothing in a master that has the peer, else its
slot gets a peer with them, a new one or the one that a slave had. -/
theorem loadPeerAux_cases {a : PeerAux} (h : loadPeerAux uninitialized s a = some s') : s' = s ∨
    (s.crdtMasters a.gid = none ∧ s' = (addPeerSet s a.gid).setPeer a.gid
      (some ((createPeerMaster uninitialized).fromAux uninitialized a))) ∨
    ∃ p, s.crdtMasters a.gid = some p ∧ s.iAmMaster = false ∧
      s' = s.setPeer a.gid (some (p.fromAux uninitialized a)) := by
  unfold loadPeerAux at h
  split at h
  · cases h
  cases hp : s.crdtMasters a.gid with
  | none =>
    simp only [hp, Option.some.injEq] at h
    exact .inr (.inl ⟨rfl, h.symm⟩)
  | some p =>
    simp only [hp] at h
    split at h
    · cases h
      exact .inl rfl
    · rename_i hslave
      cases h
      exact .inr (.inr ⟨p, rfl, Bool.eq_false_iff.2 hslave, rfl⟩)

/-- The induction over a file: a slave starts without peers. -/
theorem rdbLoadPeers_invariant {P : CrdtServer → Prop} {file : List PeerAux}
    (hstep : ∀ s a s', a ∈ file → P s → loadPeerAux uninitialized s a = some s' → P s')
    (hmaster : s.iAmMaster = true → P s)
    (hslave : s.iAmMaster = false → P { s with crdtMasters := fun _ => none, loading := false })
    (hload : rdbLoadPeers uninitialized s file = some s') : P s' := by
  unfold rdbLoadPeers at hload
  have hstart : P (if s.iAmMaster then s
      else { s with crdtMasters := fun _ => none, loading := false }) := by
    split
    · exact hmaster ‹_›
    · exact hslave (Bool.eq_false_iff.2 ‹_›)
  generalize (if s.iAmMaster then s
    else { s with crdtMasters := fun _ => none, loading := false }) = t at hload hstart
  clear hmaster hslave
  induction file generalizing t with
  | nil =>
    cases hload
    exact hstart
  | cons a file ih =>
    obtain ⟨t', ht', hrest⟩ := Option.bind_eq_some_iff.1 hload
    have hrec := fun s b s' (hb : b ∈ file) => hstep s b s' (List.mem_cons_of_mem a hb)
    exact ih hrec t' hrest (hstep t a t' (by simp) hstart ht')

end load

end XredisCrdt.Peer
