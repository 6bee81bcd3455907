import XredisCrdt.Proto.Multibulk
import XredisCrdt.Repl.PartialResync
import XredisCrdt.Repl.Servers

/-!
# Feeding the streams of slaves and peers

The functions that write commands to both backlogs, to the own slaves and to the
peers, each with the cache of the database selected last. A client that still
waits for the start of its BGSAVE gets nothing.

Every function is described by the bytes it adds: `feedAllBytes` for the three
functions that feed slaves and peers alike, whichever way they put the bytes
together.
-/

namespace XredisCrdt.Repl

open Proto List

/-- A client in `server.slaves` or `crdtServer.slaves`: whether it is in state
`SLAVE_STATE_WAIT_BGSAVE_START`, and its output. -/
structure SlaveLink where
  waiting : Bool
  out : Bytes
  deriving DecidableEq, Repr

/-- The globals that the feed functions use. `proxying` says that the node is a
slave of a master of its own type and passes on the stream of that master. -/
structure FeedState where
  servers : Servers
  serverSeldb : Int
  crdtSeldb : Int
  slaves : List SlaveLink
  peers : List SlaveLink
  crdtGid : Int
  proxying : Bool

/-- A master of gid 1 that feeds nobody. -/
def idleFeed : FeedState where
  servers :=
    { server := ⟨ascii "a", ascii "0", 0, -1, none, 64, 0, 0, 0⟩
      crdtServer := ⟨ascii "a", ascii "0", 0, -1, none, 64, 0, 0, 0⟩ }
  serverSeldb := -1
  crdtSeldb := -1
  slaves := []
  peers := []
  crdtGid := 1
  proxying := false

def SlaveLink.addReply (p : Bytes) (l : SlaveLink) : SlaveLink :=
  if l.waiting then l else { l with out := l.out ++ p }

namespace FeedState

def feedServer (s : FeedState) (p : Bytes) : FeedState :=
  { s with servers := s.servers.update .server (feedIfBacklog · p) }

def feedCrdt (s : FeedState) (p : Bytes) : FeedState :=
  { s with servers := s.servers.update .crdtServer (feedIfBacklog · p) }

def replySlaves (s : FeedState) (p : Bytes) : FeedState :=
  { s with slaves := s.slaves.map (SlaveLink.addReply p) }

def replyPeers (s : FeedState) (p : Bytes) : FeedState :=
  { s with peers := s.peers.map (SlaveLink.addReply p) }

end FeedState

/-! ## Text of the commands -/

/-- What is fed to a backlog, and added to an output, one after the other for a
command: the number of arguments, and length, bytes and CRLF of each. -/
def commandPieces (argv : Argv) : List Bytes :=
  header 42 argv.length :: argv.flatMap fun a => [header 36 a.length, a, crlf]

/-- The `CRDT.SELECT` command as the format string of the source gives it. -/
def crdtSelectCmd (gid dictid : Int) : Bytes :=
  ascii "*3\r\n$11\r\nCRDT.SELECT\r\n$" ++ ll2string (ll2string gid).length ++ crlf ++
    ll2string gid ++ crlf ++ ascii "$" ++ ll2string (ll2string dictid).length ++ crlf ++
    ll2string dictid ++ crlf

/-- The `SELECT` command, shared or not. -/
def selectCmd (dictid : Int) : Bytes :=
  ascii "*2\r\n$6\r\nSELECT\r\n$" ++ ll2string (ll2string dictid).length ++ crlf ++
    ll2string dictid ++ crlf

/-! ## Slaves and peers -/

/-- The common body of `replicationFeedRobj` and `replicationFeedString`. -/
def replicationFeedRaw (s : FeedState) (p : Bytes) : FeedState :=
  (((s.feedServer p).feedCrdt p).replySlaves p).replyPeers p

def replicationFeedRobj (s : FeedState) (cmd : Bytes) : FeedState := replicationFeedRaw s cmd

def replicationFeedString (s : FeedState) (buf : Bytes) : FeedState := replicationFeedRaw s buf

/-- Select `dictid` on all streams unless both caches have it. -/
def selectAll (s : FeedState) (dictid : Int) : FeedState :=
  let s :=
    if s.serverSeldb ≠ dictid ∨ s.crdtSeldb ≠ dictid then
      replicationFeedRaw s (crdtSelectCmd s.crdtGid dictid)
    else s
  { s with serverSeldb := dictid, crdtSeldb := dictid }

def replicationFeedRobjToAllSlaves (s : FeedState) (dictid : Int) (cmd : Bytes) : FeedState :=
  if s.proxying then s else replicationFeedRobj (selectAll s dictid) cmd

def replicationFeedStringToAllSlaves (s : FeedState) (dictid : Int) (cmdbuf : Bytes) :
    FeedState :=
  if s.proxying then s else replicationFeedString (selectAll s dictid) cmdbuf

def replicationFeedAllSlaves (s : FeedState) (dictid : Int) (argv : Argv) : FeedState :=
  if s.proxying then s
  else
    let s := selectAll s dictid
    let s := (commandPieces argv).foldl (fun s p => (s.feedServer p).feedCrdt p) s
    let s := (commandPieces argv).foldl FeedState.replySlaves s
    (commandPieces argv).foldl FeedState.replyPeers s

/-- `sendObservedVectorClock` with the text of the vector clock. -/
def sendObservedVectorClock (s : FeedState) (vclock : Bytes) : FeedState :=
  replicationFeedAllSlaves s s.serverSeldb (ovcArgv s.crdtGid vclock)

/-! ## Own slaves only -/

def sendSelectCommandToSlave (s : FeedState) (dictid : Int) : FeedState :=
  let s := (s.feedServer (selectCmd dictid)).replySlaves (selectCmd dictid)
  { s with serverSeldb := dictid }

/-- `replicationFeedSlaves`; `fromPeer` says that the current client is a
connected peer whose bytes are passed on as they are. -/
def replicationFeedSlaves (s : FeedState) (fromPeer : Bool) (dictid : Int) (argv : Argv) :
    FeedState :=
  if s.proxying ∨ fromPeer then s
  else if s.servers.server.replBacklog.isNone ∧ s.slaves.isEmpty then s
  else
    let s := if s.serverSeldb ≠ dictid then sendSelectCommandToSlave s dictid else s
    let s := (commandPieces argv).foldl FeedState.feedServer s
    (commandPieces argv).foldl FeedState.replySlaves s

def replicationFeedSlavesFromMasterStream (s : FeedState) (buf : Bytes) : FeedState :=
  (s.feedServer buf).replySlaves buf

/-! ## Attaching -/

/-- `refullSyncWithSlaves`: the new client waits for a BGSAVE. -/
def attachFull (s : FeedState) (k : Kind) (newid : Bytes) : FeedState :=
  let s := match k with
    | .server => { s with slaves := s.slaves ++ [SlaveLink.mk true []] }
    | .crdtServer => { s with peers := s.peers ++ [SlaveLink.mk true []] }
  { s with servers :=
      refullSyncWithSlaves s.servers k (s.slaves.length + s.peers.length == 1) newid }

/-- `replicationSetupSlaveForFullResync` for every waiting client of a list. -/
def setupForFullResync (ls : List SlaveLink) : List SlaveLink :=
  ls.map fun l => { l with waiting := false }

/-- A BGSAVE for the waiting clients starts: from here on they get the stream,
and the next command is to be preceded by a selection. -/
def bgsaveStart (s : FeedState) (k : Kind) : FeedState :=
  match k with
  | .server => { s with slaves := setupForFullResync s.slaves, serverSeldb := -1 }
  | .crdtServer => { s with peers := setupForFullResync s.peers, crdtSeldb := -1 }

/-! ## The bytes that are added -/

/-- The backlog of `srv`, if there is one, was fed the bytes `p` in some pieces. -/
def FedBy (srv : ReplServer) (p : Bytes) (srv' : ReplServer) : Prop :=
  match srv.replBacklog with
  | none => srv' = srv
  | some _ => ∃ pieces : List Bytes, pieces.flatten = p ∧ feedChunks srv pieces = some srv'

theorem feedChunks_isSome {srv srv' : ReplServer} {pieces : List Bytes}
    (h : feedChunks srv pieces = some srv') (hsome : srv.replBacklog.isSome) :
    srv'.replBacklog.isSome := by
  induction pieces generalizing srv with
  | nil =>
    obtain rfl : srv = srv' := by simpa [feedChunks] using h
    exact hsome
  | cons p pieces ih =>
    simp only [feedChunks, foldlM_cons] at h
    obtain ⟨mem, hmem⟩ := Option.isSome_iff_exists.mp hsome
    simp only [feedReplicationBacklog, hmem, Option.map_some] at h
    exact ih h rfl

theorem FedBy.of_none {srv srv' : ReplServer} {p : Bytes} (h : FedBy srv p srv')
    (hnone : srv.replBacklog = none) : srv' = srv := by
  simpa only [FedBy, hnone] using h

theorem fedBy_foldl (srv : ReplServer) (pieces : List Bytes) :
    FedBy srv pieces.flatten (pieces.foldl feedIfBacklog srv) := by
  unfold FedBy
  cases hb : srv.replBacklog with
  | none =>
    show pieces.foldl feedIfBacklog srv = srv
    induction pieces with
    | nil => rfl
    | cons p pieces ih =>
      rw [foldl_cons, show feedIfBacklog srv p = srv by
        simp [feedIfBacklog, feedReplicationBacklog, hb]]
      exact ih
  | some mem =>
    refine ⟨pieces, rfl, ?_⟩
    induction pieces generalizing srv mem with
    | nil => rfl
    | cons p pieces ih =>
      have hstep : feedReplicationBacklog srv p = some (feedIfBacklog srv p) := by
        simp [feedIfBacklog, feedReplicationBacklog, hb]
      have hnext : (feedIfBacklog srv p).replBacklog.isSome := by
        simp [feedIfBacklog, feedReplicationBacklog, hb, feedAllocated]
      obtain ⟨mem', hmem'⟩ := Option.isSome_iff_exists.mp hnext
      rw [feedChunks, foldlM_cons, hstep]
      exact ih _ _ hmem'

theorem FedBy.trans {srv srv₁ srv₂ : ReplServer} {p q : Bytes} (h₁ : FedBy srv p srv₁)
    (h₂ : FedBy srv₁ q srv₂) : FedBy srv (p ++ q) srv₂ := by
  unfold FedBy at h₁ ⊢
  cases hb : srv.replBacklog with
  | none =>
    obtain rfl : srv₁ = srv := by simpa only [hb] using h₁
    exact h₂.of_none hb
  | some mem =>
    obtain ⟨ps, rfl, hps⟩ : ∃ pieces : List Bytes, pieces.flatten = p ∧
        feedChunks srv pieces = some srv₁ := by simpa only [hb] using h₁
    obtain ⟨mem₁, hmem₁⟩ := Option.isSome_iff_exists.mp (feedChunks_isSome hps (by rw [hb]; rfl))
    obtain ⟨qs, rfl, hqs⟩ : ∃ pieces : List Bytes, pieces.flatten = q ∧
        feedChunks srv₁ pieces = some srv₂ := by simpa only [FedBy, hmem₁] using h₂
    refine ⟨ps ++ qs, by simp, ?_⟩
    simp only [feedChunks, foldlM_append] at hps hqs ⊢
    rw [hps]
    exact hqs

theorem SlaveLink.addReply_addReply (p q : Bytes) (l : SlaveLink) :
    (l.addReply p).addReply q = l.addReply (p ++ q) := by
  obtain ⟨waiting, out⟩ := l
  cases waiting <;> simp [addReply]

open SlaveLink

@[simp] theorem SlaveLink.map_addReply_nil (ls : List SlaveLink) :
    ls.map (addReply []) = ls := by
  refine (map_congr_left fun l _ => ?_).trans (map_id ls)
  obtain ⟨waiting, out⟩ := l
  cases waiting <;> simp [addReply]

/-- From `s` to `s'` the bytes `p` were added to the slave side and the bytes `q`
to the peer side: to the backlog, and to every client that does not wait. -/
structure Adds (s s' : FeedState) (p q : Bytes) : Prop where
  slaves : s'.slaves = s.slaves.map (SlaveLink.addReply p)
  peers : s'.peers = s.peers.map (SlaveLink.addReply q)
  server : FedBy s.servers.server p s'.servers.server
  crdtServer : FedBy s.servers.crdtServer q s'.servers.crdtServer
  crdtGid : s'.crdtGid = s.crdtGid
  proxying : s'.proxying = s.proxying

theorem Adds.trans {s s₁ s₂ : FeedState} {p q p' q' : Bytes} (h : Adds s s₁ p q)
    (h' : Adds s₁ s₂ p' q') : Adds s s₂ (p ++ p') (q ++ q') where
  slaves := by
    rw [h'.slaves, h.slaves, map_map]
    exact map_congr_left fun l _ => l.addReply_addReply p p'
  peers := by
    rw [h'.peers, h.peers, map_map]
    exact map_congr_left fun l _ => l.addReply_addReply q q'
  server := h.server.trans h'.server
  crdtServer := h.crdtServer.trans h'.crdtServer
  crdtGid := h'.crdtGid.trans h.crdtGid
  proxying := h'.proxying.trans h.proxying

theorem fedBy_one (srv : ReplServer) (p : Bytes) : FedBy srv p (feedIfBacklog srv p) := by
  simpa using fedBy_foldl srv [p]

theorem fedBy_nil (srv : ReplServer) : FedBy srv [] srv := by
  simpa using fedBy_foldl srv []

theorem Adds.refl (s : FeedState) : Adds s s [] [] where
  slaves := (map_addReply_nil _).symm
  peers := (map_addReply_nil _).symm
  server := fedBy_nil _
  crdtServer := fedBy_nil _
  crdtGid := rfl
  proxying := rfl

theorem replicationFeedRaw_adds (s : FeedState) (p : Bytes) : Adds s (replicationFeedRaw s p) p p :=
  ⟨rfl, rfl, fedBy_one _ _, fedBy_one _ _, rfl, rfl⟩

/-- The selection that precedes a command for all streams. -/
def selectBytes (s : FeedState) (dictid : Int) : Bytes :=
  if s.serverSeldb ≠ dictid ∨ s.crdtSeldb ≠ dictid then crdtSelectCmd s.crdtGid dictid else []

theorem selectAll_adds (s : FeedState) (dictid : Int) :
    Adds s (selectAll s dictid) (selectBytes s dictid) (selectBytes s dictid) := by
  unfold selectAll selectBytes
  split
  · have h := replicationFeedRaw_adds s (crdtSelectCmd s.crdtGid dictid)
    exact ⟨h.slaves, h.peers, h.server, h.crdtServer, h.crdtGid, h.proxying⟩
  · have h := Adds.refl s
    exact ⟨h.slaves, h.peers, h.server, h.crdtServer, h.crdtGid, h.proxying⟩

/-- What all streams get for one command. -/
def feedAllBytes (s : FeedState) (dictid : Int) (argv : Argv) : Bytes :=
  selectBytes s dictid ++ encodeCommand argv

theorem commandPieces_flatten (argv : Argv) :
    (commandPieces argv).flatten = encodeCommand argv := by
  have h : ∀ l : List Bytes, (l.flatMap fun a => [header 36 a.length, a, crlf]).flatten =
      l.flatMap encodeBulk := by
    intro l
    induction l with
    | nil => rfl
    | cons a l ih => simp [encodeBulk, ih]
  rw [commandPieces, flatten_cons, h, encodeCommand]

open FeedState

theorem foldl_replySlaves (ps : List Bytes) (s : FeedState) :
    ps.foldl replySlaves s = s.replySlaves ps.flatten := by
  induction ps generalizing s with
  | nil => simp [replySlaves]
  | cons p ps ih =>
    rw [foldl_cons, ih]
    simp [replySlaves, Function.comp_def, addReply_addReply]

theorem foldl_replyPeers (ps : List Bytes) (s : FeedState) :
    ps.foldl replyPeers s = s.replyPeers ps.flatten := by
  induction ps generalizing s with
  | nil => simp [replyPeers]
  | cons p ps ih =>
    rw [foldl_cons, ih]
    simp [replyPeers, Function.comp_def, addReply_addReply]

theorem foldl_feedServer (ps : List Bytes) (s : FeedState) : ps.foldl feedServer s =
      { s with servers := s.servers.update .server (ps.foldl feedIfBacklog ·) } := by
  induction ps generalizing s with
  | nil => rfl
  | cons p ps ih =>
    rw [foldl_cons, ih]
    rfl

theorem foldl_feedBoth (ps : List Bytes) (s : FeedState) :
    ps.foldl (fun s p => (s.feedServer p).feedCrdt p) s = { s with servers :=
          { server := ps.foldl feedIfBacklog s.servers.server
            crdtServer := ps.foldl feedIfBacklog s.servers.crdtServer } } := by
  induction ps generalizing s with
  | nil => rfl
  | cons p ps ih =>
    rw [foldl_cons, ih]
    rfl

/-! ## The selection commands are commands -/

theorem ll2string_natCast (n : Nat) : ll2string n = Lib.Decimal.digits n := by
  simp [ll2string]

theorem crdtSelectCmd_eq (gid dictid : Int) : crdtSelectCmd gid dictid =
      encodeCommand [ascii "CRDT.SELECT", ll2string gid, ll2string dictid] := by
  have hhead : ascii "*3\r\n$11\r\nCRDT.SELECT\r\n$" =
      header 42 3 ++ encodeBulk (ascii "CRDT.SELECT") ++ [36] := by decide
  simp [crdtSelectCmd, encodeCommand, hhead, encodeBulk, header, ll2string_natCast,
    show ascii "$" = [36] by decide]

theorem selectCmd_eq (dictid : Int) :
    selectCmd dictid = encodeCommand [ascii "SELECT", ll2string dictid] := by
  have hhead : ascii "*2\r\n$6\r\nSELECT\r\n$" =
      header 42 2 ++ encodeBulk (ascii "SELECT") ++ [36] := by decide
  simp [selectCmd, encodeCommand, hhead, encodeBulk, header, ll2string_natCast]

end XredisCrdt.Repl
