import XredisCrdt.Peer.Link
import XredisCrdt.Clock.Text

/-!
# The handshake with a peer

`crdtSyncWithMaster` is the handler of the events of a new connection to a peer. A
call reads at most one reply, sends at most one command and leaves in `repl_state`
what it waits for next, until the answer to `CRDT.PSYNC` makes the connection that of
a client.

A call is followed with what it does to the socket, to the events of its descriptor
and to the strings that hold replies and errors. What arrives at a socket, and whether
a write succeeds, are inputs. Each connection has a transcript of what was sent on it
and of the bytes that were taken from it as replies.

Left out are times, logging, the choice of another proxy after an error, and what
`+CONTINUE` does to the backlog.
-/

namespace XredisCrdt.Handshake

open Peer Clock Function

/-! ## Lines and commands -/

/-- The loop of `syncReadLine` with room for `size` more bytes. `input` is what
arrives within the time limit of each byte; at its end the read fails. -/
def syncReadLineLoop : Nat → Bytes → Bytes → Option Bytes × Bytes
  | 0, line, input => (some line, input)
  | _ + 1, _, [] => (none, [])
  | size + 1, line, b :: input =>
    if b = 10 then (some (if line.getLast? = some 13 then line.dropLast else line), input)
    else syncReadLineLoop size (line ++ [b]) input

/-- `syncReadLine` with the buffer of 256 bytes, and what it leaves unread. -/
def syncReadLine (input : Bytes) : Option Bytes × Bytes := syncReadLineLoop 255 [] input

/-- The text that `crdtSendSynchronousCommand` makes of its arguments. -/
def syncCommand (args : List Bytes) : Bytes :=
  args.foldl (fun cmd arg => (if cmd ≠ [] then cmd ++ [32] else cmd) ++ cstr arg) [] ++ crlf

/-! ## State -/

/-- `REPL_STATE_RECEIVE_PONG` to `REPL_STATE_RECEIVE_PSYNC`. -/
inductive Stage
  | receivePong
  | sendGid
  | receiveGid
  | sendCrdtAuth
  | receiveCrdtAuth
  | sendAuth
  | receiveAuth
  | sendPort
  | receivePort
  | sendIp
  | receiveIp
  | sendCapa
  | receiveCapa
  | sendVc
  | sendCrdt
  | receiveCrdt
  | receiveVc
  | sendBackflow
  | receiveBackflow
  | sendPsync
  | receivePsync
  deriving DecidableEq, Repr

/-- What the handshake reads of the node and of the instance: `crdt_namespace`,
`masterauth`, `slave_announce_port`, `port`, `slave_announce_ip` and the clock. -/
structure Config where
  crdtNamespace : Bytes
  masterauth : Option Bytes
  slaveAnnouncePort : Int
  port : Int
  slaveAnnounceIp : Option Bytes
  vectorClock : VectorClock
  deriving DecidableEq

/-- `sent` has the configuration and the `backstream_vc` of the call that sent the
command; `answer` has the bytes that a read took from the socket. -/
inductive Exchange
  | sent (config : Config) (backstreamVc : VectorClock) (command : Bytes)
  | answer (taken : Bytes)
  deriving DecidableEq

/-- An open socket: what has arrived and was not read, and its transcript. -/
structure Conn where
  unread : Bytes
  transcript : List Exchange

/-- A file descriptor. -/
abbrev Fd := Nat

inductive Handler
  | crdtSyncWithMaster
  | readQueryFromClient
  deriving DecidableEq, Repr

/-- `aeFileEvent`. -/
structure FileEvent where
  readable : Option Handler
  writable : Option Handler
  deriving DecidableEq, Repr

/-- A peer and the descriptors of its link. `repl_state` is `peer.replState`, and
`stage` where that is `handshake`; `masterFd` is the descriptor of `peer.master`.
`strayClose` says that a descriptor was closed that was not open. -/
structure Link where
  gid : Int
  peer : PeerMaster
  stage : Stage
  replTransferS : Option Fd
  masterFd : Option Fd
  conns : Fd → Option Conn
  events : Fd → FileEvent
  strayClose : Bool

namespace Link

variable (l : Link) (fd : Fd)

/-- `aeDeleteFileEvent` with `AE_READABLE` and `AE_WRITABLE`. -/
def aeDeleteFileEvent (readable writable : Bool) : Link :=
  { l with
    events := update l.events fd
      ⟨if readable then none else (l.events fd).readable,
        if writable then none else (l.events fd).writable⟩ }

/-- `aeCreateFileEvent` with `AE_READABLE`. -/
def aeCreateReadable (h : Handler) : Link :=
  { l with events := update l.events fd ⟨some h, (l.events fd).writable⟩ }

def close : Link :=
  { l with
    conns := update l.conns fd none
    strayClose := l.strayClose || (l.conns fd).isNone }

def onConn (f : Conn → Conn) : Link :=
  { l with conns := update l.conns fd ((l.conns fd).map f) }

/-- More bytes arrive. -/
def arrive (input : Bytes) : Link := l.onConn fd fun c => { c with unread := c.unread ++ input }

def record (e : Exchange) : Link :=
  l.onConn fd fun c => { c with transcript := c.transcript ++ [e] }

def setReplState (r : ReplState) : Link := { l with peer := { l.peer with replState := r } }

def setStage (g : Stage) : Link := { l.setReplState .handshake with stage := g }

/-- What is to be read from a socket; there is nothing on one that is closed. -/
def unread : Bytes := ((l.conns fd).map Conn.unread).getD []

end Link

/-- What a call does to strings, numbered in the order of their allocation, and to
descriptors; `stateMachineError` is the branch with that message. -/
inductive Op
  | alloc (s : Nat)
  | read (s : Nat)
  | release (s : Nat)
  | close (fd : Fd)
  | stateMachineError
  deriving DecidableEq, Repr

/-- A call in progress. -/
structure Call where
  link : Link
  ops : List Op
  strings : Nat

/-- `failed` is the exit behind the label `error`. -/
inductive Exit
  | returned
  | failed
  deriving DecidableEq, Repr

/-- There is no outcome where a null pointer is followed. -/
abbrev Outcome := Option (Call × Exit)

/-- What the environment gives a call: the configuration, whether the socket has an
error, whether the proxy takes its header, what arrives, whether a write succeeds, the
text of `errno`, and a buffer that is not initialized. -/
structure Input where
  config : Config
  socketError : Bool
  proxyConnected : Bool
  arrived : Bytes
  written : Bool
  strerror : Bytes
  uninitialized : Bytes

namespace Call

variable (c : Call)

def emit (ops : List Op) : Call := { c with ops := c.ops ++ ops }

def setStage (g : Stage) : Call := { c with link := c.link.setStage g }

/-- `repl_state` is the stage `g`. -/
def isAt (g : Stage) : Bool := c.link.peer.replState = .handshake ∧ c.link.stage = g

/-- A new string. -/
def newString : Call × Nat :=
  ({ c with ops := c.ops ++ [.alloc c.strings], strings := c.strings + 1 }, c.strings)

/-- `crdtSendSynchronousCommand` with `SYNC_CMD_WRITE`: the string is that of the
error. -/
def write (inp : Input) (fd : Fd) (args : List Bytes) : Call × Option Nat :=
  if inp.written then
    let e := Exchange.sent inp.config c.link.peer.backstreamVc (syncCommand args)
    ({ c with link := c.link.record fd e }, none)
  else
    let (c, s) := c.newString
    (c, some s)

/-- The text of a read that failed. -/
def readError (inp : Input) : Bytes :=
  ascii "-Reading from ip: " ++ c.link.peer.masterhost ++ ascii " port: " ++
    ll2string c.link.peer.masterport ++ ascii ", error: " ++ inp.strerror

/-- `crdtSendSynchronousCommand` with `SYNC_CMD_READ`: the string and its text. -/
def read (inp : Input) (fd : Fd) : Call × Nat × Bytes :=
  let input := c.link.unread fd
  let (line, rest) := syncReadLine input
  let taken := input.take (input.length - rest.length)
  let link := c.link.onConn fd fun conn => ⟨rest, conn.transcript ++ [.answer taken]⟩
  let text := cstr (line.getD (c.readError inp))
  let (c, s) := { c with link := link }.newString
  (c, s, text)

end Call

/-! ## The labels `error` and `write_error` -/

def fail (fd : Fd) (c : Call) : Outcome :=
  let link := (c.link.aeDeleteFileEvent fd true true).close fd
  some
    ({ c.emit [.close fd] with link := { link.setReplState .connect with replTransferS := none } },
      .failed)

def writeError (fd : Fd) (c : Call) (err : Nat) : Outcome :=
  fail fd (c.emit [.read err, .release err])

/-! ## The blocks

Each block acts where `repl_state` is its stage and else hands on to the one after it,
`k`. -/

section blocks

variable (inp : Input) (fd : Fd) (k : Call → Outcome) (c : Call)

/-- Send a command, wait for `next`. -/
def sendBlock (g next : Stage) (args : List Bytes) : Outcome :=
  if c.isAt g then
    match c.write inp fd args with
    | (c, some err) => writeError fd c err
    | (c, none) => some (c.setStage next, .returned)
  else k c

/-- Read a reply that ends the handshake if it is `refused`. -/
def receiveBlock (g next : Stage) (refused : Bytes → Bool) : Outcome :=
  if c.isAt g then
    let (c, err, text) := c.read inp fd
    if refused text then fail fd (c.emit [.read err, .release err])
    else k ((c.emit [.read err, .release err]).setStage next)
  else k c

/-- Read a reply and go on whatever it says. -/
def receiveAnyBlock (g : Stage) (next : PeerMaster → Stage) : Outcome :=
  receiveBlock inp fd k c g (next c.link.peer) fun _ => false

/-- Only `+`, `-NOAUTH` and the error of old versions are taken for an answer to
`PING`. -/
def refusedPong (text : Bytes) : Bool :=
  text.head? ≠ some 43 ∧ ¬ ascii "-NOAUTH" <+: text ∧
    ¬ ascii "-ERR operation not permitted" <+: text

def refusedAuth (text : Bytes) : Bool := text.head? = some 45

def receivePong : Outcome := receiveBlock inp fd k c .receivePong .sendCrdtAuth refusedPong

/-- The string of the error is released before `write_error` reads and releases it. -/
def sendCrdtAuth : Outcome :=
  if c.isAt .sendCrdtAuth then
    match c.write inp fd
        [ascii "CRDT.AUTH", inp.config.crdtNamespace, ll2string c.link.gid] with
    | (c, some err) => writeError fd (c.emit [.release err]) err
    | (c, none) => some (c.setStage .receiveCrdtAuth, .returned)
  else k c

def receiveCrdtAuth : Outcome :=
  receiveBlock inp fd k c .receiveCrdtAuth .sendAuth refusedAuth

def sendAuth : Outcome :=
  match inp.config.masterauth with
  | some password =>
    sendBlock inp fd k c .sendAuth .receiveAuth [ascii "AUTH", password]
  | none => if c.isAt .sendAuth then k (c.setStage .sendPort) else k c

def receiveAuth : Outcome := receiveBlock inp fd k c .receiveAuth .sendPort refusedAuth

/-- `slave_announce_port`, or else `port`. -/
def listeningPort (cfg : Config) : Int :=
  if cfg.slaveAnnouncePort ≠ 0 then cfg.slaveAnnouncePort else cfg.port

def sendPort : Outcome :=
  sendBlock inp fd k c .sendPort .receivePort
    [ascii "CRDT.REPLCONF", ascii "listening-port", ll2string (listeningPort inp.config)]

def receivePort : Outcome := receiveAnyBlock inp fd k c .receivePort fun _ => .sendIp

def sendIp : Outcome :=
  match inp.config.slaveAnnounceIp with
  | some ip =>
    sendBlock inp fd k c .sendIp .receiveIp [ascii "CRDT.REPLCONF", ascii "ip-address", ip]
  | none => if c.isAt .sendIp then k (c.setStage .sendCapa) else k c

def receiveIp : Outcome := receiveAnyBlock inp fd k c .receiveIp fun _ => .sendCapa

def sendCapa : Outcome :=
  sendBlock inp fd k c .sendCapa .receiveCapa
    [ascii "CRDT.REPLCONF", ascii "capa", ascii "eof", ascii "capa", ascii "psync2"]

def receiveCapa : Outcome := receiveAnyBlock inp fd k c .receiveCapa fun _ => .sendVc

def sendVc : Outcome :=
  sendBlock inp fd k c .sendVc .receiveVc
    [ascii "CRDT.REPLCONF", ascii "min-vc", vectorClockToSds inp.config.vectorClock.units]

def receiveVc : Outcome :=
  receiveAnyBlock inp fd k c .receiveVc fun p =>
    if p.backstreaming then .sendBackflow else .sendPsync

def sendBackflow : Outcome :=
  sendBlock inp fd k c .sendBackflow .receiveBackflow
    [ascii "CRDT.REPLCONF", ascii "backstream", vectorClockToSds c.link.peer.backstreamVc.units]

def receiveBackflow : Outcome := receiveAnyBlock inp fd k c .receiveBackflow fun _ => .sendPsync

end blocks

/-! ## `CRDT.PSYNC` -/

/-- The arguments of `CRDT.PSYNC`. -/
def psyncArgs (p : PeerMaster) : List Bytes :=
  match p.psyncRequest with
  | some r => [ascii "CRDT.PSYNC", r.replid, ll2string r.offset]
  | none => [ascii "CRDT.PSYNC", ascii "?", ascii "-1"]

/-- The writing half of `crdtSlaveTryPartialResynchronization` and what follows it: an
error is released there, and another one made. -/
def sendPsync (inp : Input) (fd : Fd) (k : Call → Outcome) (c : Call) : Outcome :=
  if c.isAt .sendPsync then
    let peer := { c.link.peer with masterInitialOffset := -1 }
    let c := { c with link := { c.link with peer := peer } }
    match c.write inp fd (psyncArgs c.link.peer) with
    | (c, some reply) =>
      let c := c.emit [.read reply, .release reply]
      let (c, err) := { c with link := c.link.aeDeleteFileEvent fd true false }.newString
      writeError fd c err
    | (c, none) => some (c.setStage .receivePsync, .returned)
  else k c

/-- The id and the offset of `+FULLRESYNC`; an id that has not 40 bytes is none. -/
def fullResyncReply (reply : Bytes) : PsyncReply :=
  match strchr reply 32 with
  | none => .fullResync [] 0
  | some i =>
    let replid := reply.drop (i + 1)
    match strchr replid 32 with
    | none => .fullResync [] 0
    | some n =>
      if n = 40 then .fullResync (replid.take 40) (strtoll (replid.drop (n + 1)))
      else .fullResync [] 0

/-- What is made of the line that answers `CRDT.PSYNC`; an empty one says nothing. -/
def parsePsyncReply (reply : Bytes) : Option PsyncReply :=
  if reply = [] then none
  else if ascii "+FULLRESYNC" <+: reply then some (fullResyncReply reply)
  else if ascii "+CONTINUE" <+: reply then
    some (.resume (((reply.drop 9).takeWhile fun b => b ≠ 13 ∧ b ≠ 10).drop 1))
  else if ascii "-NOMASTERLINK" <+: reply ∨ ascii "-LOADING" <+: reply then some .tryLater
  else some .other

/-- The connection becomes that of the client of the peer: `createClient`, or
`crdtReplicationResurrectCachedMaster`. -/
def Link.adopt (l : Link) (fd : Fd) (peer : PeerMaster) : Link :=
  { l.aeCreateReadable fd .readQueryFromClient with peer := peer, masterFd := some fd }

/-- What the answer to `CRDT.PSYNC` leads to. Only a full sync forgets
`repl_transfer_s`. -/
def takeReply (inp : Input) (fd : Fd) (c : Call) (reply : PsyncReply) : Outcome :=
  let link := c.link.aeDeleteFileEvent fd true false
  match c.link.peer.readPsync inp.uninitialized reply, reply with
  | none, _ => none
  | some peer, .fullResync _ _ =>
    some ({ c with link := { link.adopt fd peer with replTransferS := none } }, .returned)
  | some peer, .resume _ => some ({ c with link := link.adopt fd peer }, .returned)
  | some peer, _ => fail fd { c with link := { link with peer := peer } }

/-- The reading half, and the end of `crdtSyncWithMaster`. -/
def receivePsync (inp : Input) (fd : Fd) (c : Call) : Outcome :=
  if c.isAt .receivePsync then
    let (c, s, text) := c.read inp fd
    let c := c.emit [.read s, .release s]
    match parsePsyncReply text with
    | none => some (c, .returned)
    | some reply => takeReply inp fd c reply
  else fail fd (c.emit [.stateMachineError])

/-! ## The handler -/

/-- The first event of a connection: the proxy gets its header, the peer a `PING`. -/
def connecting (inp : Input) (fd : Fd) (c : Call) : Outcome :=
  if c.link.peer.proxy.isSome ∧ ¬ inp.proxyConnected then fail fd c
  else
    let c := { c with link := (c.link.aeDeleteFileEvent fd false true).setStage .receivePong }
    match c.write inp fd [ascii "PING"] with
    | (c, some err) => writeError fd c err
    | (c, none) => some (c, .returned)

/-- The blocks of the handshake in the order of the source. -/
def blocks (inp : Input) (fd : Fd) : Call → Outcome :=
  receivePong inp fd <| sendCrdtAuth inp fd <| receiveCrdtAuth inp fd <| sendAuth inp fd <|
  receiveAuth inp fd <| sendPort inp fd <| receivePort inp fd <| sendIp inp fd <|
  receiveIp inp fd <| sendCapa inp fd <| receiveCapa inp fd <| sendVc inp fd <|
  receiveVc inp fd <| sendBackflow inp fd <| receiveBackflow inp fd <| sendPsync inp fd <|
  receivePsync inp fd

/-- `crdtSyncWithMaster`. Without a replication state the descriptor is closed and its
events stay. -/
def crdtSyncWithMaster (inp : Input) (fd : Fd) (l : Link) : Outcome :=
  let c : Call := ⟨l.arrive fd inp.arrived, [], 0⟩
  match l.peer.replState with
  | .none => some ({ c.emit [.close fd] with link := c.link.close fd }, .returned)
  | .connecting => if inp.socketError then fail fd c else connecting inp fd c
  | _ => if inp.socketError then fail fd c else blocks inp fd c

/-! ## Lines that are read -/

/-- A carriage return at the end is dropped. -/
def stripCr (line : Bytes) : Bytes := if line.getLast? = some 13 then line.dropLast else line

theorem syncReadLineLoop_line {size : Nat} {line t rest : Bytes} (ht : 10 ∉ t)
    (hlen : t.length < size) :
    syncReadLineLoop size line (t ++ 10 :: rest) = (some (stripCr (line ++ t)), rest) := by
  induction t generalizing size line with
  | nil =>
    obtain ⟨size, rfl⟩ := Nat.exists_eq_add_one.2 hlen
    simp [syncReadLineLoop, stripCr]
  | cons b t ih =>
    obtain ⟨size, rfl⟩ := Nat.exists_eq_add_one.2 (Nat.zero_lt_of_lt hlen)
    rw [List.mem_cons, not_or] at ht
    have hlen' : t.length < size := by simpa using hlen
    rw [List.cons_append, syncReadLineLoop, if_neg (Ne.symm ht.1), ih ht.2 hlen']
    simp

theorem syncReadLineLoop_short {size : Nat} {line input : Bytes} (h : 10 ∉ input)
    (hlen : input.length < size) : syncReadLineLoop size line input = (none, []) := by
  induction input generalizing size line with
  | nil =>
    obtain ⟨size, rfl⟩ := Nat.exists_eq_add_one.2 hlen
    rfl
  | cons b input ih =>
    obtain ⟨size, rfl⟩ := Nat.exists_eq_add_one.2 (Nat.zero_lt_of_lt hlen)
    rw [List.mem_cons, not_or] at h
    rw [syncReadLineLoop, if_neg (Ne.symm h.1)]
    exact ih h.2 (by simpa using hlen)

/-- The text of a line that starts with `-` starts with it. -/
theorem head?_text {t : Bytes} (h : t.head? = some 45) : (cstr (stripCr t)).head? = some 45 := by
  obtain ⟨t, rfl⟩ : ∃ t', t = 45 :: t' := List.head?_eq_some_iff.1 h
  have hstrip : ∃ t', stripCr (45 :: t) = 45 :: t' := by
    unfold stripCr
    split
    case isFalse => exact ⟨t, rfl⟩
    case isTrue hlast =>
      -- the carriage return is not the `-` itself
      cases t with
      | nil => simp at hlast
      | cons b t => exact ⟨(b :: t).dropLast, rfl⟩
  obtain ⟨t', ht'⟩ := hstrip
  simp [ht', cstr]

/-! ## One call -/

section call

variable {inp : Input} {fd : Fd} {c : Call} {g next : Stage} {args : List Bytes}

theorem Call.isAt_eq (h : c.isAt g = true) (g' : Stage) : c.isAt g' = decide (g = g') := by
  simp only [isAt, decide_eq_true_eq] at h
  simp [isAt, h.1, h.2]

@[simp] theorem Call.isAt_setStage (g' : Stage) : (c.setStage g).isAt g' = decide (g = g') := by
  simp [isAt, setStage, Link.setStage, Link.setReplState]

/-- The call after a reply was read and its string released. -/
def Call.heard (c : Call) (inp : Input) (fd : Fd) : Call :=
  (c.read inp fd).1.emit [.read c.strings, .release c.strings]

/-- The replies that end the handshake. -/
def Stage.refuses (text : Bytes) : Stage → Bool
  | .receivePong => refusedPong text
  | .receiveCrdtAuth | .receiveAuth => refusedAuth text
  | _ => false

/-- The command that follows an accepted reply, and the stage that waits for its
answer. -/
def Stage.question (cfg : Config) (gid : Int) (p : PeerMaster) : Stage → Option (Stage × Argv)
  | .receivePong =>
    some (.receiveCrdtAuth, [ascii "CRDT.AUTH", cfg.crdtNamespace, ll2string gid])
  | .receiveCrdtAuth =>
    match cfg.masterauth with
    | some password => some (.receiveAuth, [ascii "AUTH", password])
    | none => some (.receivePort, port)
  | .receiveAuth => some (.receivePort, port)
  | .receivePort =>
    match cfg.slaveAnnounceIp with
    | some ip => some (.receiveIp, [ascii "CRDT.REPLCONF", ascii "ip-address", ip])
    | none => some (.receiveCapa, capa)
  | .receiveIp => some (.receiveCapa, capa)
  | .receiveCapa =>
    some (.receiveVc,
      [ascii "CRDT.REPLCONF", ascii "min-vc", vectorClockToSds cfg.vectorClock.units])
  | .receiveVc =>
    if p.backstreaming then
      some (.receiveBackflow,
        [ascii "CRDT.REPLCONF", ascii "backstream", vectorClockToSds p.backstreamVc.units])
    else some (.receivePsync, psyncArgs p)
  | .receiveBackflow => some (.receivePsync, psyncArgs p)
  | _ => none
where
  port := [ascii "CRDT.REPLCONF", ascii "listening-port", ll2string (listeningPort cfg)]
  capa := [ascii "CRDT.REPLCONF", ascii "capa", ascii "eof", ascii "capa", ascii "psync2"]

/-- The peer while the command is sent; `CRDT.PSYNC` forgets the initial offset. -/
def Stage.asking (p : PeerMaster) : Stage → PeerMaster
  | .receivePsync => { p with masterInitialOffset := -1 }
  | _ => p

/-- The link after `args` were sent and `next` is waited for. -/
def Call.asked (c : Call) (inp : Input) (fd : Fd) (next : Stage) (args : List Bytes) : Call :=
  { c with
    link :=
      { c.link.record fd (.sent inp.config c.link.peer.backstreamVc (syncCommand args)) with
        peer := { next.asking c.link.peer with replState := .handshake }
        stage := next } }


section skip

variable {k : Call → Outcome}

@[simp] theorem sendBlock_skip (h : c.isAt g = false) : sendBlock inp fd k c g next args = k c := by
  simp [sendBlock, h]

@[simp] theorem receiveBlock_skip {refused : Bytes → Bool} (h : c.isAt g = false) :
    receiveBlock inp fd k c g next refused = k c := by
  simp [receiveBlock, h]

@[simp] theorem sendCrdtAuth_skip (h : c.isAt .sendCrdtAuth = false) :
    sendCrdtAuth inp fd k c = k c := by
  simp [sendCrdtAuth, h]

@[simp] theorem sendAuth_skip (h : c.isAt .sendAuth = false) : sendAuth inp fd k c = k c := by
  unfold sendAuth
  cases inp.config.masterauth <;> simp [sendBlock, h]

@[simp] theorem sendIp_skip (h : c.isAt .sendIp = false) : sendIp inp fd k c = k c := by
  unfold sendIp
  cases inp.config.slaveAnnounceIp <;> simp [sendBlock, h]

@[simp] theorem sendPsync_skip (h : c.isAt .sendPsync = false) : sendPsync inp fd k c = k c := by
  simp [sendPsync, h]

theorem receiveBlock_at {refused : Bytes → Bool} (h : c.isAt g = true) :
    receiveBlock inp fd k c g next refused =
      if refused (c.read inp fd).2.2 then fail fd (c.heard inp fd)
      else k ((c.heard inp fd).setStage next) := by
  rw [receiveBlock, if_pos h]
  rfl

end skip

/-- The links differ at most in the connection and the events of `fd` and in what the
handshake does to the peer. -/
structure Touches (fd : Fd) (l l' : Link) : Prop where
  conns : ∀ f, f ≠ fd → l'.conns f = l.conns f
  isOpen : (l'.conns fd).isSome = (l.conns fd).isSome
  events : ∀ f, f ≠ fd → l'.events f = l.events f
  strayClose : l'.strayClose = l.strayClose
  masterFd : l'.masterFd = l.masterFd
  gid : l'.gid = l.gid
  cached : l'.peer.cachedMaster = l.peer.cachedMaster ∨ l'.peer.cachedMaster = none

theorem Touches.trans {l₁ l₂ l₃ : Link} (h : Touches fd l₁ l₂) (h' : Touches fd l₂ l₃) :
    Touches fd l₁ l₃ where
  conns f hf := (h'.conns f hf).trans (h.conns f hf)
  isOpen := h'.isOpen.trans h.isOpen
  events f hf := (h'.events f hf).trans (h.events f hf)
  strayClose := h'.strayClose.trans h.strayClose
  masterFd := h'.masterFd.trans h.masterFd
  gid := h'.gid.trans h.gid
  cached := by
    rcases h'.cached with h₃ | h₃
    · rcases h.cached with h₂ | h₂
      · exact .inl (h₃.trans h₂)
      · exact .inr (h₃.trans h₂)
    · exact .inr h₃

theorem touches_onConn (l : Link) (f : Conn → Conn) : Touches fd l (l.onConn fd f) where
  conns f hf := update_of_ne hf _ _
  isOpen := by simp [Link.onConn]
  events _ _ := rfl
  strayClose := rfl
  masterFd := rfl
  gid := rfl
  cached := .inl rfl

theorem touches_heard : Touches fd c.link (c.heard inp fd).link := touches_onConn _ _

/-- What a failed write does to strings before `error`; that of `CRDT.PSYNC` makes a
second one. -/
def Stage.writeOps (n : Nat) : Stage → List Op
  | .receivePsync =>
    [.alloc n, .read n, .release n, .alloc (n + 1), .read (n + 1), .release (n + 1)]
  | _ => [.alloc n, .read n, .release n]

/-- The outcome of sending `args` in the call `c`. -/
def Sends (inp : Input) (fd : Fd) (c : Call) (next : Stage) (args : List Bytes) (o : Outcome) :
    Prop :=
  (inp.written = true → o = some (c.asked inp fd next args, .returned)) ∧
    (inp.written = false → ∃ c', o = fail fd c' ∧ Touches fd c.link c'.link ∧
      (next ≠ .receiveCrdtAuth → c'.ops = c.ops ++ next.writeOps c.strings))

section sends

variable {k : Call → Outcome}

/-- A block that was just reached sends its command. -/
theorem sendBlock_sends (hnext : next ≠ .receivePsync) :
    Sends inp fd c next args (sendBlock inp fd k (c.setStage g) g next args) := by
  have hasking : next.asking c.link.peer = c.link.peer := by
    cases next <;> first | rfl | exact absurd rfl hnext
  have hops :
      next.writeOps c.strings = [.alloc c.strings, .read c.strings, .release c.strings] := by
    cases next <;> first | rfl | exact absurd rfl hnext
  rw [sendBlock, if_pos (by simp)]
  constructor
  · intro hw
    simp only [Call.write, hw, if_true, Call.asked, hasking]
    rfl
  · intro hw
    simp only [Call.write, hw, Bool.false_eq_true, if_false]
    refine ⟨_, rfl, ⟨fun _ _ => rfl, rfl, fun _ _ => rfl, rfl, rfl, rfl, .inl rfl⟩, fun _ => ?_⟩
    rw [hops]
    simp [Call.emit, Call.newString, Call.setStage]

theorem sendCrdtAuth_sends : Sends inp fd c .receiveCrdtAuth
      [ascii "CRDT.AUTH", inp.config.crdtNamespace, ll2string c.link.gid]
      (sendCrdtAuth inp fd k (c.setStage .sendCrdtAuth)) := by
  rw [sendCrdtAuth, if_pos (by simp)]
  constructor
  · intro hw
    simp only [Call.write, hw, if_true]
    rfl
  · intro hw
    simp only [Call.write, hw, Bool.false_eq_true, if_false]
    exact ⟨_, rfl, ⟨fun _ _ => rfl, rfl, fun _ _ => rfl, rfl, rfl, rfl, .inl rfl⟩,
      fun h => absurd rfl h⟩

theorem sendPsync_sends : Sends inp fd c .receivePsync (psyncArgs c.link.peer)
      (sendPsync inp fd k (c.setStage .sendPsync)) := by
  rw [sendPsync, if_pos (by simp)]
  constructor
  · intro hw
    simp only [Call.write, hw, if_true]
    rfl
  · intro hw
    simp only [Call.write, hw, Bool.false_eq_true, if_false]
    refine ⟨_, rfl, ⟨fun _ _ => rfl, rfl, fun f hf => ?_, rfl, rfl, rfl, .inl rfl⟩, fun _ => ?_⟩
    · exact update_of_ne hf _ _
    · simp [Call.emit, Call.newString, Call.setStage, Stage.writeOps]

end sends

theorem blocks_refused (hat : c.isAt g = true) (h : g.refuses (c.read inp fd).2.2 = true) :
    blocks inp fd c = fail fd (c.heard inp fd) := by
  have hskip := Call.isAt_eq hat
  cases g <;> first
    | cases h
    | simp_all [blocks, receivePong, receiveCrdtAuth, receiveAuth, receiveBlock_at, Stage.refuses]

/-- The blocks between an accepted reply and the next command hand on. -/
theorem blocks_sends (hat : c.isAt g = true)
    (hq : g.question inp.config c.link.gid c.link.peer = some (next, args))
    (hok : g.refuses (c.read inp fd).2.2 = false) :
    Sends inp fd (c.heard inp fd) next args (blocks inp fd c) := by
  have hskip := Call.isAt_eq hat
  unfold Stage.question at hq
  unfold blocks receivePong receiveCrdtAuth receiveAuth receivePort receiveIp receiveCapa receiveVc
    receiveBackflow receiveAnyBlock
  split at hq
  all_goals simp only [Stage.refuses] at hok
  case h_1 =>
    cases hq
    simp only [receiveBlock_at hat, hok, Bool.false_eq_true, if_false]
    exact sendCrdtAuth_sends
  case h_2 =>
    cases hauth : inp.config.masterauth
    all_goals
      rw [hauth] at hq
      cases hq
      simp [receiveBlock_at, hskip, hok, sendAuth, hauth]
      exact sendBlock_sends (by decide)
  case h_3 =>
    cases hq
    simp [receiveBlock_at, hskip, hok]
    exact sendBlock_sends (by decide)
  case h_4 =>
    cases hip : inp.config.slaveAnnounceIp
    all_goals
      rw [hip] at hq
      cases hq
      simp [receiveBlock_at, hskip, sendPort, sendIp, hip]
      exact sendBlock_sends (by decide)
  case h_5 =>
    cases hq
    simp [receiveBlock_at, hskip, sendPort]
    exact sendBlock_sends (by decide)
  case h_6 =>
    cases hq
    simp [receiveBlock_at, hskip, sendPort, sendCapa]
    exact sendBlock_sends (by decide)
  case h_7 =>
    split at hq
    case isTrue hback =>
      cases hq
      simp [receiveBlock_at, hskip, sendPort, sendCapa, sendVc, hback]
      exact sendBlock_sends (by decide)
    case isFalse hback =>
      cases hq
      simp [receiveBlock_at, hskip, sendPort, sendCapa, sendVc, hback, sendBackflow]
      exact sendPsync_sends
  case h_8 =>
    cases hq
    simp [receiveBlock_at, hskip, sendPort, sendCapa, sendVc, sendBackflow]
    exact sendPsync_sends
  case h_9 => cases hq

theorem blocks_receivePsync (hat : c.isAt .receivePsync = true) :
    blocks inp fd c = receivePsync inp fd c := by
  have hskip := Call.isAt_eq hat
  simp [blocks, receivePong, receiveCrdtAuth, receiveAuth, receivePort, receiveIp, receiveCapa,
    receiveVc, receiveBackflow, receiveAnyBlock, sendPort, sendCapa, sendVc, sendBackflow, hskip]

end call

end XredisCrdt.Handshake
