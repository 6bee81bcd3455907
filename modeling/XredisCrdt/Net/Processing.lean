import XredisCrdt.Net.Command
import XredisCrdt.Repl.Feed

/-!
# Processing the input of a client

`processInputBuffer` and its two drivers: `readQueryFromClient`, which forwards
what was applied of the stream of a master or peer to the own slaves, and
`processUnblockedClients`, which does not. Pausing of clients is part of it.

`Node` is the server as one client sees it. The field `trace` records what became
of every command that was parsed, `forwarded` the bytes of the client's stream
that were passed on. No function reads them but for the number of commands, with
which `processCommand` finds in `moments` what is there for the next one.
-/

namespace XredisCrdt.Net

open Proto Repl

/-- What `processCommand` did with a command. -/
inductive Outcome
  | quit
  | refused (r : Refusal)
  | queued
  | ran
  deriving DecidableEq, Repr

/-- A processed command, whether the client is in a transaction after it, and
whether the replication offset was moved behind it. -/
structure Processed where
  argv : Argv
  outcome : Outcome
  multi : Bool
  acked : Bool
  deriving DecidableEq, Repr

/-- What `getPeerMaster` gives for a gid: whether `repl_state` is
`REPL_STATE_CONNECTED`, and `reploff` of the client that stands for the peer, if
there is one. -/
structure Peer where
  connected : Bool
  masterReploff : Option Int
  deriving DecidableEq, Repr

/-- `PROTO_IOBUF_LEN`. -/
def protoIobufLen : Nat := 1024 * 16

/-- The server and one of its clients. `moments k` is what the client's command
number `k` finds. `freed` says that the client is gone, `unblocked` how often it
is in `server.unblocked_clients`. -/
structure Node (σ : Type) where
  server : Server
  moments : Nat → Moment
  protoMaxBulkLen : Nat
  clientMaxQuerybufLen : Nat
  peers : Int → Option Peer
  feed : FeedState
  world : σ
  clientsPaused : Bool
  clientsPauseEndTime : Nat
  mstime : Nat
  c : Client
  freed : Bool
  unblocked : Nat
  trace : List Processed
  forwarded : Bytes

variable {σ : Type} (P : Procs σ)

namespace Node

/-- What the next command finds. -/
def moment (n : Node σ) : Moment := n.moments n.trace.length

/-- `getPeerMaster(gid)->repl_state == REPL_STATE_CONNECTED`. -/
def peerConnected (n : Node σ) (gid : Int) : Bool :=
  ((n.peers gid).map Peer.connected).getD false

/-- Change what is known of a peer. -/
def updatePeer (n : Node σ) (gid : Int) (f : Peer → Peer) : Node σ :=
  { n with peers := Function.update n.peers gid ((n.peers gid).map f) }

/-- The client with another state of its parser. -/
def withInput (n : Node σ) (i : Input) : Node σ := { n with c := { n.c with input := i } }

/-- The client is the master of this slave. -/
def onMasterLink (n : Node σ) : Bool := n.c.isMaster && !n.server.iAmMaster

/-- The client is a peer with which the node is connected. -/
def onPeerLink (n : Node σ) : Bool := n.c.isCrdtMaster && n.peerConnected n.c.gid

end Node

/-! ## Procedures -/

/-- `check_gid`. -/
def checkGid (gid : Int) : Bool := 0 < gid ∧ gid < 16

/-- Set the offset of the client that stands for a peer, which may be the one we
read from. -/
def setPeerOffset (n : Node σ) (gid off : Int) : Node σ :=
  if n.c.isCrdtMaster ∧ n.c.gid = gid then
    { n with c := { n.c with reploff := off, readReploff := off } }
  else n.updatePeer gid fun p => { p with masterReploff := p.masterReploff.map fun _ => off }

/-- The synchronization with a peer is complete. -/
def connectPeer (n : Node σ) (gid : Int) : Node σ :=
  if n.server.iAmMaster then n.updatePeer gid fun p => { p with connected := true } else n

/-- `crdtMergeEndCommand` as far as offsets and state of the peer are concerned.
On its error path the link is given up. -/
def crdtMergeEndCommand (n : Node σ) (argv : Argv) : Node σ :=
  match argv with
  | _ :: gid :: _ :: _ :: offset :: _ =>
    match string2gid gid with
    | none => { n with freed := true }
    | some g =>
      if ¬ checkGid g then { n with freed := true }
      else match n.peers g with
        | none => { n with freed := true }
        | some _ =>
          match string2ll offset with
          | none => n
          | some off => connectPeer (setPeerOffset n g off) g
  | _ => { n with freed := true }

/-- `RM_CrdtReplicateVerbatim` gives a client its gid if it has none. -/
def verbatimGid (cur : Int) (gid : Option Int) : Int := if cur = -1 then gid.getD cur else cur

/-- `call` for a command that is not about transactions. -/
def callPlain (n : Node σ) (cmd : Command) (argv : Argv) : Node σ :=
  let (world, db, gid) := P.run n.world n.c.db argv
  let n := { n with
    world := world
    c := { n.c with db := db, gid := verbatimGid n.c.gid gid } }
  if cmd.proc = .crdtMergeEndCommand then crdtMergeEndCommand n argv else n

/-- The end of `execCommand` and `crdtExecCommand`. -/
def execTransaction (n : Node σ) : Node σ :=
  let n :=
    if n.c.dirtyCas ∨ n.c.dirtyExec then n
    else n.c.mstate.foldl (fun n q => callPlain P n q.1 q.2) n
  { n with c := discardTransaction n.c }

def execCommand (n : Node σ) : Node σ :=
  if ¬ n.c.multi then n else execTransaction P n

/-- The gid in the arguments of `CRDT.EXEC`. -/
def execGid (argv : Argv) : Option Int :=
  match argv with
  | [_, a] => (string2gid a).filter fun g => checkGid g
  | _ => none

def crdtExecCommand (n : Node σ) (argv : Argv) : Node σ :=
  if ¬ n.c.multi then n
  else match execGid argv with
    | none => n
    | some g => execTransaction P { n with c := { n.c with gid := g } }

def call (n : Node σ) (cmd : Command) (argv : Argv) : Node σ :=
  match cmd.proc with
  | .multiCommand => { n with c := { n.c with multi := true } }
  | .discardCommand => if n.c.multi then { n with c := discardTransaction n.c } else n
  | .execCommand => execCommand P n
  | .crdtExecCommand => crdtExecCommand P n argv
  | _ => callPlain P n cmd argv

/-! ## `processCommand` -/

/-- Is the command run at once even in a transaction? -/
def runsInMulti (cmd : Command) : Bool :=
  match cmd.proc with
  | .execCommand | .discardCommand | .multiCommand | .watchCommand | .crdtExecCommand => true
  | _ => false

/-- The client after a refusal. -/
def afterRefusal (c : Client) (cmd : Option Command) (r : Refusal) : Client :=
  match r, cmd.map Command.proc with
  | .redirected _, some .execCommand => discardTransaction c
  | r, _ => if r.flags then flagTransaction c else c

def processCommand (n : Node σ) : Node σ × Outcome :=
  let argv := n.c.input.argv
  let name := argv.headD []
  if strcaseeq name (ascii "quit") then
    ({ n with c := { n.c with closeAfterReply := true } }, .quit)
  else match lookupCommand P name with
    | none =>
      ({ n with c := afterRefusal n.c none (.unknownCommand name) },
        .refused (.unknownCommand name))
    | some cmd =>
      match closedGate n.server n.moment n.c cmd argv with
      | some r => ({ n with c := afterRefusal n.c (some cmd) r }, .refused r)
      | none =>
        if n.c.multi ∧ ¬ runsInMulti cmd then
          ({ n with c := { n.c with mstate := n.c.mstate ++ [(cmd, argv)] } }, .queued)
        else (call P n cmd argv, .ran)

/-! ## `processInputBuffer` -/

/-- `clientsArePaused`: the end of the pause puts the client in the list of the
unblocked ones. -/
def clientsArePaused (n : Node σ) : Node σ :=
  if n.clientsPaused ∧ n.clientsPauseEndTime < n.mstime then
    { n with
      clientsPaused := false
      unblocked := if n.c.isSlave ∨ n.c.blocked then n.unblocked else n.unblocked + 1 }
  else n

/-- The bytes of the stream since the last offset. -/
def Node.advance (n : Node σ) : Int :=
  n.c.readReploff - n.c.input.querybuf.length - n.c.reploff

/-- A slave counts a command for the history that its gid belongs to. -/
def accountGid (n : Node σ) : Node σ :=
  if n.onMasterLink then
    if n.c.gid = n.feed.crdtGid then
      let bytes := (n.c.pendingQuerybuf.drop n.c.pendingUsedOffset.toNat).take n.advance.toNat
      { n with feed := n.feed.feedCrdt bytes }
    else if n.c.gid ≠ -1 then
      n.updatePeer n.c.gid fun p => { p with masterReploff := p.masterReploff.map (· + n.advance) }
    else n
  else n

/-- May the replication offset be moved behind the command? -/
def Node.moves (n : Node σ) : Bool := (n.c.isMaster || n.onPeerLink) && !n.c.multi

def moveReploff (n : Node σ) : Node σ :=
  if n.moves then
    { n with c := { n.c with
        pendingUsedOffset := n.c.pendingUsedOffset + n.advance
        reploff := n.c.readReploff - n.c.input.querybuf.length } }
  else n

/-- The gid of the master's client is forgotten before each command. -/
def forgetGid (n : Node σ) : Node σ :=
  if n.onMasterLink then { n with c := { n.c with gid := -1 } } else n

/-- Move the offset and make the client ready for the next command. -/
def finishParsed (n : Node σ) (argv : Argv) (outcome : Outcome) : Node σ :=
  let acked := n.moves
  let n := moveReploff n
  { n with c := resetClient n.c, trace := n.trace ++ [⟨argv, outcome, n.c.multi, acked⟩] }

/-- The part of the loop body that deals with a parsed command. -/
def processParsed (n : Node σ) : Node σ :=
  let argv := n.c.input.argv
  let r := processCommand P (forgetGid n)
  if r.2 = .quit ∨ r.1.freed then
    { r.1 with trace := r.1.trace ++ [⟨argv, r.2, r.1.c.multi, false⟩] }
  else finishParsed (accountGid r.1) argv r.2

/-- The request type by the first byte, when it is unknown. -/
def determineReqtype (i : Input) : Input :=
  if i.reqtype = .none then
    { i with reqtype := if i.querybuf.head? = some 42 then .multibulk else .inline }
  else i

def parseRequest (maxBulk : Nat) (i : Input) : Input × ParseResult :=
  match i.reqtype with
  | .multibulk => processMultibulkBuffer maxBulk i
  | _ => processInlineBuffer i

/-- The loop of `processInputBuffer`. Every round but the last uses up bytes of
the buffer, so that its length is enough fuel. -/
def inputLoop : Nat → Node σ → Node σ
  | 0, n => n
  | fuel + 1, n =>
    if n.freed ∨ n.c.input.querybuf = [] then n
    else
      let n := if n.c.isSlave then n else clientsArePaused n
      if ¬ n.c.isSlave ∧ n.clientsPaused then n
      else if n.c.blocked then n
      else if n.c.closeAfterReply ∨ n.c.closeAsap then n
      else
        match parseRequest n.protoMaxBulkLen (determineReqtype n.c.input) with
        | (i, .again) => n.withInput i
        | (i, .protocolError _) => { n with c := { n.c with input := i, closeAfterReply := true } }
        | (i, .ok) =>
          let n := n.withInput i
          if i.argv = [] then inputLoop fuel { n with c := resetClient n.c }
          else inputLoop fuel (processParsed P n)

def processInputBuffer (n : Node σ) : Node σ :=
  inputLoop P n.c.input.querybuf.length n

/-! ## Drivers -/

/-- How many bytes `readQueryFromClient` asks for: a large bulk is to end with
the buffer. -/
def readlen (i : Input) : Int :=
  match i.reqtype, i.bulklen with
  | .multibulk, some l =>
    if i.multibulklen ≠ 0 ∧ l ≥ protoMbulkBigArg then
      min protoIobufLen ((l : Int) + 2 - i.querybuf.length)
    else protoIobufLen
  | _, _ => protoIobufLen

/-- The bytes that were applied go to the own slaves and leave the pending ones. -/
def forwardApplied (n : Node σ) (prevOffset : Int) (select : Option Int) (forward : Bool) :
    Node σ :=
  let applied := n.c.reploff - prevOffset
  if applied = 0 then n
  else
    let chunk := n.c.pendingQuerybuf.take applied.toNat
    let n :=
      if forward then
        let feed := match select with
          | some dictid =>
            if n.feed.serverSeldb ≠ dictid then sendSelectCommandToSlave n.feed dictid else n.feed
          | none => n.feed
        { n with
          feed := replicationFeedSlavesFromMasterStream feed chunk
          forwarded := n.forwarded ++ chunk }
      else n
    { n with c := { n.c with
        pendingQuerybuf := n.c.pendingQuerybuf.drop applied.toNat
        pendingUsedOffset := 0 } }

/-- The bytes that `read` has returned are put where they belong. -/
def appendRead (n : Node σ) (bytes : Bytes) : Node σ :=
  { n with c := { n.c with
      input := { n.c.input with querybuf := n.c.input.querybuf ++ bytes }
      pendingQuerybuf :=
        if n.onMasterLink ∨ n.onPeerLink then n.c.pendingQuerybuf ++ bytes else n.c.pendingQuerybuf
      readReploff :=
        if n.c.isMaster ∨ n.onPeerLink then n.c.readReploff + bytes.length else n.c.readReploff } }

/-- `readQueryFromClient` when `read` returns `bytes`; no bytes mean that the
connection is closed. -/
def readQueryFromClient (n : Node σ) (bytes : Bytes) : Node σ :=
  if bytes = [] then { n with freed := true }
  else
    let n := appendRead n bytes
    if n.c.input.querybuf.length > n.clientMaxQuerybufLen then { n with freed := true }
    else if n.onMasterLink then
      let prevOffset := n.c.reploff
      forwardApplied (processInputBuffer P n) prevOffset none (!n.server.replSlaveReplAll)
    else if n.onPeerLink then
      let prevOffset := n.c.reploff
      let dictid := n.c.db
      forwardApplied (processInputBuffer P n) prevOffset (some dictid) true
    else processInputBuffer P n

/-- One turn of the loop of `processUnblockedClients`. -/
def processUnblockedClient (n : Node σ) : Node σ :=
  let n := { n with unblocked := n.unblocked - 1 }
  if ¬ n.c.blocked ∧ n.c.input.querybuf ≠ [] then processInputBuffer P n else n

/-- `pauseClients`. -/
def pauseClients (n : Node σ) (stop : Nat) : Node σ :=
  { n with
    clientsPaused := true
    clientsPauseEndTime :=
      if ¬ n.clientsPaused ∨ stop > n.clientsPauseEndTime then stop else n.clientsPauseEndTime }

end XredisCrdt.Net
