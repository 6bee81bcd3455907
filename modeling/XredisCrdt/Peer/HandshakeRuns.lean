import XredisCrdt.Peer.Handshake
import XredisCrdt.Lib.System

/-!
# Runs of the handshake

The link to one peer under every sequence of events, inputs, time limits and
configuration changes.

`Dialogue` is what has to be said on a connection before `CRDT.PSYNC` may be sent on
it. `Guarantee` is what a state of a run promises: a link that transfers or is
connected, and every connection on which `CRDT.PSYNC` was sent, has had the whole
dialogue; a failed handshake closes its descriptor once, removes the events and
releases every string once. `orderly` is the condition under which it holds.
-/

namespace XredisCrdt.Handshake

open Peer Clock List

/-! ## What has to be said -/

/-- One line and nothing else. -/
def IsLine (taken : Bytes) : Prop := ∃ t, taken = t ++ [10] ∧ 10 ∉ t

/-- The reply is an error. -/
def IsError (taken : Bytes) : Prop := taken.head? = some 45

/-- `Dialogue gid g t`: `t` is what was said, in order and with one line for each
command, up to the command whose answer the stage `g` waits for. -/
inductive Dialogue (gid : Int) : Stage → List Exchange → Prop
  | ping {cfg vc} : Dialogue gid .receivePong [.sent cfg vc (syncCommand [ascii "PING"])]
  | crdtAuth {t line cfg vc} (h : Dialogue gid .receivePong t) (hline : IsLine line) :
      Dialogue gid .receiveCrdtAuth
        (t ++ [.answer line,
          .sent cfg vc (syncCommand [ascii "CRDT.AUTH", cfg.crdtNamespace, ll2string gid])])
  | auth {t line cfg vc password} (h : Dialogue gid .receiveCrdtAuth t) (hline : IsLine line)
      (hok : ¬ IsError line) (hpassword : cfg.masterauth = some password) :
      Dialogue gid .receiveAuth
        (t ++ [.answer line, .sent cfg vc (syncCommand [ascii "AUTH", password])])
  | port {t line cfg vc} (h : Dialogue gid .receiveCrdtAuth t) (hline : IsLine line)
      (hok : ¬ IsError line) (hpassword : cfg.masterauth = none) :
      Dialogue gid .receivePort
        (t ++ [.answer line,
          .sent cfg vc (syncCommand
            [ascii "CRDT.REPLCONF", ascii "listening-port", ll2string (listeningPort cfg)])])
  | portAfterAuth {t line cfg vc} (h : Dialogue gid .receiveAuth t) (hline : IsLine line)
      (hok : ¬ IsError line) :
      Dialogue gid .receivePort
        (t ++ [.answer line,
          .sent cfg vc (syncCommand
            [ascii "CRDT.REPLCONF", ascii "listening-port", ll2string (listeningPort cfg)])])
  | ip {t line cfg vc ip} (h : Dialogue gid .receivePort t) (hline : IsLine line)
      (hip : cfg.slaveAnnounceIp = some ip) :
      Dialogue gid .receiveIp
        (t ++ [.answer line,
          .sent cfg vc (syncCommand [ascii "CRDT.REPLCONF", ascii "ip-address", ip])])
  | capa {t line cfg vc} (h : Dialogue gid .receivePort t) (hline : IsLine line)
      (hip : cfg.slaveAnnounceIp = none) :
      Dialogue gid .receiveCapa
        (t ++ [.answer line,
          .sent cfg vc (syncCommand
            [ascii "CRDT.REPLCONF", ascii "capa", ascii "eof", ascii "capa", ascii "psync2"])])
  | capaAfterIp {t line cfg vc} (h : Dialogue gid .receiveIp t) (hline : IsLine line) :
      Dialogue gid .receiveCapa
        (t ++ [.answer line,
          .sent cfg vc (syncCommand
            [ascii "CRDT.REPLCONF", ascii "capa", ascii "eof", ascii "capa", ascii "psync2"])])
  | minVc {t line cfg vc} (h : Dialogue gid .receiveCapa t) (hline : IsLine line) :
      Dialogue gid .receiveVc
        (t ++ [.answer line,
          .sent cfg vc (syncCommand
            [ascii "CRDT.REPLCONF", ascii "min-vc", vectorClockToSds cfg.vectorClock.units])])
  | backstream {t line cfg} {vc : VectorClock} (h : Dialogue gid .receiveVc t)
      (hline : IsLine line) (hvc : vc.units ≠ []) :
      Dialogue gid .receiveBackflow
        (t ++ [.answer line,
          .sent cfg vc (syncCommand
            [ascii "CRDT.REPLCONF", ascii "backstream", vectorClockToSds vc.units])])
  | psync {t line cfg args} {vc : VectorClock} (h : Dialogue gid .receiveVc t)
      (hline : IsLine line) (hvc : vc.units = []) :
      Dialogue gid .receivePsync
        (t ++ [.answer line, .sent cfg vc (syncCommand (ascii "CRDT.PSYNC" :: args))])
  | psyncAfterBackstream {t line cfg vc args} (h : Dialogue gid .receiveBackflow t)
      (hline : IsLine line) :
      Dialogue gid .receivePsync
        (t ++ [.answer line, .sent cfg vc (syncCommand (ascii "CRDT.PSYNC" :: args))])

/-- The whole dialogue, and what was read after `CRDT.PSYNC`. -/
def Completed (gid : Int) (t : List Exchange) : Prop :=
  ∃ (asked : List Exchange) (replies : List Bytes),
    Dialogue gid .receivePsync asked ∧ t = asked ++ replies.map .answer

/-- `CRDT.PSYNC` was sent. -/
def AskedPsync (t : List Exchange) : Prop :=
  ∃ cfg vc args, Exchange.sent cfg vc (syncCommand (ascii "CRDT.PSYNC" :: args)) ∈ t

/-! ## Strings -/

/-- The strings in use after an operation; there are none after an operation on a
string that is not in use. -/
def Op.track (inUse : List Nat) : Op → Option (List Nat)
  | .alloc s => if s ∈ inUse then none else some (s :: inUse)
  | .read s => if s ∈ inUse then some inUse else none
  | .release s => if s ∈ inUse then some (inUse.erase s) else none
  | .close _ | .stateMachineError => some inUse

/-- Every string is released once and not used afterwards. -/
def Released (ops : List Op) : Prop := ops.foldlM Op.track [] = some []

instance (ops : List Op) : Decidable (Released ops) := inferInstanceAs (Decidable (_ = _))

/-- The descriptors that were closed. -/
def closed : List Op → List Fd
  | [] => []
  | .close fd :: ops => fd :: closed ops
  | _ :: ops => closed ops

/-! ## Steps -/

namespace Link

variable (l : Link)

/-- Delete the events of a descriptor and close it. -/
def dropFd (fd : Fd) : Link := (l.aeDeleteFileEvent fd true true).close fd

/-- `crdtUndoConnectWithMaster`. -/
def undoConnect : Link :=
  match l.replTransferS with
  | none => l
  | some fd => { l.dropFd fd with replTransferS := none }

/-- `unlinkClient(peer->master)`. -/
def unlinkMaster : Link :=
  match l.masterFd with
  | none => l
  | some fd => { l.dropFd fd with masterFd := none }

/-- `crdtCancelReplicationHandshake`. -/
def cancelHandshake : Link :=
  match l.peer.replState with
  | .transfer => { l.undoConnect.unlinkMaster with peer := l.peer.cancelHandshake }
  | .connecting | .handshake => { l.undoConnect with peer := l.peer.cancelHandshake }
  | _ => l

/-- The descriptors that `crdtCancelReplicationHandshake` closes. -/
def cancelled : List Fd :=
  match l.peer.replState with
  | .transfer => l.replTransferS.toList ++ l.masterFd.toList
  | .connecting | .handshake => l.replTransferS.toList
  | _ => []

/-- `freeClient(peer->master)`. -/
def freeMaster : Link :=
  match l.peer.master with
  | none => l
  | some _ => { l.unlinkMaster with peer := l.peer.freeMaster }

/-- `crdtReplicationSetMaster` of a master. -/
def setMaster (host : Bytes) (port : Int) : Link :=
  let peer := { l.peer with masterhost := host, masterport := port, lazyTime := false }
  ({ l with peer := peer }.freeMaster.cancelHandshake).setReplState .connect

/-- `crdtReplicationUnsetMaster`; what is left is the instance that a later `PEEROF`
makes. -/
def unsetMaster (uninitialized : Bytes) : Link :=
  { l.cancelHandshake.unlinkMaster with
    peer := createPeerMaster uninitialized
    replTransferS := none }

/-- `crdtReplicationAllPeersStateReset`. -/
def stateReset (uninitialized : Bytes) : Link :=
  let cut := if l.peer.replState = .connected then l.unlinkMaster else l.cancelHandshake
  { cut with peer := l.peer.stateReset uninitialized, masterFd := none }

/-- `crdtReplicationCacheAllMaster`. -/
def cacheForRole : Link :=
  let cut := if l.peer.master.any PeerClient.crdtMaster then l.unlinkMaster else l
  { cut with peer := l.peer.cacheForRole }

/-- The events of the descriptor go to `crdtSyncWithMaster`. -/
def listens (fd : Fd) : Bool :=
  (l.conns fd).isSome ∧ ((l.events fd).readable = some .crdtSyncWithMaster ∨
    (l.events fd).writable = some .crdtSyncWithMaster)

/-- `crdtConnectWithMaster` with a new descriptor; `registered` says that the events
could be added. -/
def connect (fd : Fd) (registered : Bool) : Link :=
  let l := { l with conns := Function.update l.conns fd (some ⟨[], []⟩) }
  if registered then
    { l.setReplState .connecting with
      events := Function.update l.events fd ⟨some .crdtSyncWithMaster, some .crdtSyncWithMaster⟩
      replTransferS := some fd }
  else l.close fd

end Link

/-- What the last call did, with its descriptor. -/
structure Report where
  fd : Fd
  exit : Exit
  ops : List Op

structure World where
  link : Link
  last : Option Report

inductive Act
  /-- The cron leaves `REPL_STATE_NONE`. -/
  | prepare
  | connect (fd : Fd) (registered : Bool)
  /-- An event of a descriptor. -/
  | event (fd : Fd) (inp : Input)
  /-- A time limit, or an error in a merge. -/
  | cancel
  | setMaster (host : Bytes) (port : Int)
  | unsetMaster (uninitialized : Bytes)
  /-- The client of the peer is to be closed. -/
  | closeMaster
  | disconnect
  /-- The stream has come to a position. -/
  | position (replid : Bytes) (reploff : Int)
  /-- `CRDT.END_MERGE` on the link. -/
  | mergeEnd
  | setBackstream (vc : VectorClock)
  | stateReset (uninitialized : Bytes)
  | cacheForRole

def World.next (w : World) : Act → Option World
  | .prepare =>
    if w.link.peer.replState = .none then some ⟨w.link.setReplState .connect, none⟩ else none
  | .connect fd registered =>
    -- the kernel hands out a descriptor that is not open
    if w.link.peer.replState = .connect ∧ (w.link.conns fd).isNone then
      some ⟨w.link.connect fd registered, none⟩
    else none
  | .event fd inp =>
    if w.link.listens fd then
      (crdtSyncWithMaster inp fd w.link).map fun r => ⟨r.1.link, some ⟨fd, r.2, r.1.ops⟩⟩
    else none
  | .cancel =>
    some ⟨w.link.cancelHandshake, w.link.cancelled.head?.map fun fd =>
      ⟨fd, .failed, w.link.cancelled.map .close⟩⟩
  | .setMaster host port => some ⟨w.link.setMaster host port, none⟩
  | .unsetMaster uninitialized => some ⟨w.link.unsetMaster uninitialized, none⟩
  | .closeMaster =>
    let master := w.link.peer.master.map fun c => { c with closing := true }
    some ⟨{ w.link with peer := { w.link.peer with master := master } }, none⟩
  | .disconnect => if w.link.masterFd.isSome then some ⟨w.link.freeMaster, none⟩ else none
  | .position replid reploff =>
    let master := w.link.peer.master.map fun c => { c with replid := replid, reploff := reploff }
    some ⟨{ w.link with peer := { w.link.peer with master := master } }, none⟩
  | .mergeEnd =>
    if w.link.masterFd.isSome then
      let peer := { w.link.peer with replState := .connected, backstreamVc := VectorClock.null }
      some ⟨{ w.link with peer := peer }, none⟩
    else none
  | .setBackstream vc =>
    some ⟨{ w.link with peer := { w.link.peer with backstreamVc := vc } }, none⟩
  | .stateReset uninitialized => some ⟨w.link.stateReset uninitialized, none⟩
  | .cacheForRole => some ⟨w.link.cacheForRole, none⟩

/-- A peer without connection; an RDB file may have given it a client. -/
def handshakes : Lib.System World Act where
  init w :=
    w.link.peer.replState = .none ∧ w.link.peer.cachedMaster = none ∧ w.link.replTransferS = none ∧
      w.link.masterFd = none ∧ (∀ fd, w.link.conns fd = none) ∧
      (∀ fd, w.link.events fd = ⟨none, none⟩) ∧ w.link.strayClose = false ∧ w.last = none
  next := World.next

/-! ## The condition -/

/-- A line ends within the buffer. -/
def lineReady (input : Bytes) : Bool := 10 ∈ input.take 255

/-- The buffer is full before a line ends. -/
def cutOff (input : Bytes) : Bool := 255 ≤ input.length ∧ ¬ lineReady input

/-- A connection is being set up. -/
def Link.underWay (l : Link) : Bool :=
  l.peer.replState = .connecting ∨ l.peer.replState = .handshake

/-- What the replies have to be like. In the stages that ignore an error a reply has to
come; in the others it must not be cut off, and `CRDT.AUTH` has to be written. -/
def Stage.orderly (inp : Input) (input : Bytes) : Stage → Bool
  | .receivePong => inp.written ∧ ¬ cutOff input
  | .receiveCrdtAuth | .receiveAuth => ¬ cutOff input
  | .receivePort | .receiveIp | .receiveCapa | .receiveVc | .receiveBackflow => lineReady input
  | _ => true

/-- The steps that keep the guarantee: replies as above; no `PEEROF` while a
connection is set up for a peer that still has a client of an earlier one, and no
promotion while a connection is set up. -/
def orderly (w : World) : Act → Bool
  | .event fd inp =>
    inp.socketError ∨ w.link.peer.replState ≠ .handshake ∨
      w.link.stage.orderly inp (w.link.unread fd ++ inp.arrived)
  | .setMaster _ _ => ¬ (w.link.underWay ∧ w.link.peer.master.any PeerClient.crdtMaster)
  | .cacheForRole => ¬ w.link.underWay
  | _ => true

/-! ## The guarantee -/

structure Guarantee (w : World) : Prop where
  /-- A link that transfers or is connected has had the whole dialogue on its connection. -/
  established : w.link.peer.replState = .transfer ∨ w.link.peer.replState = .connected →
    ∃ fd conn, w.link.masterFd = some fd ∧ w.link.conns fd = some conn ∧
      Completed w.link.gid conn.transcript
  /-- So has every connection on which `CRDT.PSYNC` was sent. -/
  asked : ∀ fd conn, w.link.conns fd = some conn → AskedPsync conn.transcript →
    Completed w.link.gid conn.transcript
  /-- A failure closes the descriptor once, removes its events and goes back to
  `REPL_STATE_CONNECT`. -/
  failure : ∀ r, w.last = some r → r.exit = .failed →
    closed r.ops = [r.fd] ∧ w.link.conns r.fd = none ∧ w.link.events r.fd = ⟨none, none⟩ ∧
      w.link.peer.replState = .connect
  /-- No call uses a string that was released, or keeps one. -/
  strings : ∀ r, w.last = some r → Released r.ops
  /-- The branch for an unexpected state is not taken. -/
  states : ∀ r, w.last = some r → .stateMachineError ∉ r.ops
  /-- Without a link there is neither an open descriptor nor an event. -/
  idle : w.link.peer.replState = .none ∨ w.link.peer.replState = .connect →
    ∀ fd, w.link.conns fd = none ∧ w.link.events fd = ⟨none, none⟩
  /-- No descriptor was closed that was not open. -/
  closes : w.link.strayClose = false

/-! ## The dialogue step by step -/

theorem exists_line {input : Bytes} (h : lineReady input = true) :
    ∃ t rest, input = t ++ 10 :: rest ∧ 10 ∉ t ∧ t.length < 255 := by
  have hmem : (10 : UInt8) ∈ input.take 255 := by simpa [lineReady] using h
  obtain ⟨t, rest, htake, ht⟩ := eq_append_cons_of_mem hmem
  refine ⟨t, rest ++ input.drop 255, ?_, ht, ?_⟩
  · calc
      input = input.take 255 ++ input.drop 255 := (take_append_drop 255 input).symm
      _ = t ++ 10 :: (rest ++ input.drop 255) := by rw [htake]; simp
  · have hlen : (t ++ 10 :: rest).length ≤ 255 := by
      rw [← htake]
      exact length_take_le 255 input
    simp only [length_append, length_cons] at hlen
    omega

section read

variable {inp : Input} {fd : Fd} {c : Call} {conn : Conn}

/-- The bytes that a read takes. -/
def taken (input : Bytes) : Bytes := input.take (input.length - (syncReadLine input).2.length)

theorem heard_conns (h : c.link.conns fd = some conn) :
    (c.heard inp fd).link.conns = Function.update c.link.conns fd
      (some ⟨(syncReadLine conn.unread).2, conn.transcript ++ [.answer (taken conn.unread)]⟩) := by
  have hunread : c.link.unread fd = conn.unread := by simp [Link.unread, h]
  show Function.update c.link.conns fd ((c.link.conns fd).map _) = _
  rw [h, hunread]
  rfl

theorem read_text (h : c.link.conns fd = some conn) :
    (c.read inp fd).2.2 = cstr ((syncReadLine conn.unread).1.getD (c.readError inp)) := by
  have hunread : c.link.unread fd = conn.unread := by simp [Link.unread, h]
  rw [← hunread]
  rfl

/-- A complete line is taken as one line, and its text starts as it does. -/
theorem taken_isLine {input : Bytes} (h : lineReady input = true) : IsLine (taken input) ∧
      ∃ text, (syncReadLine input).1 = some text ∧
        (IsError (taken input) → (cstr text).head? = some 45) := by
  obtain ⟨t, rest, rfl, ht, hlen⟩ := exists_line h
  have hread : syncReadLine (t ++ 10 :: rest) = (some (stripCr t), rest) := by
    rw [syncReadLine, syncReadLineLoop_line ht hlen, nil_append]
  have htaken : taken (t ++ 10 :: rest) = t ++ [10] := by
    rw [taken, hread]
    have hsplit : t ++ 10 :: rest = (t ++ [10]) ++ rest := by simp
    rw [hsplit, length_append, Nat.add_sub_cancel]
    exact take_left
  refine ⟨⟨t, htaken, ht⟩, stripCr t, by rw [hread], fun herr => ?_⟩
  rw [IsError, htaken] at herr
  apply head?_text
  cases t with
  | nil => simp at herr
  | cons b t => simpa using herr

/-- A read that gets less than a line fails, and its text is an error. -/
theorem read_short {input : Bytes} (h : lineReady input = false) (hcut : cutOff input = false) :
    (syncReadLine input).1 = none := by
  have hlen : input.length < 255 := by
    by_contra hge
    simp [cutOff, h, not_lt.1 hge] at hcut
  have hmem : (10 : UInt8) ∉ input := by
    simp only [lineReady, decide_eq_false_iff_not] at h
    rwa [take_of_length_le (by omega)] at h
  rw [syncReadLine, syncReadLineLoop_short hmem hlen]

/-- The text of a failed read starts with `-R`. -/
theorem exists_readError (inp : Input) (c : Call) :
    ∃ rest, cstr (c.readError inp) = 45 :: 82 :: rest := by
  simp only [Call.readError, append_assoc]
  exact ⟨_, rfl⟩

end read

/-- An accepted reply and the next command continue the dialogue. -/
theorem Dialogue.ask {gid : Int} {g next : Stage} {t : List Exchange} {line : Bytes} {cfg : Config}
    {p : PeerMaster} {args : List Bytes} (h : Dialogue gid g t)
    (hq : g.question cfg gid p = some (next, args)) (hline : IsLine line)
    (hok : g = .receiveCrdtAuth ∨ g = .receiveAuth → ¬ IsError line) :
    Dialogue gid next (t ++ [.answer line, .sent cfg p.backstreamVc (syncCommand args)]) := by
  have hback : p.backstreaming = true ↔ p.backstreamVc.units ≠ [] := by
    simp [PeerMaster.backstreaming]
  have hpsync : ∃ rest, psyncArgs p = ascii "CRDT.PSYNC" :: rest := by
    unfold psyncArgs
    split <;> exact ⟨_, rfl⟩
  obtain ⟨rest, hrest⟩ := hpsync
  unfold Stage.question at hq
  split at hq
  case h_1 =>
    cases hq
    exact .crdtAuth h hline
  case h_2 =>
    cases hauth : cfg.masterauth with
    | some password =>
      rw [hauth] at hq
      cases hq
      exact .auth h hline (hok (.inl rfl)) hauth
    | none =>
      rw [hauth] at hq
      cases hq
      exact .port h hline (hok (.inl rfl)) hauth
  case h_3 =>
    cases hq
    exact .portAfterAuth h hline (hok (.inr rfl))
  case h_4 =>
    cases hip : cfg.slaveAnnounceIp with
    | some ip =>
      rw [hip] at hq
      cases hq
      exact .ip h hline hip
    | none =>
      rw [hip] at hq
      cases hq
      exact .capa h hline hip
  case h_5 =>
    cases hq
    exact .capaAfterIp h hline
  case h_6 =>
    cases hq
    exact .minVc h hline
  case h_7 =>
    split at hq
    case isTrue hvc =>
      cases hq
      exact .backstream h hline (hback.1 hvc)
    case isFalse hvc =>
      cases hq
      rw [hrest]
      exact .psync h hline (by simpa using mt hback.2 hvc)
  case h_8 =>
    cases hq
    rw [hrest]
    exact .psyncAfterBackstream h hline
  case h_9 => cases hq

/-- A stage that waits for an answer other than that of `CRDT.PSYNC` has a next
command. -/
theorem Dialogue.exists_question {gid : Int} {g : Stage} {t : List Exchange} (h : Dialogue gid g t)
    (hg : g ≠ .receivePsync) (cfg : Config) (p : PeerMaster) :
    ∃ next args, g.question cfg gid p = some (next, args) := by
  have hsome : (g.question cfg gid p).isSome = true := by
    cases h
    case psync | psyncAfterBackstream => exact absurd rfl hg
    case crdtAuth => cases hauth : cfg.masterauth <;> simp [Stage.question, hauth]
    case port | portAfterAuth => cases hip : cfg.slaveAnnounceIp <;> simp [Stage.question, hip]
    case minVc => by_cases hback : p.backstreaming = true <;> simp [Stage.question, hback]
    all_goals rfl
  obtain ⟨⟨next, args⟩, hq⟩ := Option.isSome_iff_exists.1 hsome
  exact ⟨next, args, hq⟩

theorem receivePong_of_question {g : Stage} {cfg : Config} {gid : Int} {p : PeerMaster}
    {args : List Bytes} (h : g.question cfg gid p = some (.receiveCrdtAuth, args)) :
    g = .receivePong := by
  unfold Stage.question at h
  split at h
  case h_1 => rfl
  case h_2 | h_4 | h_7 => split at h <;> simp at h
  all_goals simp at h

theorem prefix_syncCommand (word : Bytes) (args : List Bytes) :
    cstr word <+: syncCommand (word :: args) := by
  have hfold : ∀ (args : List Bytes) (cmd : Bytes), cmd <+:
      args.foldl (fun cmd arg => (if cmd ≠ [] then cmd ++ [32] else cmd) ++ cstr arg) cmd := by
    intro args
    induction args with
    | nil => exact fun cmd => prefix_rfl
    | cons arg args ih =>
      intro cmd
      refine List.IsPrefix.trans ?_ (ih _)
      dsimp only
      split
      · exact (prefix_append _ _).trans (prefix_append _ _)
      · exact prefix_append _ _
  exact (hfold args (cstr word)).trans (prefix_append _ _)

/-- A command whose first word is another one is not `CRDT.PSYNC`. -/
theorem syncCommand_ne_psync {word : Bytes} {args args' : List Bytes}
    (h : ¬ cstr word <+: ascii "CRDT.PSYNC") (h' : ¬ ascii "CRDT.PSYNC" <+: cstr word) :
    syncCommand (word :: args) ≠ syncCommand (ascii "CRDT.PSYNC" :: args') := by
  intro heq
  have hpsync := prefix_syncCommand (ascii "CRDT.PSYNC") args'
  rw [← heq] at hpsync
  rcases prefix_or_prefix_of_prefix (prefix_syncCommand word args) hpsync with hle | hle
  · exact h hle
  · exact h' hle

/-- Before its end the dialogue has no `CRDT.PSYNC`. -/
theorem Dialogue.not_askedPsync {gid : Int} {g : Stage} {t : List Exchange}
    (h : Dialogue gid g t) (hg : g ≠ .receivePsync) : ¬ AskedPsync t := by
  induction h with
  | psync => exact absurd rfl hg
  | psyncAfterBackstream => exact absurd rfl hg
  | ping =>
    rintro ⟨cfg, vc, args, hmem⟩
    simp only [mem_singleton, Exchange.sent.injEq] at hmem
    exact syncCommand_ne_psync (by decide) (by decide) hmem.2.2.symm
  | crdtAuth h _ ih | auth h _ _ _ ih | port h _ _ _ ih | portAfterAuth h _ _ ih | ip h _ _ ih
  | capa h _ _ ih | capaAfterIp h _ ih | minVc h _ ih | backstream h _ _ ih =>
    rintro ⟨cfg, vc, args, hmem⟩
    simp only [mem_append, mem_cons, not_mem_nil, or_false, reduceCtorEq, false_or,
      Exchange.sent.injEq] at hmem
    rcases hmem with hmem | hmem
    · exact ih (by decide) ⟨cfg, vc, args, hmem⟩
    · exact syncCommand_ne_psync (by decide) (by decide) hmem.2.2.symm

end XredisCrdt.Handshake
