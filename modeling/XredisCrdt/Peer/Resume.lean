import XredisCrdt.Net.StreamRuns
import XredisCrdt.Peer.Closed

/-!
# Continuing the history of a peer

A node asks a peer to continue with `CRDT.PSYNC replid offset`, where the pair comes
from the client of the former link. The pair travels: into the client of a full sync,
the cached client, the clients that a slave keeps for the peers of its master, and
through RDB files into other nodes of the group.

`group` is the system of the nodes of one group and of the RDB files that they have
saved. What the data set of a node holds of the histories of the peers is recorded in
`Holdings`, which no function reads. Peers are taken to be honest: a full sync ends
with an id and an offset that it covers, `+CONTINUE` names a history that has the
requested one as its beginning, and a link then carries that history on. The texts of
clocks name no gid twice, see `parseClock`.
-/

namespace XredisCrdt.Peer

open Clock List Option PeerMaster
open Function (update update_self update_of_ne update_idem update_eq_self forall_update_iff)

/-! ## What is held of a history -/

/-- A replication id as a server makes one. -/
def IsReplid (id : Bytes) : Prop := id.length = 40 ∧ 0 ∉ id

instance (id : Bytes) : Decidable (IsReplid id) := inferInstanceAs (Decidable (_ ∧ _))

/-- `applied i id q`: the command at byte `q` of the history `id` of peer `i` was
applied, or its effect was merged. `syncing i` says that a full sync with the peer is
under way, and whether every message of it was taken. -/
structure Holdings where
  applied : Fin 16 → Bytes → Int → Bool
  syncing : Fin 16 → Option Bool

namespace Holdings

def empty : Holdings := ⟨fun _ _ _ => false, fun _ => none⟩

/-- More of one history is held. -/
def add (h : Holdings) (i : Fin 16) (id : Bytes) (new : Int → Bool) : Holdings :=
  { h with applied := fun j r q => h.applied j r q || (decide (j = i ∧ r = id) && new q) }

def setSyncing (h : Holdings) (i : Fin 16) (state : Option Bool) : Holdings :=
  { h with syncing := update h.syncing i state }

/-- Everything of the history is held up to the offset `n`. -/
def Covers (h : Holdings) (i : Fin 16) (id : Bytes) (n : Int) : Prop :=
  ∀ q, 0 < q → q ≤ n → h.applied i id q = true

end Holdings

/-! ## Commands that arrive -/

/-- A command of a peer, with what the gates look at. -/
structure Received where
  server : Net.Server
  moment : Net.Moment
  client : Net.Client
  cmd : Net.Command
  argv : Argv

/-- No gate is closed for the command. -/
def Received.taken (r : Received) : Bool :=
  (Net.closedGate r.server r.moment r.client r.cmd r.argv).isNone

/-- The commands of a unit of a stream, a single command or a transaction, are all
taken. -/
def allTaken (u : List Received) : Bool := u.all Received.taken

/-- The bytes of a unit. -/
def unitSize (u : List Received) : Int :=
  (u.flatMap fun r => Proto.encodeCommand r.argv).length

/-- The offset of the client is moved behind a unit. -/
def PeerClient.advance (c : PeerClient) (n : Int) : PeerClient :=
  { c with reploff := c.reploff + n, readReploff := c.readReploff + n }

/-- The id under which the client goes on after `+CONTINUE text`. -/
def PeerClient.resumedId (c : PeerClient) (text : Bytes) : Bytes :=
  if text.length = 40 then text else cstr c.replid

/-- The history under that id begins with the one that was asked for. -/
def Holdings.resumed (h : Holdings) (i : Fin 16) (c : PeerClient) (text : Bytes) : Holdings :=
  h.add i (c.resumedId text) fun q =>
    decide (q ≤ c.reploff) && h.applied i (cstr c.replid) q

/-! ## Nodes -/

/-- A node; `stream i` is the history that the link to peer `i` carries, and the offset
of the last byte that came. -/
structure Member where
  server : CrdtServer
  holdings : Holdings
  stream : Fin 16 → Bytes × Int

inductive MemberAct
  | peerof (env : PeerofEnv) (argv : Argv)
  | link (i : Fin 16) (act : LinkAct)
  /-- A unit from the link to a peer. -/
  | unit (i : Fin 16) (u : List Received)
  /-- A unit of a peer from the own master, the bytes behind `start` of the history. Of a
  unit that was not taken, `counted` says whether it left its gid all the same. -/
  | relayed (i : Fin 16) (u : List Received) (replid : Bytes) (start : Int) (counted : Bool)
  | mergeStart (r : Received) (uninitialized : Bytes)
  /-- A message of a full sync. -/
  | message (i : Fin 16) (r : Received)
  /-- `behind` bytes of the stream stand in the buffer behind the command. -/
  | mergeEnd (r : Received) (clientGid : Int) (qps behind : Nat)
  | peerChange (r : Received)
  | slaveof (uninitialized : Bytes)
  | slaveofNoOne (connected nullDb : Bool) (qps : Nat)
  /-- The own master answered `+CONTINUE`. -/
  | slaveContinue
  /-- The data set is dropped for the RDB file of the master, which cannot be loaded. -/
  | loadFails

namespace Member

/-- A step of a link. A full sync begins anew; a peer that continues a history knows the
id that it was asked for. -/
def linkNext (m : Member) (i : Fin 16) (act : LinkAct) : Option Member :=
  (Peer.linkNext m.server i act).bind fun s =>
    match act with
    | .readPsync _ (.fullResync ..) =>
      some { m with server := s, holdings := m.holdings.setSyncing i none }
    | .readPsync _ (.resume text) =>
      ((m.server.crdtMasters i).bind PeerMaster.cachedMaster).bind fun c =>
        if (cstr c.replid).length = 40 ∧ (text.length = 40 → 0 ∉ text) then
          some
            { server := s
              holdings := m.holdings.resumed i c text
              stream := update m.stream i (c.resumedId text, c.reploff) }
        else none
    | _ => some { m with server := s }

/-- A unit from a connected link. -/
def unitNext (m : Member) (i : Fin 16) (u : List Received) : Option Member :=
  (m.server.crdtMasters i).bind fun p => p.master.bind fun c =>
    if m.server.iAmMaster ∧ p.replState = .connected then
      let (id, pos) := m.stream i
      some
        { server := m.server.setPeer i (some { p with master := some (c.advance (unitSize u)) })
          holdings := m.holdings.add i id fun q =>
            allTaken u && decide (pos < q ∧ q ≤ pos + unitSize u)
          stream := update m.stream i (id, pos + unitSize u) }
    else none

/-- The client that a slave has for a peer is moved behind the unit. -/
def countUnit (s : CrdtServer) (i : Fin 16) (n : Int) : CrdtServer :=
  { s with
    crdtMasters := update s.crdtMasters i
      ((s.crdtMasters i).map fun p => { p with master := p.master.map (·.advance n) }) }

def relayedNext (m : Member) (i : Fin 16) (u : List Received) (replid : Bytes) (start : Int)
    (counted : Bool) : Option Member :=
  if m.server.iAmMaster then none
  else
    some { m with
      server := if allTaken u || counted then countUnit m.server i (unitSize u) else m.server
      holdings := m.holdings.add i replid fun q =>
        allTaken u && decide (start < q ∧ q ≤ start + unitSize u) }

def mergeStartNext (m : Member) (r : Received) (uninitialized : Bytes) : Option Member :=
  (namedSlot r.argv).bind fun i =>
    (if r.taken then (crdtMergeStartCommand uninitialized m.server r.argv).state?
      else some m.server).map fun s =>
        { m with server := s, holdings := m.holdings.setSyncing i (some true) }

/-- The offset of the link stays before the bytes that stood in the buffer behind
`CRDT.MERGE_END`; the client of a slave is not the one that is read. -/
def lagBehind (s : CrdtServer) (i : Fin 16) (behind : Nat) : CrdtServer :=
  if s.iAmMaster then
    { s with
      crdtMasters := update s.crdtMasters i ((s.crdtMasters i).map fun p =>
        { p with master := p.master.map fun c => { c with reploff := c.reploff - behind } }) }
  else s

/-- The end of a full sync, whose effects are complete up to the offset. -/
def endSync (m : Member) (i : Fin 16) (complete : Bool) (replid : Bytes) (offset : Int) :
    Exit × CrdtServer → Member
  | (.error, s) => { m with server := s, holdings := m.holdings.setSyncing i none }
  | (.done, s) =>
    { server := s
      holdings := (m.holdings.add i replid fun q => complete && decide (q ≤ offset)).setSyncing
        i none
      stream := update m.stream i (replid, offset) }

/-- `CRDT.MERGE_END` of a full sync that is under way. -/
def mergeEndNext (m : Member) (r : Received) (clientGid : Int) (qps behind : Nat) :
    Option Member :=
  (namedSlot r.argv).bind fun i => (m.holdings.syncing i).bind fun complete =>
    r.argv[3]?.bind fun replid =>
      if IsReplid replid ∧ (m.server.iAmMaster = true →
          (m.server.crdtMasters i).any fun p => p.replState = .transfer) then
        if r.taken then
          (crdtMergeEndCommand clientGid qps m.server r.argv).result.toOption.map fun res =>
            endSync m i complete replid ((r.argv[4]?.bind string2ll).getD 0)
              (res.1, if res.1 = .done then lagBehind res.2 i behind else res.2)
        else some { m with holdings := m.holdings.setSyncing i none }
      else none

/-- `crdt.peer.change` in the stream of the own master: the history under the new id
begins with the one under the old id. -/
def peerChangeNext (m : Member) (r : Received) : Option Member :=
  if m.server.iAmMaster then none
  else
    (namedSlot r.argv).bind fun i => r.argv[2]?.bind fun replid =>
      if IsReplid replid then
        if r.taken then
          (peerChangeCommand m.server r.argv).state?.map fun s =>
            { m with
              server := s
              holdings := m.holdings.add i replid fun q =>
                ((m.server.crdtMasters i).bind PeerMaster.master).any fun c =>
                  decide (q ≤ c.reploff) && m.holdings.applied i (c.replid.take 40) q }
        else some m
      else none

/-- The data set may be dropped. -/
def dropping (m : Member) (res : CrdtServer × Bool) : Member :=
  { m with server := res.1, holdings := if res.2 then .empty else m.holdings }

def next (m : Member) : MemberAct → Option Member
  | .peerof env argv => (peerofCommand env m.server argv).state?.map fun s => { m with server := s }
  | .link i act => m.linkNext i act
  | .unit i u => m.unitNext i u
  | .relayed i u replid start counted => m.relayedNext i u replid start counted
  | .mergeStart r uninitialized => m.mergeStartNext r uninitialized
  | .message i r =>
    some { m with
      holdings := m.holdings.setSyncing i ((m.holdings.syncing i).map (· && r.taken)) }
  | .mergeEnd r clientGid qps behind => m.mergeEndNext r clientGid qps behind
  | .peerChange r => m.peerChangeNext r
  | .slaveof uninitialized =>
    some { m with
      server := m.server.becomeSlave uninitialized
      holdings := if m.server.iAmMaster then { m.holdings with syncing := fun _ => none }
        else m.holdings }
  | .slaveofNoOne connected nullDb qps =>
    some (m.dropping (slaveofNoOne m.server connected nullDb qps))
  | .slaveContinue => some { m with server := cleanSlavePeerBackStream m.server }
  | .loadFails => if m.server.iAmMaster then none else some { m with holdings := .empty }

end Member

/-! ## A group -/

/-- An RDB file: what it says about the peers, and what its data hold. -/
structure RdbFile where
  peers : List PeerAux
  holdings : Holdings

/-- The nodes of a group, and the RDB files they have saved. -/
structure Group where
  members : Nat → Member
  files : List RdbFile

inductive GroupAct
  | act (k : Nat) (a : MemberAct)
  | rdbSave (k : Nat)
  /-- A slave loads the file that its master sent. -/
  | rdbLoad (k file : Nat) (uninitialized : Bytes)
  /-- A new process, with its configuration and a file if there is one; `vcus` are the
  answers of the peers. -/
  | restart (k : Nat) (config : CrdtServer) (file : Option Nat) (uninitialized : Bytes)
    (nullDb : Bool) (vcus : Fin 16 → Option Nat)

namespace Group

def set (g : Group) (k : Nat) (m : Member) : Group :=
  { g with members := update g.members k m }

/-- No peer has a link, a client, or an offset from a full sync. -/
def Unlinked (s : CrdtServer) : Prop :=
  ∀ i, ((s.crdtMasters i).all fun p =>
    p.master.isNone && p.cachedMaster.isNone && decide (p.masterInitialOffset = -1) &&
      decide (p.replState ≠ .connected)) = true

instance (s : CrdtServer) : Decidable (Unlinked s) := inferInstanceAs (Decidable (∀ _, _))

/-- The load of a file into a server. -/
def load (s : CrdtServer) (stream : Fin 16 → Bytes × Int) (uninitialized : Bytes)
    (file : RdbFile) : Option Member :=
  (rdbLoadPeers uninitialized s file.peers).map fun s => ⟨s, file.holdings, stream⟩

/-- A new process after `loadDataFromDisk`. -/
def booted (g : Group) (k : Nat) (config : CrdtServer) (file : Option Nat)
    (uninitialized : Bytes) : Option Member :=
  match file with
  | none => some ⟨config, .empty, (g.members k).stream⟩
  | some file => g.files[file]?.bind (load config (g.members k).stream uninitialized)

def next (g : Group) : GroupAct → Option Group
  | .act k a => ((g.members k).next a).map (g.set k)
  | .rdbSave k =>
    let m := g.members k
    some { g with files := g.files ++ [⟨rdbSaveAuxFieldCrdt m.server, m.holdings⟩] }
  | .rdbLoad k file uninitialized =>
    let m := g.members k
    if m.server.iAmMaster then none
    else (g.files[file]?.bind (load m.server m.stream uninitialized)).map (g.set k)
  | .restart k config file uninitialized nullDb vcus =>
    if Unlinked config then
      (g.booted k config file uninitialized).map fun m =>
        g.set k (m.dropping (peerBackStream m.server nullDb vcus))
    else none

end Group

/-- Runs of nodes that start without data. -/
def group : Lib.System Group GroupAct where
  init g := g.files = [] ∧
    ∀ k, Group.Unlinked (g.members k).server ∧ (g.members k).holdings = .empty
  next := Group.next

/-- The node is about to send the request to peer `i`. -/
def Member.Asks (m : Member) (i : Fin 16) (req : PsyncRequest) : Prop :=
  m.server.iAmMaster = true ∧
    ∃ p, m.server.crdtMasters i = some p ∧ p.replState = .handshake ∧ p.psyncRequest = some req

/-- What comes before the requested offset is held. -/
def Member.HoldsBefore (m : Member) (i : Fin 16) (req : PsyncRequest) : Prop :=
  IsReplid req.replid → m.holdings.Covers i req.replid (req.offset - 1)

/-! ## Steps that lose nothing -/

/-- No client of a peer has got beyond the beginning of a history. -/
def NoPositions (s : CrdtServer) : Prop :=
  ∀ i, ((s.crdtMasters i).all fun p =>
    p.master.all (fun c => c.reploff ≤ 0) && p.cachedMaster.all fun c => c.reploff ≤ 0) = true

instance (s : CrdtServer) : Decidable (NoPositions s) := inferInstanceAs (Decidable (∀ _, _))

/-- What a file would say about the peer is the position of a client and complete. -/
def PeerMaster.Savable (p : PeerMaster) : Prop :=
  (p.master.isSome ∨ p.cachedMaster.isSome ∨ p.masterInitialOffset = -1) ∧
    (0 < p.savedPosition.2 → p.savedPosition.1.length = 40)

instance (p : PeerMaster) : Decidable p.Savable := inferInstanceAs (Decidable (_ ∧ _))

/-- The unit comes where the client of the slave stands in the history. -/
def Continues (s : CrdtServer) (i : Fin 16) (replid : Bytes) (start : Int) : Prop :=
  (((s.crdtMasters i).bind PeerMaster.master).all fun c =>
    decide (c.replid.take 40 = replid ∧ IsReplid replid ∧ c.reploff = start)) = true

instance (s : CrdtServer) (i : Fin 16) (replid : Bytes) (start : Int) :
    Decidable (Continues s i replid start) := inferInstanceAs (Decidable (_ = true))

/-- The commands of peers are taken, units from the own master continue where the node
stands, and data are not dropped under a client that has a position. -/
def Member.Lossless (m : Member) : MemberAct → Prop
  | .unit _ u => allTaken u = true
  | .relayed i u replid start _ => allTaken u = true ∧ Continues m.server i replid start
  | .message _ r => r.taken = true
  | .slaveofNoOne _ nullDb _ =>
    m.server.iAmMaster = true ∨ nullDb = true ∨ getMinBackstreamVcu m.server ≠ some 0 ∨
      NoPositions m.server
  | .loadFails => NoPositions m.server
  | _ => True

/-- `peerBackStream` keeps the data, or no client has a position. -/
def KeepsData (s : CrdtServer) (nullDb : Bool) (vcus : Fin 16 → Option Nat) : Prop :=
  s.iAmMaster = false ∨ nullDb = true ∨
    ((maxPeer s vcus).all fun g => g.2 ≤ s.vectorClock.time s.crdtGid) ∨ NoPositions s

/-- Beyond that, a file is saved only when each peer is `Savable`, and a new process keeps
its data. -/
def Lossless (g : Group) : GroupAct → Prop
  | .act k a => (g.members k).Lossless a
  | .rdbSave k => ∀ i, ((g.members k).server.crdtMasters i).all (fun p => p.Savable) = true
  | .rdbLoad .. => True
  | .restart k config file uninitialized nullDb vcus =>
    ∀ m, g.booted k config file uninitialized = some m → KeepsData m.server nullDb vcus

/-! ## Positions that are held -/

theorem isReplid_cstr {b : Bytes} (h : (cstr b).length = 40) : IsReplid (cstr b) := by
  refine ⟨h, fun hmem => ?_⟩
  simpa using all_eq_true.1 all_takeWhile 0 hmem

theorem cstr_eq_take {b : Bytes} (h : (cstr b).length = 40) : cstr b = b.take 40 := by
  have hprefix : cstr b <+: b := takeWhile_prefix _
  rw [prefix_iff_eq_take.1 hprefix, h]

namespace Holdings

variable {h h' : Holdings} {i : Fin 16} {id : Bytes} {n : Int}

/-- Whatever is held in `h` is held in `h'`. -/
def Le (h h' : Holdings) : Prop := ∀ i id q, h.applied i id q = true → h'.applied i id q = true

theorem Le.refl (h : Holdings) : h.Le h := fun _ _ _ hq => hq

theorem le_add (h : Holdings) (i : Fin 16) (id : Bytes) (new : Int → Bool) :
    h.Le (h.add i id new) := by
  intro j r q hq
  simp [add, hq]

theorem le_setSyncing (h : Holdings) (i : Fin 16) (state : Option Bool) :
    h.Le (h.setSyncing i state) := fun _ _ _ hq => hq

theorem covers_of_nonpos (hn : n ≤ 0) : h.Covers i id n := by
  intro q hpos hq
  omega

theorem Covers.le {m : Int} (hc : h.Covers i id n) (hm : m ≤ n) : h.Covers i id m :=
  fun q hpos hq => hc q hpos (by omega)

theorem Covers.mono (hc : h.Covers i id n) (hle : h.Le h') : h'.Covers i id n :=
  fun q hpos hq => hle _ _ _ (hc q hpos hq)

/-- What is held up to `n`, and what is new behind it. -/
theorem Covers.add {m : Int} {new : Int → Bool} (hc : h.Covers i id n)
    (hnew : ∀ q, n < q → q ≤ m → new q = true) : (h.add i id new).Covers i id m := by
  intro q hpos hq
  by_cases hqn : q ≤ n
  · exact le_add _ _ _ _ _ _ _ (hc q hpos hqn)
  · simp [Holdings.add, hnew q (by omega) hq]

end Holdings

/-- The position of the client is the beginning, or all before it is held. -/
def PeerClient.Sound (h : Holdings) (i : Fin 16) (c : PeerClient) : Prop :=
  c.reploff ≤ 0 ∨ IsReplid (c.replid.take 40) ∧ h.Covers i (c.replid.take 40) c.reploff

/-- The client of a link is in the history that the link carries, and not beyond what
came. -/
structure PeerClient.OnStream (h : Holdings) (i : Fin 16) (stream : Bytes × Int) (c : PeerClient) :
    Prop where
  id_eq : c.replid.take 40 = stream.1
  isReplid : IsReplid stream.1
  behind : c.reploff ≤ stream.2
  covers : h.Covers i stream.1 stream.2

theorem PeerClient.OnStream.sound {h : Holdings} {i : Fin 16} {stream : Bytes × Int}
    {c : PeerClient} (hc : c.OnStream h i stream) : c.Sound h i := by
  refine .inr ?_
  rw [hc.id_eq]
  exact ⟨hc.isReplid, hc.covers.le hc.behind⟩

/-- The positions of a peer are held. -/
structure PeerMaster.Sound (h : Holdings) (stream : Bytes × Int) (master : Bool) (i : Fin 16)
    (p : PeerMaster) : Prop where
  client : ∀ c, p.master = some c → c.Sound h i
  cached : ∀ c, p.cachedMaster = some c → c.Sound h i
  link : master = true → p.replState = .connected → ∀ c, p.master = some c → c.OnStream h i stream

def CrdtServer.Sound (h : Holdings) (stream : Fin 16 → Bytes × Int) (s : CrdtServer) : Prop :=
  ∀ i p, s.crdtMasters i = some p → p.Sound h (stream i) s.iAmMaster i

section peers

variable {h h' : Holdings} {stream : Bytes × Int} {i : Fin 16} {master : Bool} {p q : PeerMaster}

variable {c : PeerClient}

theorem PeerClient.Sound.mono (hc : c.Sound h i) (hle : h.Le h') : c.Sound h' i := by
  rcases hc with hc | ⟨hid, hcov⟩
  · exact .inl hc
  · exact .inr ⟨hid, hcov.mono hle⟩

theorem PeerClient.Sound.congr {d : PeerClient} (hd : d.Sound h i) (hid : c.replid = d.replid)
    (hoff : c.reploff = d.reploff) : c.Sound h i := by
  unfold PeerClient.Sound
  rw [hid, hoff]
  exact hd

theorem PeerMaster.Sound.mono (hp : p.Sound h stream master i) (hle : h.Le h') :
    p.Sound h' stream master i where
  client c hc := (hp.client c hc).mono hle
  cached c hc := (hp.cached c hc).mono hle
  link hm hconn c hc :=
    let on := hp.link hm hconn c hc
    ⟨on.id_eq, on.isReplid, on.behind, on.covers.mono hle⟩

/-- A peer that is not connected, and whose clients have no position or one that the
peer had before. -/
theorem PeerMaster.Sound.unconnected {stream' : Bytes × Int} {master' : Bool}
    (hp : p.Sound h stream master i)
    (hclients : ∀ c, q.master = some c ∨ q.cachedMaster = some c → c.reploff ≤ 0 ∨ ∃ d,
      (p.master = some d ∨ p.cachedMaster = some d) ∧ c.replid = d.replid ∧ c.reploff = d.reploff)
    (hstate : master' = true → q.replState ≠ .connected) : q.Sound h stream' master' i := by
  have hsound : ∀ c, q.master = some c ∨ q.cachedMaster = some c → c.Sound h i := by
    intro c hc
    rcases hclients c hc with hoff | ⟨d, hd | hd, hid, hoff⟩
    · exact .inl hoff
    · exact (hp.client d hd).congr hid hoff
    · exact (hp.cached d hd).congr hid hoff
  exact ⟨fun c hc => hsound c (.inl hc), fun c hc => hsound c (.inr hc),
    fun hm hconn => absurd hconn (hstate hm)⟩

/-- Clients may be given up. -/
theorem PeerMaster.Sound.fewer {master' : Bool} (hp : p.Sound h stream master i)
    (hm : q.master = none ∨ q.master = p.master)
    (hc : q.cachedMaster = none ∨ q.cachedMaster = p.cachedMaster)
    (hstate : master' = true → q.replState ≠ .connected) : q.Sound h stream master' i := by
  refine hp.unconnected (fun c hq => .inr ⟨c, ?_, rfl, rfl⟩) hstate
  rcases hm with hm | hm <;> rcases hc with hc | hc <;> simp_all

/-- The same clients and the same state. -/
theorem PeerMaster.Sound.of_eq (hp : p.Sound h stream master i) (hm : q.master = p.master)
    (hc : q.cachedMaster = p.cachedMaster) (hs : q.replState = p.replState) :
    q.Sound h stream master i where
  client c hq := hp.client c (hm ▸ hq)
  cached c hq := hp.cached c (hc ▸ hq)
  link hmaster hconn c hq := hp.link hmaster (hs ▸ hconn) c (hm ▸ hq)

/-! ## Links -/

theorem PeerMaster.Sound.cancelHandshake (hp : p.Sound h stream master i) :
    p.cancelHandshake.Sound h stream master i := by
  unfold PeerMaster.cancelHandshake
  split
  · -- the client of a full sync is given up
    exact hp.fewer (.inl rfl) (.inr rfl) (by simp)
  · exact hp.fewer (.inr rfl) (.inr rfl) (by simp)
  · exact hp.fewer (.inr rfl) (.inr rfl) (by simp)
  · exact hp

theorem PeerMaster.Sound.cacheMaster {master' : Bool} (hp : p.Sound h stream master i)
    (state : ReplState) (hstate : state ≠ .connected) :
    ({ p.cacheMaster with replState := state } : PeerMaster).Sound h stream master' i := by
  refine hp.unconnected (fun c hc => ?_) fun _ => hstate
  rcases hc with hc | hc
  · cases hc
  · obtain ⟨d, hd, rfl⟩ := map_eq_some_iff.1 (show p.master.map _ = some c from hc)
    exact .inr ⟨d, .inl hd, rfl, rfl⟩

theorem PeerMaster.Sound.freeMaster (hp : p.Sound h stream master i) :
    p.freeMaster.Sound h stream master i := by
  unfold PeerMaster.freeMaster
  split
  · exact hp
  · split
    · split
      · exact hp.fewer (.inl rfl) (.inr rfl) (by simp)
      · exact hp.cacheMaster .connect (by simp)
    · exact hp

/-- A full sync that is announced starts from nothing. -/
theorem PeerMaster.Sound.startTransfer (hp : p.Sound h stream master i) (uninitialized : Bytes)
    (replid : Bytes) (offset : Int) :
    (p.startTransfer uninitialized replid offset).Sound h stream master i := by
  unfold PeerMaster.startTransfer
  refine hp.unconnected (fun c hc => ?_) (by simp)
  rcases hc with hc | hc
  · cases hc
    exact .inl (Int.le_refl 0)
  · cases hc

/-- Whatever happens to a link short of `+CONTINUE`. -/
theorem PeerMaster.Sound.linkStep {act : LinkAct} (hp : p.Sound h stream true i)
    (hact : ∀ uninitialized text, act ≠ .readPsync uninitialized (.resume text))
    (hstep : p.linkStep act = some q) : q.Sound h stream true i := by
  have hsame : ∀ state, state ≠ .connected →
      ({ p with replState := state } : PeerMaster).Sound h stream true i :=
    fun state hstate => hp.fewer (.inr rfl) (.inr rfl) fun _ => hstate
  cases act with
  | advance =>
    simp only [PeerMaster.linkStep] at hstep
    split at hstep <;> cases hstep <;> exact hsame _ (by simp)
  | sendPsync =>
    obtain ⟨hstate, hstep⟩ := ite_none_right_eq_some.1 hstep
    cases hstep
    exact hp.of_eq rfl rfl rfl
  | readPsync uninitialized reply =>
    obtain ⟨-, hstep⟩ := ite_none_right_eq_some.1 hstep
    cases reply with
    | fullResync replid offset =>
      cases hstep
      exact hp.startTransfer uninitialized replid offset
    | resume text => exact absurd rfl (hact uninitialized text)
    | tryLater =>
      cases hstep
      exact hsame _ (by simp)
    | other =>
      cases hstep
      exact hp.fewer (.inr rfl) (.inl rfl) (by simp)
  | giveUp =>
    obtain ⟨-, hstep⟩ := ite_none_right_eq_some.1 hstep
    cases hstep
    exact hsame _ (by simp)
  | cancel =>
    cases hstep
    exact hp.cancelHandshake
  | close =>
    cases hstep
    -- only the flag of the client changes
    have hclient : ∀ c, (p.master.map fun c => { c with closing := true }) = some c →
        ∃ d, p.master = some d ∧ c = { d with closing := true } := by
      intro c hc
      obtain ⟨d, hd, rfl⟩ := map_eq_some_iff.1 hc
      exact ⟨d, hd, rfl⟩
    refine ⟨fun c hc => ?_, hp.cached, fun hm hconn c hc => ?_⟩
    · obtain ⟨d, hd, rfl⟩ := hclient c hc
      exact (hp.client d hd).congr rfl rfl
    · obtain ⟨d, hd, rfl⟩ := hclient c hc
      obtain ⟨hid, hrep, hbehind, hcov⟩ := hp.link hm hconn d hd
      exact ⟨hid, hrep, hbehind, hcov⟩
  | disconnect =>
    cases hstep
    exact hp.freeMaster

/-- The client that goes on is in the history that the peer continues. -/
theorem PeerMaster.Sound.resurrect {text : Bytes} (hp : p.Sound h stream master i)
    (hc : p.cachedMaster = some c) (hid : (cstr c.replid).length = 40)
    (htext : text.length = 40 → 0 ∉ text) :
    (p.resurrect c text).Sound (h.resumed i c text) (c.resumedId text, c.reploff) true i := by
  have htake := cstr_eq_take hid
  have hold : h.Covers i (cstr c.replid) c.reploff := by
    rcases hp.cached c hc with hoff | ⟨-, hcov⟩
    · exact Holdings.covers_of_nonpos hoff
    · rwa [htake]
  have hcov : (h.resumed i c text).Covers i (c.resumedId text) c.reploff := by
    intro q hpos hq
    simp [Holdings.resumed, Holdings.add, hq, hold q hpos hq]
  have hvalid : IsReplid (c.resumedId text) := by
    unfold PeerClient.resumedId
    split
    · exact ⟨‹_›, htext ‹_›⟩
    · exact isReplid_cstr hid
  have honstream : ∀ d, (p.resurrect c text).master = some d →
      d.OnStream (h.resumed i c text) i (c.resumedId text, c.reploff) := by
    intro d hd
    cases hd
    refine ⟨?_, hvalid, Int.le_refl _, hcov⟩
    -- the id of the answer, or the one that was asked for
    by_cases hlen : text.length = 40
    · by_cases hne : text = cstr c.replid
      · simp [PeerClient.resumedId, hne, htake]
      · simp [PeerClient.resumedId, hlen, hne]
    · simp [PeerClient.resumedId, hlen, htake]
  refine ⟨fun d hd => (honstream d hd).sound, fun d hd => ?_, fun _ _ => honstream⟩
  cases hd

/-! ## Roles and files -/

theorem PeerMaster.Sound.stateReset (hp : p.Sound h stream master i) (uninitialized : Bytes) :
    (p.stateReset uninitialized).Sound h stream false i := by
  unfold PeerMaster.stateReset
  refine hp.unconnected (fun c hc => ?_) (by simp)
  rcases hc with hc | hc
  · cases hc
    cases hor : p.cachedMaster.or p.master with
    | none => exact .inl (Int.le_refl 0)
    | some d =>
      refine .inr ⟨d, ?_, rfl, rfl⟩
      rcases or_eq_some_iff.1 hor with hd | ⟨-, hd⟩
      · exact .inr hd
      · exact .inl hd
  · cases hc

theorem PeerMaster.Sound.cacheForRole (hp : p.Sound h stream master i) :
    p.cacheForRole.Sound h stream true i := by
  unfold PeerMaster.cacheForRole
  split
  · exact hp.fewer (.inr rfl) (.inr rfl) (by simp)
  · split
    · exact hp.cacheMaster .none (by simp)
    · exact hp.fewer (.inr rfl) (.inl rfl) (by simp)

/-- What a file says about a peer is held in its data. -/
def PeerAux.Sound (h : Holdings) (a : PeerAux) : Prop :=
  0 < a.offset → IsReplid a.replid ∧ h.Covers a.gid a.replid a.offset

/-- A client with the position of a file. -/
theorem PeerAux.Sound.fromAux {a : PeerAux} (ha : a.Sound h) (uninitialized : Bytes)
    (hcached : ∀ c, p.cachedMaster = some c → c.Sound h a.gid)
    (hstate : master = true → p.replState ≠ .connected) :
    (p.fromAux uninitialized a).Sound h stream master a.gid := by
  refine ⟨fun c hc => ?_, hcached, fun hm hconn => absurd hconn (hstate hm)⟩
  cases hc
  by_cases hoff : 0 < a.offset
  · obtain ⟨hid, hcov⟩ := ha hoff
    have htake : (a.replid ++ [0]).take 40 = a.replid := by
      rw [← hid.1, take_left]
    refine .inr ?_
    dsimp only
    rw [if_pos hid.1, htake]
    exact ⟨hid, hcov⟩
  · exact .inl (Int.not_lt.1 hoff)

/-- A file that is saved when the peer is `Savable`. -/
theorem PeerMaster.Sound.aux (hp : p.Sound h stream master i) (hsave : p.Savable) :
    (p.aux i).Sound h := by
  intro hoff
  have hlen := hsave.2 hoff
  have hid : IsReplid (p.aux i).replid := by
    show IsReplid p.savedPosition.1
    unfold savedPosition at hlen ⊢
    split at hlen
    · exact isReplid_cstr hlen
    · exact isReplid_cstr hlen
  refine ⟨hid, ?_⟩
  -- the position is the one of a client
  have hclient : ∀ c, p.master.or p.cachedMaster = some c → c.Sound h i := by
    intro c hc
    rcases or_eq_some_iff.1 hc with hc | ⟨-, hc⟩
    · exact hp.client c hc
    · exact hp.cached c hc
  show h.Covers i p.savedPosition.1 p.savedPosition.2
  cases hor : p.master.or p.cachedMaster with
  | none =>
    obtain ⟨hm, hc⟩ := or_eq_none_iff.1 hor
    have hinit : p.masterInitialOffset = -1 := by simpa [hm, hc] using hsave.1
    have hpos : 0 < p.savedPosition.2 := hoff
    simp only [savedPosition, hor, hinit] at hpos
    omega
  | some c =>
    simp only [savedPosition, hor] at hlen ⊢
    rcases hclient c hor with hle | ⟨-, hcov⟩
    · exact Holdings.covers_of_nonpos hle
    · rwa [cstr_eq_take hlen]

end peers

/-! ## Servers -/

section servers

variable {h h' : Holdings} {stream stream' : Fin 16 → Bytes × Int} {s s' : CrdtServer} {i : Fin 16}

variable {argv : Argv} {qps : Nat} {uninitialized : Bytes}

/-- One peer is replaced, more is held, and at most its link carries something else. -/
theorem CrdtServer.Sound.updated {q : PeerMaster} (hs : s.Sound h stream) (hle : h.Le h')
    (hstream : ∀ j, j ≠ i → stream' j = stream j)
    (hq : q.Sound h' (stream' i) s.iAmMaster i)
    (hpeers : s'.crdtMasters = update s.crdtMasters i (some q))
    (hrole : s'.iAmMaster = s.iAmMaster) : s'.Sound h' stream' := by
  intro j p hj
  rw [hpeers] at hj
  rw [hrole]
  rcases update_eq_some hj with ⟨rfl, ⟨⟩⟩ | ⟨hji, hj⟩
  · exact hq
  · rw [hstream j hji]
    exact (hs j p hj).mono hle

theorem CrdtServer.Sound.setPeer {q : PeerMaster} (hs : s.Sound h stream)
    (hq : q.Sound h (stream i) s.iAmMaster i)
    (hpeers : s'.crdtMasters = update s.crdtMasters i (some q))
    (hrole : s'.iAmMaster = s.iAmMaster) : s'.Sound h stream :=
  hs.updated (.refl h) (fun _ _ => rfl) hq hpeers hrole

/-- Some peers are left. -/
theorem CrdtServer.Sound.sublist (hs : s.Sound h stream)
    (hpeers : ∀ j p, s'.crdtMasters j = some p → s.crdtMasters j = some p)
    (hrole : s'.iAmMaster = s.iAmMaster) : s'.Sound h stream := by
  intro j p hj
  rw [hrole]
  exact hs j p (hpeers j p hj)

theorem CrdtServer.Sound.mono (hs : s.Sound h stream) (hle : h.Le h') : s.Sound h' stream :=
  fun j p hj => (hs j p hj).mono hle

theorem CrdtServer.Sound.mapPeers {f : PeerMaster → PeerMaster} (hs : s.Sound h stream)
    (hf : ∀ j p, p.Sound h (stream j) s.iAmMaster j → (f p).Sound h (stream j) s'.iAmMaster j)
    (hpeers : s'.crdtMasters = fun j => (s.crdtMasters j).map f) : s'.Sound h stream := by
  intro j p hj
  rw [hpeers] at hj
  obtain ⟨q, hq, rfl⟩ := map_eq_some_iff.1 hj
  exact hf j q (hs j q hq)

theorem CrdtServer.Sound.unsetMaster (hs : s.Sound h stream) (i : Fin 16) :
    (crdtReplicationUnsetMaster s i).Sound h stream := by
  unfold crdtReplicationUnsetMaster
  split
  · exact hs
  · refine hs.sublist (fun j p hj => ?_) ?_
    · rw [tryClean_eq] at hj
      exact setPeer_none_some hj
    · rw [tryClean_eq]
      rfl

/-- A peer without clients. -/
theorem createPeerMaster_sound (uninitialized : Bytes) (stream : Bytes × Int) (master : Bool) :
    (createPeerMaster uninitialized).Sound h stream master i := by
  refine ⟨?_, ?_, ?_⟩
  · rintro c ⟨⟩
  · rintro c ⟨⟩
  · rintro - ⟨⟩

/-- The link to another address starts with the position of the former one. -/
theorem CrdtServer.Sound.setMaster (hs : s.Sound h stream) (i : Fin 16) (ip : Bytes) (port : Int)
    (uninitialized : Bytes) :
    (crdtReplicationSetMaster s i ip port uninitialized).Sound h stream := by
  have hpeer : ∀ (p : PeerMaster) (master : Bool), p.Sound h (stream i) master i →
      (if master then { p.freeMaster.cancelHandshake with replState := .connect } else p).Sound h
        (stream i) master i := by
    intro p master hp
    split
    · exact hp.freeMaster.cancelHandshake.fewer (.inr rfl) (.inr rfl) (by simp)
    · exact hp
  unfold crdtReplicationSetMaster
  cases hp : s.crdtMasters i with
  | none =>
    have hnew := hpeer { createPeerMaster uninitialized with
      masterhost := cstr ip, masterport := toInt port, lazyTime := false } s.iAmMaster
      ((createPeerMaster_sound uninitialized _ _).of_eq rfl rfl rfl)
    rw [← addPeerSet_iAmMaster s i] at hnew
    refine hs.setPeer (by rwa [← addPeerSet_iAmMaster s i]) ?_ (addPeerSet_iAmMaster s i)
    exact congrArg (update · i _) (addPeerSet_crdtMasters s i)
  | some p =>
    have hold := hpeer { p with masterhost := cstr ip, masterport := toInt port, lazyTime := false }
      s.iAmMaster ((hs i p hp).of_eq rfl rfl rfl)
    exact hs.setPeer hold rfl rfl

theorem CrdtServer.Sound.attach (hs : s.Sound h stream) (env : PeerofEnv) (i : Fin 16)
    (host : Bytes) (port : Int) (o : PeerofOptions) :
    (attachPeer env s i host port o).Sound h stream := by
  have hset := hs.setMaster i host port env.uninitialized
  unfold attachPeer
  intro j p hj
  rcases update_eq_some hj with ⟨rfl, hj⟩ | ⟨-, hj⟩
  · obtain ⟨q, hq, rfl⟩ := map_eq_some_iff.1 hj
    exact (hset j q hq).of_eq rfl rfl rfl
  · exact hset j p hj

theorem CrdtServer.Sound.peerof (hs : s.Sound h stream) {env : PeerofEnv} {reply : Reply}
    (hres : (peerofCommand env s argv).result = .ok (reply, s')) :
    s'.Sound h stream := by
  rcases peerofCommand_ok hres with rfl | ⟨i, d, rfl⟩ |
    ⟨cmd, gidText, host, portText, words, gid, port, e, o, rfl, -, -, -, -, hend⟩
  · exact hs
  · exact hs.unsetMaster i
  -- the flag of loading has no part in this
  have hload : ({ s with loading := s.loading || o.loading } : CrdtServer).Sound h stream := hs
  rcases hend with ⟨-, rfl⟩ | ⟨-, i, -, ⟨p, d, hp, -, rfl⟩ | ⟨-, rfl | ⟨d, rfl⟩⟩⟩
  · exact hload
  · have hq : (p.reattached o).Sound h (stream i) s.iAmMaster i := by
      unfold reattached
      split <;> exact (hs i p hp).of_eq rfl rfl rfl
    exact hs.setPeer hq rfl rfl
  · exact (hload.attach env i host port o).unsetMaster i
  · refine (hload.attach env i host port o).sublist (fun j p hj => ?_) (addPeerSet_iAmMaster _ i)
    rwa [← addPeerSet_crdtMasters]

theorem CrdtServer.Sound.mergeStart (hs : s.Sound h stream) {e : Exit}
    (hres : (crdtMergeStartCommand uninitialized s argv).result = .ok (e, s')) :
    s'.Sound h stream := by
  rcases crdtMergeStartCommand_ok hres with ⟨-, rfl | ⟨i, p, hp, rfl⟩⟩ |
    ⟨i, p, gid, vclock, hp, -, -, -, rfl⟩
  · exact hs
  · exact hs.setPeer (hs i p hp).cancelHandshake rfl rfl
  · refine hs.setPeer (q := { p with
      cachedMaster := none
      master := if s.iAmMaster then p.master else some (createFakeClient uninitialized) })
      ?_ rfl rfl
    have hold := hs i p hp
    cases hm : s.iAmMaster with
    | true =>
      rw [hm] at hold
      refine ⟨hold.client, ?_, hold.link⟩
      rintro c ⟨⟩
    | false =>
      -- a slave gets a client without a position
      refine ⟨?_, ?_, ?_⟩
      · rintro c ⟨⟩
        exact .inl (Int.le_refl 0)
      · rintro c ⟨⟩
      · rintro ⟨⟩

/-- What a complete `CRDT.MERGE_END` leaves of the named peer. -/
theorem crdtMergeEndCommand_done {clientGid : Int}
    (hres : (crdtMergeEndCommand clientGid qps s argv).result = .ok (.done, s')) :
    ∃ (i : Fin 16) (p : PeerMaster) (c : PeerClient) (replid clientReplid : Bytes) (offset : Int),
      namedSlot argv = some i ∧ s.crdtMasters i = some p ∧ argv[3]? = some replid ∧
      (copyReplid c.replid replid).result = .ok clientReplid ∧
      argv[4]?.bind string2ll = some offset ∧ s'.iAmMaster = s.iAmMaster ∧
      ∃ q, s'.crdtMasters = update s.crdtMasters i (some q) ∧ q.master = some { c with
          replid := clientReplid, reploff := offset, readReploff := offset } ∧
        q.cachedMaster = p.cachedMaster := by
  rcases crdtMergeEndCommand_ok hres with ⟨he, -⟩ |
    ⟨sourceGid, gid, i, p, hi, hp, text, vclock, -, -, ⟨he, -⟩ |
      ⟨c, replid, id₁, id₂, offset, -, hreplid, hcopy, hoff, -, rfl⟩⟩
  · cases he
  · cases he
  obtain ⟨v, w, g, l, b, r, heq⟩ := connectPeer_synced (s := s) (i := i) qps p
    (p.synced c vclock id₁ id₂ offset) gid vclock
  rw [heq]
  exact ⟨i, p, c, replid, id₁, offset, hi.namedSlot, hp, hreplid, hcopy, hoff, rfl, _,
    rfl, rfl, rfl⟩

/-- The other ends of `CRDT.MERGE_END` leave the positions as they were. -/
theorem CrdtServer.Sound.mergeEndError (hs : s.Sound h stream) {clientGid : Int}
    (hres : (crdtMergeEndCommand clientGid qps s argv).result = .ok (.error, s')) :
    s'.Sound h stream := by
  rcases crdtMergeEndCommand_ok hres with ⟨-, rfl | ⟨i, p, hp, rfl⟩⟩ |
    ⟨sourceGid, gid, i, p, -, hp, text, vclock, -, -, ⟨-, -, rfl⟩ |
      ⟨c, id, id₁, id₂, off, -, -, -, -, he, -⟩⟩
  · exact hs
  · exact hs.setPeer (hs i p hp).cancelHandshake rfl rfl
  · exact hs.setPeer (q := { p with vectorClock := vclock }) ((hs i p hp).of_eq rfl rfl rfl) rfl rfl
  · cases he

theorem copyReplid_take {old new id : Bytes} (hnew : new.length = 40)
    (h : (copyReplid old new).result = .ok id) : id.take 40 = new := by
  unfold copyReplid at h
  rw [if_pos (by omega)] at h
  cases h
  rw [← hnew, take_left]

theorem CrdtServer.Sound.becomeSlave (hs : s.Sound h stream) (uninitialized : Bytes) :
    (s.becomeSlave uninitialized).Sound h stream := by
  unfold CrdtServer.becomeSlave
  split
  · exact hs.mapPeers (fun j p hp => hp.stateReset uninitialized) rfl
  · exact hs

theorem CrdtServer.Sound.becomeMaster (hs : s.Sound h stream) : s.becomeMaster.Sound h stream := by
  unfold CrdtServer.becomeMaster
  split
  · exact hs
  · exact hs.mapPeers (fun j p hp => hp.cacheForRole) rfl

/-- Without positions nothing has to be held. -/
theorem NoPositions.sound (hnone : NoPositions s)
    (hconn : s.iAmMaster = true → ∀ j p, s.crdtMasters j = some p → p.replState ≠ .connected) :
    s.Sound h stream := by
  intro j p hj
  have hall := hnone j
  rw [hj, all_some, Bool.and_eq_true] at hall
  refine ⟨fun c hc => .inl ?_, fun c hc => .inl ?_, fun hm hst => absurd hst (hconn hm j p hj)⟩
  · simpa [hc] using hall.1
  · simpa [hc] using hall.2

/-- A slave becomes a master; its data are held as before, or dropped when nobody counts
on them. -/
theorem CrdtServer.Sound.noOne (hs : s.Sound h stream) (connected nullDb : Bool) (qps : Nat) :
    (slaveofNoOne s connected nullDb qps).1.Sound h stream := by
  unfold slaveofNoOne
  split
  · exact hs
  · have hjump : (if connected then jumpVectorClock s qps else s).Sound h stream := by
      split <;> exact hs
    generalize (if connected then jumpVectorClock s qps else s) = t at hjump
    dsimp only
    split <;> exact hjump.becomeMaster

/-- A change of role leaves every `backstream_vc` alone. -/
theorem getMinBackstreamVcu_becomeMaster (s : CrdtServer) :
    getMinBackstreamVcu s.becomeMaster = getMinBackstreamVcu s := by
  unfold CrdtServer.becomeMaster
  split
  · rfl
  · unfold getMinBackstreamVcu
    refine congrArg List.min? (filterMap_congr fun i _ => ?_)
    cases hp : s.crdtMasters i with
    | none => simp [CrdtServer.mapPeers, hp]
    | some p =>
      simp [CrdtServer.mapPeers, hp, backstreaming,
        (cacheForRole_sameClocks p).backstreamVc]

/-- When `SLAVEOF NO ONE` drops the data set. -/
theorem slaveofNoOne_drops {connected nullDb : Bool}
    (h : (slaveofNoOne s connected nullDb qps).2 = true) :
    s.iAmMaster = false ∧ getMinBackstreamVcu s = some 0 ∧ nullDb = false := by
  unfold slaveofNoOne at h
  split at h
  · cases h
  rename_i hslave
  have hjump : getMinBackstreamVcu (if connected then jumpVectorClock s qps else s) =
      getMinBackstreamVcu s := by
    split <;> rfl
  generalize (if connected then jumpVectorClock s qps else s) = t at h hjump
  dsimp only at h
  split at h
  · rename_i hdrop
    rw [getMinBackstreamVcu_becomeMaster, hjump] at hdrop
    exact ⟨Bool.eq_false_iff.2 hslave, hdrop⟩
  · cases h

theorem CrdtServer.Sound.cleanSlavePeerBackStream (hs : s.Sound h stream) :
    (Peer.cleanSlavePeerBackStream s).Sound h stream :=
  hs.mapPeers (f := fun p => { p with backstreamVc := VectorClock.null })
    (fun _ _ hp => hp.of_eq rfl rfl rfl) rfl

theorem CrdtServer.Sound.peerBackStream (hs : s.Sound h stream) (nullDb : Bool)
    (vcus : Fin 16 → Option Nat) : (Peer.peerBackStream s nullDb vcus).1.Sound h stream := by
  have hsilent : (markSilent s vcus).Sound h stream := by
    intro j p hj
    obtain ⟨q, hq, rfl⟩ := map_eq_some_iff.1 hj
    refine (hs j q hq).of_eq ?_ ?_ ?_ <;> split <;> rfl
  have hothers : ∀ (t : CrdtServer) g m, t.Sound h stream → (markOthers t g m).Sound h stream := by
    intro t g m ht j p hj
    obtain ⟨q, hq, rfl⟩ := map_eq_some_iff.1 hj
    refine (ht j q hq).of_eq ?_ ?_ ?_ <;> split_ifs <;> rfl
  unfold Peer.peerBackStream
  dsimp only
  split
  · exact hsilent.cleanSlavePeerBackStream
  · generalize (!nullDb && (markSilent s vcus).iAmMaster) = keep
    have hreset : ∀ loading : Bool, ({ (if keep then resetClocks (markSilent s vcus)
        else markSilent s vcus) with loading := loading } : CrdtServer).Sound h stream := by
      intro loading
      split <;> exact hsilent
    cases maxPeer s vcus with
    | none => exact hreset _
    | some r => exact hothers _ _ _ (hreset _)

/-- The data set is dropped only if some peer knows more of this node than it does. -/
theorem peerBackStream_keeps {nullDb : Bool} {vcus : Fin 16 → Option Nat}
    (hkeep : s.iAmMaster = false ∨ nullDb = true ∨
      ((maxPeer s vcus).all fun g => g.2 ≤ s.vectorClock.time s.crdtGid)) :
    (Peer.peerBackStream s nullDb vcus).2 = false := by
  unfold Peer.peerBackStream
  dsimp only
  split
  · rfl
  · rename_i hnot
    have hkept : (!nullDb && (markSilent s vcus).iAmMaster) = false := by
      rcases hkeep with hm | hnull | hall
      · show (!nullDb && s.iAmMaster) = false
        rw [hm, Bool.and_false]
      · rw [hnull]
        rfl
      · rw [Bool.and_eq_true, not_and] at hnot
        exact Bool.eq_false_iff.2 fun hk => hnot hk hall
    rw [hkept]
    cases maxPeer s vcus with
    | none => rfl
    | some r => rfl

/-- `loadPeerAux_cases`, for the role and the peers only. -/
theorem loadPeerAux_ok {a : PeerAux} (hload : Peer.loadPeerAux uninitialized s a = some s') :
    s'.iAmMaster = s.iAmMaster ∧ (s'.crdtMasters = s.crdtMasters ∨
      ∃ p, (p = createPeerMaster uninitialized ∨
          s.crdtMasters a.gid = some p ∧ s.iAmMaster = false) ∧
        s'.crdtMasters = update s.crdtMasters a.gid (some (p.fromAux uninitialized a))) := by
  rcases loadPeerAux_cases hload with rfl | ⟨-, rfl⟩ | ⟨p, hp, hslave, rfl⟩
  · exact ⟨rfl, .inl rfl⟩
  · refine ⟨addPeerSet_iAmMaster s a.gid, .inr ⟨_, .inl rfl, ?_⟩⟩
    rw [CrdtServer.setPeer, addPeerSet_crdtMasters]
  · exact ⟨rfl, .inr ⟨p, .inr ⟨hp, hslave⟩, rfl⟩⟩

/-- A file goes into a slave, which forgets its peers, or into a node without links. -/
theorem rdbLoadPeers_sound {file : List PeerAux} (hfile : ∀ a ∈ file, a.Sound h)
    (hs : s.iAmMaster = true → s.Sound h stream)
    (hload : rdbLoadPeers uninitialized s file = some s') : s'.Sound h stream := by
  refine rdbLoadPeers_invariant (P := fun s => s.Sound h stream) ?_ hs ?_ hload
  · intro t a t' ha ht hnext
    obtain ⟨hrole, hsame | ⟨p, hp, hpeers⟩⟩ := loadPeerAux_ok hnext
    · exact ht.sublist (fun j q hj => hsame ▸ hj) hrole
    · refine ht.setPeer ((hfile a ha).fromAux uninitialized (fun c hc => ?_) fun hm => ?_)
        hpeers hrole
      · rcases hp with rfl | ⟨hp, -⟩
        · cases hc
        · exact (ht a.gid p hp).cached c hc
      · rcases hp with rfl | ⟨-, hslave⟩
        · simp [createPeerMaster]
        · rw [hslave] at hm
          cases hm
  · rintro - j p ⟨⟩

/-- No link comes up through a file. -/
theorem rdbLoadPeers_unconnected {file : List PeerAux}
    (hs : ∀ j p, s.crdtMasters j = some p → p.replState ≠ .connected)
    (hload : rdbLoadPeers uninitialized s file = some s') :
    ∀ j p, s'.crdtMasters j = some p → p.replState ≠ .connected := by
  refine rdbLoadPeers_invariant
    (P := fun s => ∀ j p, s.crdtMasters j = some p → p.replState ≠ .connected) ?_ (fun _ => hs) ?_
    hload
  · intro t a t' _ ht hnext j q hj
    obtain ⟨-, hsame | ⟨p, hp, hpeers⟩⟩ := loadPeerAux_ok hnext
    · exact ht j q (hsame ▸ hj)
    · rw [hpeers] at hj
      rcases update_eq_some hj with ⟨rfl, ⟨⟩⟩ | ⟨-, hj⟩
      · rcases hp with rfl | ⟨hp, -⟩
        · simp [fromAux, createPeerMaster]
        · exact ht a.gid p hp
      · exact ht j q hj
  · rintro - j p ⟨⟩

end servers

/-! ## Nodes -/

/-- The positions that a node has are held in its data. -/
structure Member.Sound (m : Member) : Prop where
  peers : m.server.Sound m.holdings m.stream
  /-- No message of a full sync was lost. -/
  syncing : ∀ i, m.holdings.syncing i ≠ some false

namespace Member

variable {m m' : Member}

variable {i : Fin 16} {r : Received}

theorem setSyncing_ne_false {h : Holdings} {state : Option Bool}
    (hh : ∀ j, h.syncing j ≠ some false) (hstate : state ≠ some false) :
    ∀ j, (h.setSyncing i state).syncing j ≠ some false :=
  (forall_update_iff _ fun _ st => st ≠ some false).2 ⟨hstate, fun j _ => hh j⟩

/-- The node goes on with another server while a full sync begins, goes on or ends. -/
theorem Sound.setSyncing (hm : m.Sound) {s : CrdtServer} (hs : s.Sound m.holdings m.stream)
    {state : Option Bool} (hstate : state ≠ some false) :
    Member.Sound ⟨s, m.holdings.setSyncing i state, m.stream⟩ :=
  ⟨hs.mono (Holdings.le_setSyncing _ _ _), setSyncing_ne_false hm.syncing hstate⟩

theorem Sound.linkNext (hm : m.Sound) {act : LinkAct} (hnext : m.linkNext i act = some m') :
    m'.Sound := by
  obtain ⟨s, hs, hnext⟩ := bind_eq_some_iff.1 hnext
  simp only [Peer.linkNext, ite_none_right_eq_some, bind_eq_some_iff, map_eq_some_iff] at hs
  obtain ⟨hrole, p, hp, q, hq, rfl⟩ := hs
  have hsound := hm.peers i p hp
  rw [hrole] at hsound
  -- all steps but one leave holdings and streams as they are
  have hplain : (∀ uninitialized text, act ≠ .readPsync uninitialized (.resume text)) →
      (m.server.setPeer i (some q)).Sound m.holdings m.stream := by
    intro hact
    have hq' := hsound.linkStep hact hq
    rw [← hrole] at hq'
    exact hm.peers.setPeer hq' rfl rfl
  split at hnext
  · cases hnext
    exact hm.setSyncing (hplain (by simp)) (by simp)
  · rename_i text _
    obtain ⟨c, hc, hnext⟩ := bind_eq_some_iff.1 hnext
    obtain ⟨p', hp', hc⟩ := bind_eq_some_iff.1 hc
    rw [hp] at hp'
    cases hp'
    obtain ⟨⟨hid, htext⟩, ⟨⟩⟩ := ite_none_right_eq_some.1 hnext
    obtain ⟨-, hq⟩ := ite_none_right_eq_some.1 hq
    obtain ⟨c', hc', rfl⟩ := map_eq_some_iff.1 hq
    rw [hc] at hc'
    cases hc'
    refine ⟨?_, hm.syncing⟩
    refine hm.peers.updated (Holdings.le_add _ _ _ _) (fun j hji => update_of_ne hji _ _) ?_
      rfl rfl
    dsimp only
    rw [hrole, update_self]
    exact hsound.resurrect hc hid htext
  · rename_i hfull hresume
    cases hnext
    exact ⟨hplain fun uninitialized text heq => hresume uninitialized text heq, hm.syncing⟩

theorem Sound.unitNext (hm : m.Sound) {u : List Received} (htaken : allTaken u = true)
    (hnext : m.unitNext i u = some m') : m'.Sound := by
  obtain ⟨p, hp, hnext⟩ := bind_eq_some_iff.1 hnext
  obtain ⟨c, hc, hnext⟩ := bind_eq_some_iff.1 hnext
  obtain ⟨⟨hrole, hconn⟩, ⟨⟩⟩ := ite_none_right_eq_some.1 hnext
  have hp' := hm.peers i p hp
  obtain ⟨hid, hreplid, hbehind, hcov⟩ := hp'.link hrole hconn c hc
  refine ⟨?_, hm.syncing⟩
  set h' := m.holdings.add i (m.stream i).1 fun q => allTaken u &&
    decide ((m.stream i).2 < q ∧ q ≤ (m.stream i).2 + unitSize u) with hh'
  have hle : m.holdings.Le h' := Holdings.le_add _ _ _ _
  refine hm.peers.updated (q := { p with master := some (c.advance (unitSize u)) }) hle
    (fun j hji => update_of_ne hji _ _) ?_ rfl rfl
  dsimp only
  rw [update_self]
  -- the link stands behind the unit, and so does what is held
  have honstream : (c.advance (unitSize u)).OnStream h' i
      ((m.stream i).1, (m.stream i).2 + unitSize u) :=
    ⟨hid, hreplid, by simp only [PeerClient.advance]; omega,
      hcov.add fun q hlt hle => by simp [htaken, hlt, hle]⟩
  refine ⟨?_, fun d hd => (hp'.cached d hd).mono hle, ?_⟩
  · rintro d ⟨⟩
    exact honstream.sound
  · rintro - - d ⟨⟩
    exact honstream

theorem Sound.relayedNext (hm : m.Sound) {u : List Received} {replid : Bytes} {start : Int}
    {counted : Bool} (htaken : allTaken u = true) (hcont : Continues m.server i replid start)
    (hnext : m.relayedNext i u replid start counted = some m') : m'.Sound := by
  simp only [Member.relayedNext, htaken, Bool.true_or, Bool.true_and, if_true,
    ite_none_left_eq_some, some.injEq] at hnext
  obtain ⟨hslave, rfl⟩ := hnext
  refine ⟨?_, hm.syncing⟩
  set h' := m.holdings.add i replid fun q => decide (start < q ∧ q ≤ start + unitSize u) with hh'
  have hle : m.holdings.Le h' := Holdings.le_add _ _ _ _
  cases hp : m.server.crdtMasters i with
  | none =>
    refine (hm.peers.mono hle).sublist (fun j q hj => ?_) rfl
    simp only [countUnit, hp, map_none] at hj
    rwa [← hp, update_eq_self] at hj
  | some p =>
    have hp' := hm.peers i p hp
    refine hm.peers.updated (i := i)
      (q := { p with master := p.master.map (·.advance (unitSize u)) }) hle (fun _ _ => rfl) ?_
      (by simp [countUnit, hp]) rfl
    refine ⟨fun d hd => ?_, fun d hd => (hp'.cached d hd).mono hle, fun hmaster => ?_⟩
    · -- what the client counts is what came
      obtain ⟨c, hc, rfl⟩ := map_eq_some_iff.1 (show p.master.map _ = some d from hd)
      simp only [Continues, hp, bind_some, hc, all_some, decide_eq_true_eq] at hcont
      obtain ⟨hid, hreplid, hoff⟩ := hcont
      have hcov : m.holdings.Covers i replid start := by
        rcases hp'.client c hc with hnone | ⟨-, hcov⟩
        · exact Holdings.covers_of_nonpos (hoff ▸ hnone)
        · rwa [hid, hoff] at hcov
      refine .inr ?_
      show IsReplid (c.replid.take 40) ∧ h'.Covers i (c.replid.take 40) (c.reploff + unitSize u)
      rw [hid, hoff]
      exact ⟨hreplid, hcov.add fun q hlt hle => by simp [hlt, hle]⟩
    · exact absurd hmaster hslave

theorem Sound.mergeStartNext (hm : m.Sound) {uninitialized : Bytes}
    (hnext : m.mergeStartNext r uninitialized = some m') : m'.Sound := by
  obtain ⟨i, -, hnext⟩ := bind_eq_some_iff.1 hnext
  obtain ⟨s, hs, rfl⟩ := map_eq_some_iff.1 hnext
  refine hm.setSyncing ?_ (by simp)
  split at hs
  · obtain ⟨e, hres⟩ := Trace.state?_eq_some hs
    exact hm.peers.mergeStart hres
  · cases hs
    exact hm.peers

theorem lagBehind_spec {s : CrdtServer} {q : PeerMaster} {c : PeerClient}
    (hq : s.crdtMasters i = some q) (hc : q.master = some c) (behind : Nat) :
    (lagBehind s i behind).iAmMaster = s.iAmMaster ∧ ∃ q' c',
      (lagBehind s i behind).crdtMasters = update s.crdtMasters i (some q') ∧
      q'.master = some c' ∧ q'.cachedMaster = q.cachedMaster ∧ c'.replid = c.replid ∧
      c'.reploff ≤ c.reploff := by
  unfold lagBehind
  split
  · refine ⟨rfl, { q with master := some { c with reploff := c.reploff - behind } },
      { c with reploff := c.reploff - behind }, ?_, rfl, rfl, rfl, ?_⟩
    · simp [hq, hc]
    · show c.reploff - behind ≤ c.reploff
      omega
  · refine ⟨rfl, q, c, ?_, hc, rfl, rfl, Int.le_refl _⟩
    rw [← hq, update_eq_self]

/-- A full sync that is complete up to its offset. -/
theorem Sound.endSync (hm : m.Sound) {replid : Bytes} {offset : Int} {s : CrdtServer}
    {p q : PeerMaster} {c : PeerClient} (hp : m.server.crdtMasters i = some p)
    (hpeers : s.crdtMasters = update m.server.crdtMasters i (some q))
    (hrole : s.iAmMaster = m.server.iAmMaster) (hc : q.master = some c)
    (hcached : q.cachedMaster = p.cachedMaster) (hid : c.replid.take 40 = replid)
    (hreplid : IsReplid replid) (hoff : c.reploff ≤ offset) :
    (Member.endSync m i true replid offset (.done, s)).Sound := by
  set h' := m.holdings.add i replid fun q => true && decide (q ≤ offset) with hh'
  have hcov : h'.Covers i replid offset :=
    Holdings.Covers.add (n := 0) (Holdings.covers_of_nonpos (Int.le_refl 0)) fun q _ hle => by
      simp [hle]
  have hle : m.holdings.Le h' := Holdings.le_add _ _ _ _
  have honstream : c.OnStream h' i (replid, offset) := ⟨hid, hreplid, hoff, hcov⟩
  have hq : q.Sound h' (replid, offset) m.server.iAmMaster i := by
    refine ⟨fun d hd => ?_, fun d hd => ?_, fun _ _ d hd => ?_⟩
    · rw [hc] at hd
      cases hd
      exact honstream.sound
    · rw [hcached] at hd
      exact ((hm.peers i p hp).cached d hd).mono hle
    · rw [hc] at hd
      cases hd
      exact honstream
  refine ⟨CrdtServer.Sound.mono ?_ (Holdings.le_setSyncing _ _ _),
    setSyncing_ne_false hm.syncing (by simp)⟩
  refine hm.peers.updated hle (fun j hji => update_of_ne hji _ _) ?_ hpeers hrole
  show q.Sound h' (update m.stream i (replid, offset) i) m.server.iAmMaster i
  rw [update_self]
  exact hq

theorem Sound.mergeEndNext (hm : m.Sound) {clientGid : Int} {qps behind : Nat}
    (hnext : m.mergeEndNext r clientGid qps behind = some m') : m'.Sound := by
  obtain ⟨i, hi, hnext⟩ := bind_eq_some_iff.1 hnext
  obtain ⟨complete, hcomplete, hnext⟩ := bind_eq_some_iff.1 hnext
  obtain ⟨replid, hreplid, hnext⟩ := bind_eq_some_iff.1 hnext
  obtain ⟨⟨hvalid, -⟩, hnext⟩ := ite_none_right_eq_some.1 hnext
  have htrue : complete = true := by
    cases complete with
    | true => rfl
    | false => exact absurd hcomplete (hm.syncing i)
  subst htrue
  split at hnext
  · obtain ⟨⟨e, s⟩, hres, rfl⟩ := map_eq_some_iff.1 hnext
    rw [Trace.toOption_eq_some] at hres
    cases e with
    | error =>
      exact hm.setSyncing (hm.peers.mergeEndError hres) (by simp)
    | done =>
      obtain ⟨i', p, c, replid', id, offset, hi', hp, hreplid', hcopy, hoff, hrole, q, hpeers, hc,
        hcached⟩ := crdtMergeEndCommand_done hres
      rw [hi] at hi'
      cases hi'
      rw [hreplid] at hreplid'
      cases hreplid'
      obtain ⟨hrole', q', c', hpeers', hc', hcached', hid', hoff'⟩ :=
        lagBehind_spec (by rw [hpeers, update_self]) hc behind
      rw [hpeers, update_idem] at hpeers'
      rw [hoff]
      refine hm.endSync hp hpeers' (hrole'.trans hrole) hc' (hcached'.trans hcached) ?_ hvalid hoff'
      rw [hid']
      exact copyReplid_take hvalid.1 hcopy
  · cases hnext
    exact hm.setSyncing hm.peers (by simp)

theorem Sound.peerChangeNext (hm : m.Sound) (hnext : m.peerChangeNext r = some m') : m'.Sound := by
  obtain ⟨hslave, hnext⟩ := ite_none_left_eq_some.1 hnext
  obtain ⟨i, hi, hnext⟩ := bind_eq_some_iff.1 hnext
  obtain ⟨replid, hreplid, hnext⟩ := bind_eq_some_iff.1 hnext
  obtain ⟨hvalid, hnext⟩ := ite_none_right_eq_some.1 hnext
  split at hnext
  · obtain ⟨s, hs, rfl⟩ := map_eq_some_iff.1 hnext
    obtain ⟨e, hres⟩ := Trace.state?_eq_some hs
    refine ⟨?_, hm.syncing⟩
    have hle := Holdings.le_add m.holdings i replid fun q =>
      ((m.server.crdtMasters i).bind master).any fun c =>
        decide (q ≤ c.reploff) && m.holdings.applied i (c.replid.take 40) q
    rcases peerChangeCommand_ok hres with rfl |
      ⟨i', p, c, text, id₁, id₂, hp, hc, hi', htext, hcopy, rfl⟩
    · exact hm.peers.mono hle
    rw [hi] at hi'
    cases hi'
    rw [hreplid] at htext
    cases htext
    have hp' := hm.peers i p hp
    refine hm.peers.updated (q := { p with
      master := some { c with replid := id₁ }
      masterReplid := id₂ }) hle (fun _ _ => rfl) ?_ rfl rfl
    refine ⟨?_, fun d hd => (hp'.cached d hd).mono hle, fun hmaster => absurd hmaster hslave⟩
    rintro d ⟨⟩
    -- what was held under the old id is held under the new one
    rcases hp'.client c hc with hnone | ⟨-, hcov⟩
    · exact .inl hnone
    · refine .inr ?_
      dsimp only
      rw [copyReplid_take hvalid.1 hcopy]
      refine ⟨hvalid, fun q hpos hq => ?_⟩
      simp [Holdings.add, hp, hc, hq, hcov q hpos hq]
  · cases hnext
    exact hm

/-- Every step of a node that loses nothing. -/
theorem Sound.next (hm : m.Sound) {a : MemberAct} (hok : m.Lossless a)
    (hnext : m.next a = some m') : m'.Sound := by
  cases a with
  | peerof env argv =>
    obtain ⟨s, hs, rfl⟩ := map_eq_some_iff.1 hnext
    obtain ⟨reply, hres⟩ := Trace.state?_eq_some hs
    exact ⟨hm.peers.peerof hres, hm.syncing⟩
  | link i act => exact hm.linkNext hnext
  | unit i u => exact hm.unitNext hok hnext
  | relayed i u replid start counted => exact hm.relayedNext hok.1 hok.2 hnext
  | mergeStart r uninitialized => exact hm.mergeStartNext hnext
  | message i r =>
    cases hnext
    refine hm.setSyncing hm.peers ?_
    have htaken : r.taken = true := hok
    rw [htaken]
    simpa using hm.syncing i
  | mergeEnd r clientGid qps behind => exact hm.mergeEndNext hnext
  | peerChange r => exact hm.peerChangeNext hnext
  | slaveof uninitialized =>
    cases hnext
    refine ⟨?_, fun i => ?_⟩
    · refine (hm.peers.becomeSlave uninitialized).mono fun j id q hq => ?_
      dsimp only
      split <;> exact hq
    · dsimp only
      split
      · simp
      · exact hm.syncing i
  | slaveofNoOne connected nullDb qps =>
    cases hnext
    cases hdrop : (Peer.slaveofNoOne m.server connected nullDb qps).2 with
    | false =>
      simp only [dropping, hdrop]
      exact ⟨hm.peers.noOne connected nullDb qps, hm.syncing⟩
    | true =>
      simp only [dropping, hdrop]
      refine ⟨?_, fun i => by simp [Holdings.empty]⟩
      obtain ⟨hslave, hback, hnull⟩ := slaveofNoOne_drops hdrop
      have hnone : NoPositions m.server := by
        rcases hok with hrole | hn | hb | hnone
        · rw [hslave] at hrole
          cases hrole
        · rw [hnull] at hn
          cases hn
        · exact absurd hback hb
        · exact hnone
      refine CrdtServer.Sound.noOne (hnone.sound fun hrole => ?_) connected nullDb qps
      rw [hslave] at hrole
      cases hrole
  | slaveContinue =>
    cases hnext
    exact ⟨hm.peers.cleanSlavePeerBackStream, hm.syncing⟩
  | loadFails =>
    obtain ⟨hslave, ⟨⟩⟩ := ite_none_left_eq_some.1 hnext
    have hnone : NoPositions m.server := hok
    exact ⟨hnone.sound fun hrole => absurd hrole hslave, fun i => by simp [Holdings.empty]⟩

end Member

/-! ## Runs -/

/-- Every node and every file is sound. -/
structure Group.Sound (g : Group) : Prop where
  members : ∀ k, (g.members k).Sound
  files : ∀ f ∈ g.files, (∀ a ∈ f.peers, a.Sound f.holdings) ∧
    ∀ i, f.holdings.syncing i ≠ some false

namespace Group

variable {g g' : Group}

variable {m : Member} {s : CrdtServer}

theorem Sound.set (hg : g.Sound) {k : Nat} (hm : m.Sound) : (g.set k m).Sound := by
  refine ⟨?_, hg.files⟩
  exact (forall_update_iff _ fun _ m => Member.Sound m).2 ⟨hm, fun j _ => hg.members j⟩

theorem Unlinked.unconnected (hs : Unlinked s) :
    ∀ j p, s.crdtMasters j = some p → p.replState ≠ .connected := by
  intro j p hp
  have hall := hs j
  rw [hp, all_some, Bool.and_eq_true, decide_eq_true_eq] at hall
  exact hall.2

/-- A node without links counts on nothing. -/
theorem Unlinked.sound (hs : Unlinked s) (h : Holdings) (stream : Fin 16 → Bytes × Int) :
    s.Sound h stream := by
  refine NoPositions.sound (fun i => ?_) fun _ => hs.unconnected
  have hall := hs i
  cases hp : s.crdtMasters i with
  | none => rfl
  | some p =>
    simp only [hp, all_some, Bool.and_eq_true, isNone_iff_eq_none] at hall
    simp [hall.1.1]

/-- A file that is loaded into a slave or a new process. -/
theorem Sound.load (hg : g.Sound) {stream : Fin 16 → Bytes × Int} {uninitialized : Bytes}
    {file : Nat} (hs : s.iAmMaster = true → Unlinked s)
    (hload : g.files[file]?.bind (load s stream uninitialized) = some m) : m.Sound := by
  obtain ⟨f, hf, hload⟩ := bind_eq_some_iff.1 hload
  obtain ⟨s', hs', rfl⟩ := map_eq_some_iff.1 hload
  obtain ⟨hpeers, hsyncing⟩ := hg.files f (mem_of_getElem? hf)
  exact ⟨rdbLoadPeers_sound hpeers (fun hm => (hs hm).sound _ _) hs', hsyncing⟩

/-- A new process has positions of its file only, and no link. -/
theorem Sound.booted (hg : g.Sound) {k : Nat} {config : CrdtServer} {file : Option Nat}
    {uninitialized : Bytes} (hconfig : Unlinked config)
    (hboot : g.booted k config file uninitialized = some m) :
    m.Sound ∧ ∀ j p, m.server.crdtMasters j = some p → p.replState ≠ .connected := by
  unfold Group.booted at hboot
  cases file with
  | none =>
    cases hboot
    exact ⟨⟨hconfig.sound _ _, fun i => by simp [Holdings.empty]⟩, hconfig.unconnected⟩
  | some file =>
    refine ⟨hg.load (fun _ => hconfig) hboot, ?_⟩
    obtain ⟨f, -, hload⟩ := bind_eq_some_iff.1 hboot
    obtain ⟨s', hs', rfl⟩ := map_eq_some_iff.1 hload
    exact rdbLoadPeers_unconnected hconfig.unconnected hs'

/-- Every step that loses nothing. -/
theorem Sound.next (hg : g.Sound) {a : GroupAct} (hok : Lossless g a)
    (hnext : g.next a = some g') : g'.Sound := by
  cases a with
  | act k a =>
    obtain ⟨m, hm, rfl⟩ := map_eq_some_iff.1 hnext
    exact hg.set ((hg.members k).next hok hm)
  | rdbSave k =>
    cases hnext
    refine ⟨hg.members, fun f hf => ?_⟩
    rcases mem_append.1 hf with hf | hf
    · exact hg.files f hf
    rw [mem_singleton] at hf
    subst hf
    refine ⟨fun a ha => ?_, (hg.members k).syncing⟩
    obtain ⟨i, -, ha⟩ := mem_filterMap.1 ha
    obtain ⟨p, hp, rfl⟩ := map_eq_some_iff.1 ha
    have hsave := hok i
    rw [hp, all_some, decide_eq_true_eq] at hsave
    exact ((hg.members k).peers i p hp).aux hsave
  | rdbLoad k file uninitialized =>
    obtain ⟨hslave, hnext⟩ := ite_none_left_eq_some.1 hnext
    obtain ⟨m, hm, rfl⟩ := map_eq_some_iff.1 hnext
    exact hg.set (hg.load (fun hmaster => absurd hmaster hslave) hm)
  | restart k config file uninitialized nullDb vcus =>
    obtain ⟨hconfig, hnext⟩ := ite_none_right_eq_some.1 hnext
    obtain ⟨m, hm, rfl⟩ := map_eq_some_iff.1 hnext
    obtain ⟨hsound, hconn⟩ := hg.booted hconfig hm
    refine hg.set ?_
    cases hdrop : (peerBackStream m.server nullDb vcus).2 with
    | false =>
      simp only [Member.dropping, hdrop]
      exact ⟨hsound.peers.peerBackStream nullDb vcus, hsound.syncing⟩
    | true =>
      simp only [Member.dropping, hdrop]
      have hnone : NoPositions m.server := by
        rcases hok m hm with hm' | hm' | hm' | hnone
        · rw [peerBackStream_keeps (.inl hm')] at hdrop
          cases hdrop
        · rw [peerBackStream_keeps (.inr (.inl hm'))] at hdrop
          cases hdrop
        · rw [peerBackStream_keeps (.inr (.inr hm'))] at hdrop
          cases hdrop
        · exact hnone
      refine ⟨CrdtServer.Sound.peerBackStream (hnone.sound fun _ => hconn) nullDb vcus, fun i => ?_⟩
      simp [Holdings.empty]

end Group

/-- In every run whose steps lose nothing, a node that asks a peer to continue a history
holds everything of it that comes before the requested offset. -/
theorem resumes_from_applied {g : Group} (h : group.Reachable Lossless g) {k : Nat} {i : Fin 16}
    {req : PsyncRequest} (hasks : (g.members k).Asks i req) : (g.members k).HoldsBefore i req := by
  have hsound : g.Sound := by
    refine h.invariant ?_ ?_
    · rintro g₀ ⟨hfiles, hmembers⟩
      refine ⟨fun k => ?_, fun f hf => ?_⟩
      · obtain ⟨hunlinked, hempty⟩ := hmembers k
        exact ⟨hunlinked.sound _ _, fun i => by simp [hempty, Holdings.empty]⟩
      · rw [hfiles] at hf
        cases hf
    · intro g₀ a g₁ hg hok hnext
      exact hg.next hok hnext
  obtain ⟨-, p, hp, -, hreq⟩ := hasks
  obtain ⟨c, hc, rfl⟩ := map_eq_some_iff.1 hreq
  intro hid
  show (g.members k).holdings.Covers i (cstr c.replid) (c.reploff + 1 - 1)
  rw [Int.add_sub_cancel]
  rcases ((hsound.members k).peers i p hp).cached c hc with hnone | ⟨-, hcov⟩
  · exact Holdings.covers_of_nonpos hnone
  · rwa [cstr_eq_take hid.1]

/-- Nodes with the peer 2 in their configuration. -/
def configuredGroup : Group := ⟨fun _ => ⟨configuredNode, .empty, fun _ => ([], 0)⟩, []⟩

theorem configuredGroup_init : group.init configuredGroup :=
  have hunlinked : Group.Unlinked configuredNode := by decide +kernel
  ⟨rfl, fun _ => ⟨hunlinked, rfl⟩⟩

/-- A command that reaches a node in good health. -/
def received (cmd : Net.Command) (argv : Argv) : Received :=
  ⟨Net.healthyServer, Net.healthyMoments 0, Net.peerClient 2 0, cmd, argv⟩

/-- The handshake of node `k` with peer 2 up to the point where `CRDT.PSYNC` is sent. -/
def handshakeOf (k : Nat) : List GroupAct :=
  let act := fun a => GroupAct.act k (.link slotTwo a)
  [act .advance, act .advance, act .advance]

/-- The peer answers with `+FULLRESYNC aaa... 100`. -/
def fullResyncOf (k : Nat) : List GroupAct :=
  let act := fun a => GroupAct.act k (.link slotTwo a)
  [act .sendPsync,
    act (.readPsync (List.replicate 41 0) (.fullResync (List.replicate 40 97) 100))]

/-- A full sync with peer 2 that comes to its end, and a link that is lost then: the next
request is for the byte 101. -/
theorem resumes_from_applied_after_sync :
    ∃ g req, group.Reachable Lossless g ∧ (g.members 0).Asks slotTwo req ∧
      IsReplid req.replid ∧ req.offset = 101 ∧ (g.members 0).HoldsBefore slotTwo req := by
  let start := received (Net.tableEntry "crdt.merge_start" .other (-1) "lars")
    [ascii "crdt.merge_start", ascii "2", ascii "1:10;2:7"]
  let stop := received (Net.tableEntry "crdt.merge_end" .crdtMergeEndCommand (-1) "lars")
    [ascii "crdt.merge_end", ascii "2", ascii "1:10;2:7", List.replicate 40 97, ascii "100"]
  let acts := handshakeOf 0 ++ fullResyncOf 0 ++
    [.act 0 (.mergeStart start (List.replicate 41 0)), .act 0 (.mergeEnd stop 2 0 0),
      .act 0 (.link slotTwo .disconnect), .act 0 (.link slotTwo .advance),
      .act 0 (.link slotTwo .advance)]
  have hrun : ((group.run configuredGroup acts).any fun g => (g.members 0).server.iAmMaster &&
      ((g.members 0).server.crdtMasters slotTwo).any fun p =>
        p.replState = .handshake ∧ p.psyncRequest = some ⟨List.replicate 40 97, 101⟩) = true := by
    decide +kernel
  obtain ⟨g, hg, hshape⟩ := (Option.any_eq_true _ _).1 hrun
  have hreach : group.Reachable Lossless g := by
    refine Lib.System.reachable_of_run_of_forall (.init configuredGroup_init) ?_ hg
    intro a ha s
    simp only [acts, handshakeOf, fullResyncOf, mem_append, mem_cons] at ha
    rcases ha with ((rfl | rfl | rfl | ha) | rfl | rfl | ha) | rfl | rfl | rfl | rfl | rfl | ha
    all_goals first | exact True.intro | cases ha
  rw [Bool.and_eq_true] at hshape
  obtain ⟨p, hp, hstate⟩ := (Option.any_eq_true _ _).1 hshape.2
  have hasks : (g.members 0).Asks slotTwo ⟨List.replicate 40 97, 101⟩ :=
    ⟨hshape.1, p, hp, of_decide_eq_true hstate⟩
  exact ⟨g, _, hreach, hasks, by decide, rfl, resumes_from_applied hreach hasks⟩

/-- A full sync of node 0 is broken off, and node 0 saves an RDB file before its next
`CRDT.PSYNC`. Node 1 loads the file as a slave, is promoted, and asks peer 2 to continue
behind the byte 100, none of which anybody has seen. -/
theorem resumes_from_broken_sync :
    ¬ ∀ g, group.Reachable Lib.System.anyStep g → ∀ k i req, (g.members k).Asks i req →
      (g.members k).HoldsBefore i req := by
  intro h
  let acts := handshakeOf 0 ++ fullResyncOf 0 ++
    [.act 0 (.link slotTwo .cancel), .rdbSave 0, .act 1 (.slaveof (List.replicate 41 0)),
      .rdbLoad 1 0 (List.replicate 41 0), .act 1 (.slaveofNoOne true false 0)] ++ handshakeOf 1
  have hrun : ((group.run configuredGroup acts).any fun g => (g.members 1).server.iAmMaster &&
      !(g.members 1).holdings.applied slotTwo (List.replicate 40 97) 1 &&
      ((g.members 1).server.crdtMasters slotTwo).any fun p =>
        p.replState = .handshake ∧ p.psyncRequest = some ⟨List.replicate 40 97, 101⟩) = true := by
    decide +kernel
  obtain ⟨g, hg, hshape⟩ := (Option.any_eq_true _ _).1 hrun
  simp only [Bool.and_eq_true, Bool.not_eq_true'] at hshape
  obtain ⟨⟨hrole, hnot⟩, hpeer⟩ := hshape
  obtain ⟨p, hp, hstate⟩ := (Option.any_eq_true _ _).1 hpeer
  have hreach := Lib.System.reachable_of_run (.init configuredGroup_init) hg
  have hheld := h g hreach 1 slotTwo ⟨List.replicate 40 97, 101⟩
    ⟨hrole, p, hp, of_decide_eq_true hstate⟩ (by decide) 1 (by decide) (by decide)
  rw [hnot] at hheld
  cases hheld

end XredisCrdt.Peer
