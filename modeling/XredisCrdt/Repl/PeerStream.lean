import XredisCrdt.Lib.System
import XredisCrdt.Repl.Feed

/-!
# The stream of a peer decodes to what was fed

Runs of a master that feeds commands through any of the three functions, sends
its observed vector clock, feeds its own slaves, and has slaves and peers
attached by full synchronization at any time. The commands fed to all streams
are carried along as a ghost, with the number of them that each peer has missed.
-/

namespace XredisCrdt.Repl

open Proto List Option

/-! ## Following the selections -/

/-- The name `CRDT.SELECT`. -/
def crdtSelectName : Bytes := ascii "CRDT.SELECT"

def isCrdtSelect (cmd : Argv) : Bool :=
  match cmd with
  | name :: _ => strcaseeq name crdtSelectName
  | [] => false

/-- Gid and database of `CRDT.SELECT gid db`. -/
def crdtSelectArgs (cmd : Argv) : Option (Int × Int) :=
  match cmd with
  | [_, gid, db] =>
    match string2ll gid, string2ll db with
    | some g, some d => some (g, d)
    | _, _ => none
  | _ => none

/-- The database selected after a command. -/
def selectedAfter (db : Option Int) (cmd : Argv) : Option Int :=
  if isCrdtSelect cmd then (crdtSelectArgs cmd).map Prod.snd else db

/-- The commands of a stream that are no selections, each with the database that
is selected for it. -/
def trackSelect : Option Int → List Argv → List (Option Int × Argv)
  | _, [] => []
  | db, cmd :: cmds =>
    if isCrdtSelect cmd then trackSelect (selectedAfter db cmd) cmds
    else (db, cmd) :: trackSelect db cmds

/-- The database selected at the end of a stream. -/
def finalDb (db : Option Int) (cmds : List Argv) : Option Int :=
  cmds.foldl selectedAfter db

variable {argv : Argv} {cmds : List Argv} {d gid : Int}
  {fed : List (Int × Argv)} {n : PeerFeedNode} {s : FeedState}

theorem trackSelect_append (db : Option Int) (xs ys : List Argv) :
    trackSelect db (xs ++ ys) = trackSelect db xs ++ trackSelect (finalDb db xs) ys := by
  induction xs generalizing db with
  | nil => rfl
  | cons cmd xs ih =>
    by_cases h : isCrdtSelect cmd = true
    · simp [trackSelect, h, ih, finalDb]
    · simp [trackSelect, h, ih, finalDb, selectedAfter]

/-! ## The system -/

/-- Number of databases, and the bulk limit of the receiving parser, which must
at least admit numbers. -/
structure StreamConfig where
  dbnum : Nat
  maxBulk : Nat
  dbnum_le : dbnum ≤ llongMax
  maxBulk_le : maxBulk ≤ llongMax
  maxBulk_ge : 64 ≤ maxBulk

/-- The feeding functions for slaves and peers. -/
inductive FeedVariant
  | argv
  | robj
  | string
  deriving DecidableEq, Repr

/-- Call one of them with the command in the form that it takes. -/
def feedVariant (v : FeedVariant) (s : FeedState) (dictid : Int) (argv : Argv) : FeedState :=
  match v with
  | .argv => replicationFeedAllSlaves s dictid argv
  | .robj => replicationFeedRobjToAllSlaves s dictid (encodeCommand argv)
  | .string => replicationFeedStringToAllSlaves s dictid (encodeCommand argv)

/-- A node with the commands fed to all streams so far, and for each peer the
number of them that were fed before it got the stream. -/
structure PeerFeedNode where
  fs : FeedState
  fed : List (Int × Argv)
  since : List Nat

inductive PeerFeedAct
  | feed (v : FeedVariant) (dictid : Int) (argv : Argv)
  | ovc (vclock : Bytes)
  | feedSlaves (fromPeer : Bool) (dictid : Int) (argv : Argv)
  | peerChunk (dictid : Int) (buf : Bytes)
  | attach (k : Kind) (newid : Bytes)
  | bgsaveStart (k : Kind)
  | detachPeer (i : Nat)

/-- A number that fits a `long long` with its negative. -/
def IsLongLong (v : Int) : Prop := -(llongMax : Int) ≤ v ∧ v ≤ llongMax

variable (cfg : StreamConfig)

/-- A database that a caller can pass. -/
def ValidDb (d : Int) : Prop := 0 ≤ d ∧ d < cfg.dbnum

instance (d : Int) : Decidable (ValidDb cfg d) := inferInstanceAs (Decidable (_ ∧ _))

/-- A command that a caller can pass: well-formed, and not itself a selection. -/
structure Feedable (argv : Argv) : Prop where
  wf : WfCommand cfg.maxBulk argv
  not_select : isCrdtSelect argv = false

instance (argv : Argv) : Decidable (Feedable cfg argv) :=
  decidable_of_iff ((argv ≠ [] ∧ argv.length ≤ maxMultibulkLen ∧
      ∀ a ∈ argv, a.length ≤ cfg.maxBulk) ∧ isCrdtSelect argv = false)
    ⟨fun ⟨⟨h1, h2, h3⟩, h4⟩ => ⟨⟨h1, h2, h3⟩, h4⟩,
      fun h => ⟨⟨h.wf.ne_nil, h.wf.argc_le, h.wf.bulk_le⟩, h.not_select⟩⟩

def peerFeedNext (n : PeerFeedNode) : PeerFeedAct → Option PeerFeedNode
  | .feed v dictid argv =>
    if ValidDb cfg dictid ∧ Feedable cfg argv then
      some { n with fs := feedVariant v n.fs dictid argv, fed := n.fed ++ [(dictid, argv)] }
    else none
  | .ovc vclock =>
    if Feedable cfg (ovcArgv n.fs.crdtGid vclock) then
      some { n with
        fs := sendObservedVectorClock n.fs vclock
        fed := n.fed ++ [(n.fs.serverSeldb, ovcArgv n.fs.crdtGid vclock)] }
    else none
  | .feedSlaves fromPeer dictid argv =>
    -- a PING is fed with the database selected last, whatever it is
    if ValidDb cfg dictid ∨ dictid = n.fs.serverSeldb then
      some { n with fs := replicationFeedSlaves n.fs fromPeer dictid argv }
    else none
  | .peerChunk dictid buf =>
    if ValidDb cfg dictid then
      let fs := if n.fs.serverSeldb ≠ dictid then sendSelectCommandToSlave n.fs dictid else n.fs
      some { n with fs := replicationFeedSlavesFromMasterStream fs buf }
    else none
  | .attach k newid =>
    some { n with
      fs := attachFull n.fs k newid
      since := match k with
        | .server => n.since
        | .crdtServer => n.since ++ [0] }
  | .bgsaveStart k =>
    some { n with
      fs := bgsaveStart n.fs k
      since := match k with
        | .server => n.since
        | .crdtServer =>
          List.zipWith (fun l m => if l.waiting then n.fed.length else m) n.fs.peers n.since }
  | .detachPeer i =>
    some { n with
      fs := { n.fs with peers := n.fs.peers.eraseIdx i }
      since := n.since.eraseIdx i }

/-- A master before anything is attached or fed. -/
def peerFeedSystem : Lib.System PeerFeedNode PeerFeedAct where
  init n := n.fs.proxying = false ∧ n.fs.serverSeldb = -1 ∧ n.fs.crdtSeldb = -1 ∧
    n.fs.peers = [] ∧ n.since = [] ∧ n.fed = [] ∧
    IsLongLong n.fs.crdtGid
  next := peerFeedNext cfg

/-- The observed vector clock is sent only when some database is selected. -/
def OvcAfterSelect (n : PeerFeedNode) : PeerFeedAct → Prop
  | .ovc _ => n.fs.serverSeldb ≠ -1
  | _ => True

instance (n : PeerFeedNode) : (a : PeerFeedAct) → Decidable (OvcAfterSelect n a)
  | .ovc _ => inferInstanceAs (Decidable (_ ≠ _))
  | .feed .. | .feedSlaves .. | .peerChunk .. | .attach .. | .bgsaveStart _ | .detachPeer _ =>
    isTrue trivial

/-- Parsing `out` and following its selections gives `fed`, and every selection
has the sender's gid and a database of the sender. -/
def DecodesTo (gid : Int) (out : Bytes) (fed : List (Int × Argv)) : Prop :=
  trackSelect none (decodeCommands cfg.maxBulk out.length out) =
      fed.map (fun p => (some p.1, p.2)) ∧
    ∀ cmd ∈ decodeCommands cfg.maxBulk out.length out, isCrdtSelect cmd = true →
      ∃ d, crdtSelectArgs cmd = some (gid, d) ∧ 0 ≤ d ∧ d < cfg.dbnum

/-! ## One command -/

variable {cfg}

/-- `cmds` is a stream for a peer that was fed `fed`, when `seldb` is the cache of
its selected database. -/
structure Sends (cfg : StreamConfig) (gid seldb : Int) (cmds : List Argv)
    (fed : List (Int × Argv)) : Prop where
  wf : ∀ cmd ∈ cmds, WfCommand cfg.maxBulk cmd
  tracked : trackSelect none cmds = fed.map (fun p => (some p.1, p.2))
  selects : ∀ cmd ∈ cmds, isCrdtSelect cmd = true →
    ∃ d, crdtSelectArgs cmd = some (gid, d) ∧ 0 ≤ d ∧ d < cfg.dbnum
  final : seldb ≠ -1 → finalDb none cmds = some seldb

theorem Sends.decodes {seldb : Int} (h : Sends cfg gid seldb cmds fed) :
    DecodesTo cfg gid (cmds.flatMap encodeCommand) fed := by
  unfold DecodesTo
  rw [decodeCommands_encode cfg.maxBulk_le h.wf (length_le_flatMap_encodeCommand cmds)]
  exact ⟨h.tracked, h.selects⟩

theorem sends_nil (gid : Int) : Sends cfg gid (-1) [] [] where
  wf := by simp
  tracked := rfl
  selects := by simp
  final := by simp

/-- The selection as a command. -/
def crdtSelectArgv (gid dictid : Int) : Argv :=
  [crdtSelectName, ll2string gid, ll2string dictid]

theorem isCrdtSelect_crdtSelectArgv (gid dictid : Int) :
    isCrdtSelect (crdtSelectArgv gid dictid) = true := by
  show strcaseeq crdtSelectName crdtSelectName = true
  decide

theorem IsLongLong.string2ll {v : Int} (h : IsLongLong v) : string2ll (ll2string v) = some v :=
  string2ll_ll2string (by have := h.1; omega) h.2

theorem IsLongLong.length_le {v : Int} (h : IsLongLong v) : (ll2string v).length ≤ 64 := by
  have habs : v.natAbs < 2 ^ 63 := by
    have := h.1
    have := h.2
    simp only [llongMax] at *
    omega
  have hlen := Lib.Decimal.digits_length_le habs
  unfold ll2string
  split
  · rw [length_cons]
    omega
  · omega

theorem crdtSelectArgs_crdtSelectArgv {dictid : Int} (hg : IsLongLong gid)
    (hd : IsLongLong dictid) :
    crdtSelectArgs (crdtSelectArgv gid dictid) = some (gid, dictid) := by
  simp only [crdtSelectArgs, crdtSelectArgv, hg.string2ll, hd.string2ll]

theorem wfCommand_crdtSelectArgv {dictid : Int} (hg : IsLongLong gid) (hd : IsLongLong dictid) :
    WfCommand cfg.maxBulk (crdtSelectArgv gid dictid) where
  ne_nil := by simp [crdtSelectArgv]
  argc_le := by
    show 3 ≤ maxMultibulkLen
    decide
  bulk_le := by
    intro a ha
    have hname : crdtSelectName.length ≤ 64 := by decide
    have := cfg.maxBulk_ge
    simp only [crdtSelectArgv, mem_cons, not_mem_nil, or_false] at ha
    rcases ha with rfl | rfl | rfl
    · omega
    · have := hg.length_le
      omega
    · have := hd.length_le
      omega

theorem ValidDb.isLongLong (h : ValidDb cfg d) : IsLongLong d := by
  have := cfg.dbnum_le
  obtain ⟨h0, h1⟩ := h
  constructor <;> omega

/-- The stream goes on with a selection. -/
theorem Sends.select {seldb : Int} (h : Sends cfg gid seldb cmds fed) (hg : IsLongLong gid)
    (hd : ValidDb cfg d) : Sends cfg gid d (cmds ++ [crdtSelectArgv gid d]) fed where
  wf := by
    intro cmd hcmd
    rcases mem_append.mp hcmd with hold | hnew
    · exact h.wf cmd hold
    · rw [mem_singleton.mp hnew]
      exact wfCommand_crdtSelectArgv hg hd.isLongLong
  tracked := by
    rw [trackSelect_append, h.tracked]
    simp [trackSelect, isCrdtSelect_crdtSelectArgv]
  selects := by
    intro cmd hcmd hsel
    rcases mem_append.mp hcmd with hold | hnew
    · exact h.selects cmd hold hsel
    · rw [mem_singleton.mp hnew, crdtSelectArgs_crdtSelectArgv hg hd.isLongLong]
      exact ⟨d, rfl, hd.1, hd.2⟩
  final := by
    intro _
    simp [finalDb, selectedAfter, isCrdtSelect_crdtSelectArgv,
      crdtSelectArgs_crdtSelectArgv hg hd.isLongLong]

/-- The stream goes on with a command of the database selected last. -/
theorem Sends.command (h : Sends cfg gid d cmds fed) (hd : ValidDb cfg d)
    (hargv : Feedable cfg argv) : Sends cfg gid d (cmds ++ [argv]) (fed ++ [(d, argv)]) where
  wf := by
    intro cmd hcmd
    rcases mem_append.mp hcmd with hold | hnew
    · exact h.wf cmd hold
    · rw [mem_singleton.mp hnew]
      exact hargv.wf
  tracked := by
    have hlast : finalDb none cmds = some d := h.final (by have := hd.1; omega)
    rw [trackSelect_append, h.tracked, hlast]
    simp [trackSelect, hargv.not_select]
  selects := by
    intro cmd hcmd hsel
    rcases mem_append.mp hcmd with hold | hnew
    · exact h.selects cmd hold hsel
    · rw [mem_singleton.mp hnew, hargv.not_select] at hsel
      exact absurd hsel (by simp)
  final := by
    intro hne
    have hlast := h.final hne
    rw [finalDb] at hlast
    rw [finalDb, foldl_append, hlast]
    simp [selectedAfter, hargv.not_select]

/-- The commands that all streams get for one fed command. -/
def feedCommands (s : FeedState) (dictid : Int) (argv : Argv) : List Argv :=
  if s.serverSeldb ≠ dictid ∨ s.crdtSeldb ≠ dictid then
    [crdtSelectArgv s.crdtGid dictid, argv]
  else [argv]

theorem feedAllBytes_eq (s : FeedState) (dictid : Int) (argv : Argv) :
    feedAllBytes s dictid argv = (feedCommands s dictid argv).flatMap encodeCommand := by
  unfold feedAllBytes selectBytes feedCommands
  split
  · rw [crdtSelectCmd_eq]
    simp [crdtSelectArgv, crdtSelectName]
  · simp

/-- A peer that is fed a command. -/
theorem Sends.feed (h : Sends cfg s.crdtGid s.crdtSeldb cmds fed) (hg : IsLongLong s.crdtGid)
    (hd : ValidDb cfg d) (hargv : Feedable cfg argv) :
    Sends cfg s.crdtGid d (cmds ++ feedCommands s d argv) (fed ++ [(d, argv)]) := by
  unfold feedCommands
  split
  · have hsel := (h.select hg hd).command hd hargv
    rwa [append_assoc] at hsel
  · rename_i hsame
    have hc : s.crdtSeldb = d := by
      by_contra hne
      exact hsame (Or.inr hne)
    rw [hc] at h
    exact h.command hd hargv

/-! ## The invariant -/

/-- A peer that waits has got nothing. A peer that does not has got a stream for
what was fed since. -/
def PeerOk (cfg : StreamConfig) (s : FeedState) (fed : List (Int × Argv)) (l : SlaveLink)
    (since : Nat) : Prop :=
  if l.waiting then l.out = []
  else since ≤ fed.length ∧ ∃ cmds, l.out = cmds.flatMap encodeCommand ∧
    Sends cfg s.crdtGid s.crdtSeldb cmds (fed.drop since)

structure PeerFeedInv (cfg : StreamConfig) (n : PeerFeedNode) : Prop where
  master : n.fs.proxying = false
  gid : IsLongLong n.fs.crdtGid
  serverSeldb : n.fs.serverSeldb = -1 ∨ ValidDb cfg n.fs.serverSeldb
  length : n.since.length = n.fs.peers.length
  peers : ∀ (i : Nat) (l : SlaveLink) (m : Nat), n.fs.peers[i]? = some l →
    n.since[i]? = some m → PeerOk cfg n.fs n.fed l m

theorem PeerOk.feed {s' : FeedState} {l : SlaveLink} {since : Nat} (h : PeerOk cfg s fed l since)
    (hg : IsLongLong s.crdtGid) (hd : ValidDb cfg d) (hargv : Feedable cfg argv)
    (hgid : s'.crdtGid = s.crdtGid) (hsel : s'.crdtSeldb = d) :
    PeerOk cfg s' (fed ++ [(d, argv)]) (l.addReply (feedAllBytes s d argv)) since := by
  obtain ⟨waiting, out⟩ := l
  cases waiting with
  | true => simpa [PeerOk, SlaveLink.addReply] using h
  | false =>
    obtain ⟨hle, cmds, hout, hsends⟩ : since ≤ fed.length ∧ ∃ cmds,
        out = cmds.flatMap encodeCommand ∧
        Sends cfg s.crdtGid s.crdtSeldb cmds (fed.drop since) := by simpa [PeerOk] using h
    have hnext := hsends.feed hg hd hargv
    simp only [PeerOk, SlaveLink.addReply, Bool.false_eq_true, if_false, hgid, hsel]
    refine ⟨by simp; omega, cmds ++ feedCommands s d argv, ?_, ?_⟩
    · rw [hout, feedAllBytes_eq, flatMap_append]
    · rwa [drop_append_of_le_length hle]

/-- What the feeding functions add for all, and what is selected then. -/
theorem feedVariant_adds (v : FeedVariant) (d : Int) (argv : Argv)
    (hmaster : s.proxying = false) :
    Adds s (feedVariant v s d argv) (feedAllBytes s d argv) (feedAllBytes s d argv) ∧
      (feedVariant v s d argv).serverSeldb = d ∧ (feedVariant v s d argv).crdtSeldb = d := by
  have hselect := selectAll_adds s d
  cases v with
  | argv =>
    simp only [feedVariant, replicationFeedAllSlaves, hmaster, Bool.false_eq_true, if_false]
    rw [foldl_feedBoth, foldl_replySlaves, foldl_replyPeers, commandPieces_flatten]
    refine ⟨hselect.trans ⟨rfl, rfl, ?_, ?_, rfl, rfl⟩, rfl, rfl⟩
    · rw [← commandPieces_flatten]
      exact fedBy_foldl _ _
    · rw [← commandPieces_flatten]
      exact fedBy_foldl _ _
  | robj | string =>
    simp only [feedVariant, replicationFeedRobjToAllSlaves, replicationFeedStringToAllSlaves,
      hmaster, Bool.false_eq_true, if_false]
    exact ⟨hselect.trans (replicationFeedRaw_adds _ _), rfl, rfl⟩

theorem PeerFeedInv.feed (h : PeerFeedInv cfg n) (v : FeedVariant) (hd : ValidDb cfg d)
    (hargv : Feedable cfg argv) :
    PeerFeedInv cfg { n with fs := feedVariant v n.fs d argv, fed := n.fed ++ [(d, argv)] } := by
  obtain ⟨hadds, hsel⟩ := feedVariant_adds v d argv h.master
  refine ⟨?_, ?_, ?_, ?_, ?_⟩
  · exact hadds.proxying.trans h.master
  · show IsLongLong (feedVariant v n.fs d argv).crdtGid
    rw [hadds.crdtGid]
    exact h.gid
  · right
    show ValidDb cfg (feedVariant v n.fs d argv).serverSeldb
    rw [hsel.1]
    exact hd
  · show n.since.length = (feedVariant v n.fs d argv).peers.length
    rw [hadds.peers, length_map, h.length]
  · intro i l m hl hm
    replace hl : (feedVariant v n.fs d argv).peers[i]? = some l := hl
    rw [hadds.peers, getElem?_map] at hl
    obtain ⟨l₀, hl₀, rfl⟩ := map_eq_some_iff.mp hl
    exact (h.peers i l₀ m hl₀ hm).feed h.gid hd hargv hadds.crdtGid hsel.2

/-- `s'` differs from `s` only on the side of the own slaves, and selects there a
database that is valid or was selected before. -/
structure OwnSide (cfg : StreamConfig) (s s' : FeedState) : Prop where
  peers : s'.peers = s.peers
  crdtSeldb : s'.crdtSeldb = s.crdtSeldb
  crdtGid : s'.crdtGid = s.crdtGid
  proxying : s'.proxying = s.proxying
  serverSeldb : s'.serverSeldb = s.serverSeldb ∨ s'.serverSeldb = -1 ∨ ValidDb cfg s'.serverSeldb

theorem PeerFeedInv.ownSide {s' : FeedState} (h : PeerFeedInv cfg n) (hs : OwnSide cfg n.fs s') :
    PeerFeedInv cfg { n with fs := s' } where
  master := hs.proxying.trans h.master
  gid := by
    show IsLongLong s'.crdtGid
    rw [hs.crdtGid]
    exact h.gid
  serverSeldb := by
    rcases hs.serverSeldb with heq | hnew
    · show s'.serverSeldb = -1 ∨ ValidDb cfg s'.serverSeldb
      rw [heq]
      exact h.serverSeldb
    · exact hnew
  length := by
    show n.since.length = s'.peers.length
    rw [hs.peers, h.length]
  peers := by
    intro i l m hl hm
    replace hl : s'.peers[i]? = some l := hl
    rw [hs.peers] at hl
    have hok := h.peers i l m hl hm
    simp only [PeerOk, hs.crdtGid, hs.crdtSeldb] at hok ⊢
    exact hok

theorem replicationFeedSlaves_ownSide {fromPeer : Bool} (hd : ValidDb cfg d ∨ d = s.serverSeldb) :
    OwnSide cfg s (replicationFeedSlaves s fromPeer d argv) := by
  unfold replicationFeedSlaves
  split
  · exact ⟨rfl, rfl, rfl, rfl, Or.inl rfl⟩
  split
  · exact ⟨rfl, rfl, rfl, rfl, Or.inl rfl⟩
  simp only [foldl_feedServer, foldl_replySlaves]
  split
  · rename_i hne
    refine ⟨rfl, rfl, rfl, rfl, Or.inr (Or.inr ?_)⟩
    exact hd.resolve_right (fun heq => hne heq.symm)
  · exact ⟨rfl, rfl, rfl, rfl, Or.inl rfl⟩

theorem peerChunk_ownSide (buf : Bytes) (hd : ValidDb cfg d) :
    OwnSide cfg s (replicationFeedSlavesFromMasterStream
      (if s.serverSeldb ≠ d then sendSelectCommandToSlave s d else s) buf) := by
  split
  · exact ⟨rfl, rfl, rfl, rfl, Or.inr (Or.inr hd)⟩
  · exact ⟨rfl, rfl, rfl, rfl, Or.inl rfl⟩

theorem attachFull_server_ownSide (s : FeedState) (newid : Bytes) :
    OwnSide cfg s (attachFull s .server newid) :=
  ⟨rfl, rfl, rfl, rfl, Or.inl rfl⟩

theorem bgsaveStart_server_ownSide (s : FeedState) : OwnSide cfg s (bgsaveStart s .server) :=
  ⟨rfl, rfl, rfl, rfl, Or.inr (Or.inl rfl)⟩

/-- A new peer waits. -/
theorem PeerFeedInv.attachPeer (h : PeerFeedInv cfg n) (newid : Bytes) : PeerFeedInv cfg
      { n with fs := attachFull n.fs .crdtServer newid, since := n.since ++ [0] } := by
  refine ⟨h.master, h.gid, h.serverSeldb, ?_, ?_⟩
  · show (n.since ++ [0]).length = (n.fs.peers ++ [SlaveLink.mk true []]).length
    simp [h.length]
  · intro i l m hl hm
    replace hl : (n.fs.peers ++ [SlaveLink.mk true []])[i]? = some l := hl
    by_cases hi : i < n.fs.peers.length
    · rw [getElem?_append_left hi] at hl
      rw [getElem?_append_left (h.length ▸ hi)] at hm
      exact h.peers i l m hl hm
    · rw [getElem?_append_right (by omega), getElem?_singleton] at hl
      split at hl
      · obtain rfl : SlaveLink.mk true [] = l := by simpa using hl
        simp [PeerOk]
      · exact absurd hl (by simp)

/-- The waiting peers start with an empty stream and no database selected. -/
theorem PeerOk.bgsaveStart {l : SlaveLink} {since : Nat} (h : PeerOk cfg s fed l since) :
    PeerOk cfg (bgsaveStart s .crdtServer) fed { l with waiting := false }
      (if l.waiting then fed.length else since) := by
  obtain ⟨waiting, out⟩ := l
  cases waiting with
  | true =>
    obtain rfl : out = [] := by simpa [PeerOk] using h
    simp only [PeerOk, Bool.false_eq_true, if_false, if_true]
    refine ⟨Nat.le_refl _, [], rfl, ?_⟩
    rw [drop_length]
    exact sends_nil _
  | false =>
    obtain ⟨hle, cmds, hout, hsends⟩ : since ≤ fed.length ∧ ∃ cmds,
        out = cmds.flatMap encodeCommand ∧
        Sends cfg s.crdtGid s.crdtSeldb cmds (fed.drop since) := by simpa [PeerOk] using h
    simp only [PeerOk, Bool.false_eq_true, if_false]
    exact ⟨hle, cmds, hout, hsends.wf, hsends.tracked, hsends.selects, fun hne => absurd rfl hne⟩

theorem PeerFeedInv.bgsaveStartPeers (h : PeerFeedInv cfg n) : PeerFeedInv cfg { n with
      fs := Repl.bgsaveStart n.fs .crdtServer
      since := List.zipWith (fun l m => if l.waiting then n.fed.length else m)
        n.fs.peers n.since } := by
  refine ⟨h.master, h.gid, h.serverSeldb, ?_, ?_⟩
  · show (List.zipWith _ n.fs.peers n.since).length = (setupForFullResync n.fs.peers).length
    simp [setupForFullResync, h.length]
  · intro i l m hl hm
    replace hl : (setupForFullResync n.fs.peers)[i]? = some l := hl
    simp only [setupForFullResync, getElem?_map] at hl
    obtain ⟨l₀, hl₀, rfl⟩ := map_eq_some_iff.mp hl
    obtain ⟨l₁, m₀, hl₁, hm₀, rfl⟩ := getElem?_zipWith_eq_some.mp hm
    obtain rfl : l₀ = l₁ := some.inj (hl₀.symm.trans hl₁)
    exact (h.peers i l₀ m₀ hl₀ hm₀).bgsaveStart

theorem PeerFeedInv.detach (h : PeerFeedInv cfg n) (k : Nat) : PeerFeedInv cfg { n with
      fs := { n.fs with peers := n.fs.peers.eraseIdx k }, since := n.since.eraseIdx k } := by
  refine ⟨h.master, h.gid, h.serverSeldb, ?_, ?_⟩
  · show (n.since.eraseIdx k).length = (n.fs.peers.eraseIdx k).length
    simp [length_eraseIdx, h.length]
  · intro i l m hl hm
    replace hl : (n.fs.peers.eraseIdx k)[i]? = some l := hl
    rw [getElem?_eraseIdx] at hl hm
    split at hl
    · rename_i hik
      rw [if_pos hik] at hm
      exact h.peers i l m hl hm
    · rename_i hik
      rw [if_neg hik] at hm
      exact h.peers (i + 1) l m hl hm

theorem peerFeedNext_inv {n' : PeerFeedNode} {a : PeerFeedAct} (h : PeerFeedInv cfg n)
    (hok : OvcAfterSelect n a) (hnext : peerFeedNext cfg n a = some n') : PeerFeedInv cfg n' := by
  cases a with
  | feed v d argv =>
    obtain ⟨⟨hd, hargv⟩, ⟨⟩⟩ := ite_none_right_eq_some.1 hnext
    exact h.feed v hd hargv
  | ovc vclock =>
    obtain ⟨hargv, ⟨⟩⟩ := ite_none_right_eq_some.1 hnext
    exact h.feed .argv (h.serverSeldb.resolve_left hok) hargv
  | feedSlaves fromPeer d argv =>
    obtain ⟨hd, ⟨⟩⟩ := ite_none_right_eq_some.1 hnext
    exact h.ownSide (replicationFeedSlaves_ownSide hd)
  | peerChunk d buf =>
    obtain ⟨hd, ⟨⟩⟩ := ite_none_right_eq_some.1 hnext
    exact h.ownSide (peerChunk_ownSide buf hd)
  | attach k newid =>
    obtain rfl := some.inj hnext
    cases k with
    | server => exact h.ownSide (attachFull_server_ownSide n.fs newid)
    | crdtServer => exact h.attachPeer newid
  | bgsaveStart k =>
    obtain rfl := some.inj hnext
    cases k with
    | server => exact h.ownSide (bgsaveStart_server_ownSide n.fs)
    | crdtServer => exact h.bgsaveStartPeers
  | detachPeer k =>
    obtain rfl := some.inj hnext
    exact h.detach k

theorem peerFeedSystem_inv (h : (peerFeedSystem cfg).Reachable OvcAfterSelect n) :
    PeerFeedInv cfg n := by
  refine h.invariant ?_ (fun s a s' hs hok hnext => peerFeedNext_inv hs hok hnext)
  rintro s ⟨hproxy, hserver, -, hpeers, hsince, -, hgid⟩
  refine ⟨hproxy, hgid, Or.inl hserver, by rw [hpeers, hsince]; rfl, ?_⟩
  intro i l m hl
  rw [hpeers] at hl
  exact absurd hl (by simp)

/-! ## Main result -/

/-- What every peer past the start of its BGSAVE has got decodes to what was fed
since. -/
def PeerStreamsDecode (cfg : StreamConfig) (n : PeerFeedNode) : Prop :=
  ∀ (i : Nat) (l : SlaveLink), n.fs.peers[i]? = some l → l.waiting = false →
    ∃ m, n.since[i]? = some m ∧ DecodesTo cfg n.fs.crdtGid l.out (n.fed.drop m)

/-- All feeding functions add the same bytes for a command, and add them alike to
the backlogs and to the clients that do not wait. -/
def VariantsAgree (s : FeedState) : Prop :=
  ∀ (d : Int) (argv : Argv), ∃ p, ∀ v, Adds s (feedVariant v s d argv) p p

/-- In every run that sends the observed vector clock only with a database selected, what a
peer has got decodes to what was fed since its BGSAVE, and the feeding functions agree. -/
theorem peer_stream_decodes {n : PeerFeedNode}
    (h : (peerFeedSystem cfg).Reachable OvcAfterSelect n) :
    PeerStreamsDecode cfg n ∧ VariantsAgree n.fs := by
  have hinv := peerFeedSystem_inv h
  constructor
  · intro i l hl hw
    have hi : i < n.since.length := by
      rw [hinv.length]
      exact (List.getElem?_eq_some_iff.mp hl).1
    have hm : n.since[i]? = some n.since[i] := getElem?_eq_getElem hi
    have hok := hinv.peers i l _ hl hm
    simp only [PeerOk, hw, Bool.false_eq_true, if_false] at hok
    obtain ⟨-, cmds, hout, hsends⟩ := hok
    refine ⟨_, hm, ?_⟩
    rw [hout]
    exact hsends.decodes
  · intro d argv
    exact ⟨feedAllBytes n.fs d argv, fun v => (feedVariant_adds v d argv hinv.master).1⟩

/-- The default limits. -/
def defaultStreamConfig : StreamConfig where
  dbnum := 16
  maxBulk := 512 * 1024 * 1024
  dbnum_le := by decide
  maxBulk_le := by decide
  maxBulk_ge := by decide

/-- A master of gid 1 that was just started. -/
def startedFeed : PeerFeedNode := ⟨idleFeed, [], []⟩

theorem startedFeed_init : (peerFeedSystem defaultStreamConfig).init startedFeed :=
  ⟨rfl, rfl, rfl, rfl, rfl, rfl, by decide, by decide⟩

/-- A peer synchronizes fully, gets a command of database 3 and the clock. -/
def peerGetsSet : List PeerFeedAct :=
  [.attach .crdtServer [], .bgsaveStart .crdtServer,
    .feed .robj 3 [ascii "SET", ascii "k", ascii "v"], .ovc (ascii "1:1")]

theorem peer_stream_decodes_one_peer :
    ∃ n, (peerFeedSystem defaultStreamConfig).runMeeting OvcAfterSelect startedFeed peerGetsSet =
        some n ∧
      n.fed.length = 2 ∧ PeerStreamsDecode defaultStreamConfig n ∧ VariantsAgree n.fs := by
  obtain ⟨n, hrun, hlen⟩ : ∃ n, (peerFeedSystem defaultStreamConfig).runMeeting OvcAfterSelect
      startedFeed peerGetsSet = some n ∧ n.fed.length = 2 := ⟨_, rfl, rfl⟩
  have hreach := Lib.System.reachable_of_runMeeting (.init startedFeed_init) hrun
  exact ⟨n, hrun, hlen, peer_stream_decodes hreach⟩

/-- After a command of database 0 a slave of the own kind synchronizes fully, and
the clock is sent before the next command. -/
def ovcAfterSlave : List PeerFeedAct :=
  [.attach .crdtServer [], .bgsaveStart .crdtServer,
    .feed .argv 0 [ascii "SET", ascii "k", ascii "v"],
    .attach .server [], .bgsaveStart .server, .ovc (ascii "1:1")]

/-- The peer gets `CRDT.SELECT 1 -1`. -/
theorem peer_stream_selects_minus_one :
    ¬ ∀ n, (peerFeedSystem defaultStreamConfig).Reachable Lib.System.anyStep n →
      PeerStreamsDecode defaultStreamConfig n := by
  intro hall
  obtain ⟨n, hrun⟩ : ∃ n, (peerFeedSystem defaultStreamConfig).run startedFeed ovcAfterSlave =
      some n := ⟨_, rfl⟩
  have hdec := hall n (Lib.System.reachable_of_run (.init startedFeed_init) hrun)
  obtain rfl := some.inj hrun
  obtain ⟨m, -, -, hselects⟩ := hdec 0 _ rfl rfl
  obtain ⟨d, hargs, hd, -⟩ := hselects (crdtSelectArgv 1 (-1)) (by decide +kernel) (by decide)
  have hminus : crdtSelectArgs (crdtSelectArgv 1 (-1)) = some (1, -1) := by decide
  rw [hminus, some.injEq, Prod.mk.injEq] at hargs
  rw [← hargs.2] at hd
  exact absurd hd (by decide)

end XredisCrdt.Repl
