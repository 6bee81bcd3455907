import XredisCrdt.Net.Pair

/-!
# The stream between a master and its slave

Whatever the master does, its slave is sent whole units, and reads them as a link
at rest does. `WireInv` is this invariant, and there is one lemma for each kind of
act: a series of calls of the feeding functions, a read from a peer, and a read of
the slave.
-/

namespace XredisCrdt.Net

open Proto Repl List FeedOp

variable {σ : Type} {cfg : PairConfig σ}

/-- Units that the slave can be sent. -/
structure Sendable (cfg : PairConfig σ) (us : List (List Argv)) : Prop where
  units : ∀ u ∈ us, IsUnit cfg.procs u
  wf : ∀ argv ∈ us.flatten, WfCommand cfg.maxBulk argv
  roles : ∀ argv ∈ us.flatten, (role cfg.procs argv).isSome

theorem sendable_nil (cfg : PairConfig σ) : Sendable cfg [] :=
  ⟨forall_mem_nil _, forall_mem_nil _, forall_mem_nil _⟩

theorem Sendable.append {us vs : List (List Argv)} (hu : Sendable cfg us)
    (hv : Sendable cfg vs) : Sendable cfg (us ++ vs) := by
  refine ⟨forall_mem_append.2 ⟨hu.units, hv.units⟩, ?_, ?_⟩
  · rw [flatten_append]
    exact forall_mem_append.2 ⟨hu.wf, hv.wf⟩
  · rw [flatten_append]
    exact forall_mem_append.2 ⟨hu.roles, hv.roles⟩

theorem sendable_one {u : List Argv} (hu : IsUnit cfg.procs u)
    (h : ∀ argv ∈ u, WfCommand cfg.maxBulk argv ∧ (role cfg.procs argv).isSome) :
    Sendable cfg [u] := by
  refine ⟨forall_mem_singleton.2 hu, ?_, ?_⟩
  · rw [flatten_singleton]
    exact fun argv ha => (h argv ha).1
  · rw [flatten_singleton]
    exact fun argv ha => (h argv ha).2

theorem sendable_plain {argv : Argv} (hwf : WfCommand cfg.maxBulk argv)
    (hplain : role cfg.procs argv = some .plain) : Sendable cfg [[argv]] :=
  sendable_one (isUnit_plain hplain) (forall_mem_singleton.2 ⟨hwf, by rw [hplain]; rfl⟩)

/-- The link of the slave, whose stream starts at the offset `start`. -/
def PairConfig.slaveLink (cfg : PairConfig σ) (start : Int) {us : List (List Argv)}
    (h : Sendable cfg us) : LinkConfig σ where
  procs := cfg.procs
  peer := none
  maxBulk := cfg.maxBulk
  stream := us.flatten
  start := start
  carries := ⟨cfg.maxBulk_le, h.wf, fun argv ha => linkCommand_of_role (h.roles argv ha)⟩

/-- The slave has been sent the units `us`. -/
structure WireInv (cfg : PairConfig σ) (start : Int) (us : List (List Argv)) (p : Pair σ) :
    Prop where
  sendable : Sendable cfg us
  out : ∃ rest, p.master.feed.slaves = ⟨false, encoded us.flatten⟩ :: rest
  topLevel : p.master.feed.proxying = false
  masterGid : p.master.feed.crdtGid = cfg.gid
  slaveGid : p.slave.node.feed.crdtGid = cfg.gid
  links : ∀ g (hg : g ∈ cfg.peers), ReplayLink (cfg.link hg) (p.master.view g)
  dbs : ∀ g ∈ cfg.peers, ValidDb cfg.toStreamConfig (p.master.view g).node.c.db
  slave : ReplayLink (cfg.slaveLink start sendable) p.slave

section Steps

variable {start : Int} {us : List (List Argv)} {p : Pair σ}

theorem WireInv.out_eq (h : WireInv cfg start us p) : p.out = encoded us.flatten := by
  obtain ⟨rest, hout⟩ := h.out
  rw [Pair.out, hout]
  rfl

theorem WireInv.sent_eq (h : WireInv cfg start us p) : p.sent cfg = us.flatten := by
  rw [Pair.sent, h.out_eq]
  exact decodeCommands_encode cfg.maxBulk_le h.sendable.wf (length_le_flatMap_encodeCommand _)

theorem WireInv.slaves_ne_nil (h : WireInv cfg start us p) : p.master.feed.slaves ≠ [] := by
  obtain ⟨rest, hout⟩ := h.out
  rw [hout]
  simp

variable {lc : LinkConfig σ} {s : LinkState σ} {server : Server} {vs : List (List Argv)}

/-- The rest of the server does not matter for a link at rest. -/
theorem ReplayLink.env (h : ReplayLink lc s) {peers : Int → Option Peer} (feed : FeedState)
    (world : σ) (hsame : SameLink s.node server peers) :
    ReplayLink lc { s with node := { s.node with
      server := server, peers := peers, feed := feed, world := world } } :=
  ⟨h.inv.env feed world hsame, ⟨h.txn.multi, h.txn.queue, h.txn.clean, h.txn.closed⟩, h.quiet⟩

/-- The stream of the slave goes on. -/
theorem ReplayLink.slaveExtend {hu : Sendable cfg us} (h : ReplayLink (cfg.slaveLink start hu) s)
    (huv : Sendable cfg (us ++ vs)) : ReplayLink (cfg.slaveLink start huv) s :=
  h.extend rfl rfl rfl (flatten_append ..) rfl

/-- The first slave gets what is added. -/
theorem out_of_adds {f f' : FeedState} {b q : Bytes} {rest : List SlaveLink}
    (h : f.slaves = ⟨false, b⟩ :: rest) (hadds : Adds f f' (encoded vs.flatten) q) :
    ∃ rest', f'.slaves = ⟨false, b ++ encoded vs.flatten⟩ :: rest' := by
  rw [hadds.slaves, h]
  exact ⟨_, rfl⟩

/-- Calls of feeding functions. -/
theorem WireInv.feed (h : WireInv cfg start us p) {f' : FeedState} {q : Bytes}
    (hvs : Sendable cfg vs) (hadds : Adds p.master.feed f' (encoded vs.flatten) q) (w : σ) :
    WireInv cfg start (us ++ vs) { p with master := { p.master with feed := f', world := w } } := by
  obtain ⟨rest, hout⟩ := h.out
  refine ⟨h.sendable.append hvs, ?_, hadds.proxying.trans h.topLevel,
    hadds.crdtGid.trans h.masterGid, h.slaveGid, ?_, h.dbs, h.slave.slaveExtend _⟩
  · rw [flatten_append, encoded_append]
    exact out_of_adds hout hadds
  · intro g hg
    exact (h.links g hg).env f' w ⟨rfl, rfl, rfl⟩

theorem forwardFeed_fields (f : FeedState) (select : Option Int) (forward : Bool) (chunk : Bytes) :
    (forwardFeed f select forward chunk).crdtGid = f.crdtGid ∧
      (forwardFeed f select forward chunk).servers.crdtServer = f.servers.crdtServer ∧
      (forwardFeed f select forward chunk).crdtSeldb = f.crdtSeldb := by
  unfold forwardFeed
  split
  · exact ⟨rfl, rfl, rfl⟩
  · unfold selectSlaves
    cases select with
    | none => exact ⟨rfl, rfl, rfl⟩
    | some d =>
      simp only [Option.elim_some]
      split
      · exact ⟨rfl, rfl, rfl⟩
      · exact ⟨rfl, rfl, rfl⟩

/-- A read of the slave. -/
theorem WireInv.slaveRead (h : WireInv cfg start us p) {k : Nat}
    (hread : CanRead p.slave p.out.length k)
    (hopen : OpenFor cfg.procs p.slave.node (dueCommands (p.sent cfg) p.slave.node.trace.length
      (p.slave.received + k))) :
    ∃ vs, ReadEffect (cfg.slaveLink start h.sendable) cfg.gidOf vs p.slave.node
        (readQueryFromClient cfg.procs p.slave.node ((p.out.drop p.slave.received).take k)) ∧
      WireInv cfg start us { p with slave :=
        ⟨readQueryFromClient cfg.procs p.slave.node ((p.out.drop p.slave.received).take k),
          p.slave.received + k⟩ } := by
  rw [h.sent_eq] at hopen
  rw [h.out_eq] at hread ⊢
  obtain ⟨hlink, vs, heff⟩ := h.slave.read cfg.gidLaw h.sendable.roles hread hopen
    (by rw [h.slaveGid]; exact ne_neg_one_of_checkGid cfg.gid_ok)
  refine ⟨vs, heff, h.sendable, h.out, h.topLevel, h.masterGid, ?_, h.links, h.dbs, hlink⟩
  have hfeed := heff.feed
  show (readQueryFromClient cfg.procs p.slave.node _).feed.crdtGid = cfg.gid
  refine (congrArg FeedState.crdtGid hfeed).trans ?_
  rw [(forwardFeed_fields _ _ _ _).1]
  exact (countAll_crdt p.slave.node vs).2.trans h.slaveGid

/-- The units that a read from a peer adds: what it has completed, behind a
selection if there is one. -/
def chunkUnits (f : FeedState) (db : Int) (vs : List (List Argv)) :
    List (List Argv) :=
  if vs = [] then [] else (if f.serverSeldb ≠ db then [[selectArgv db]] else []) ++ vs

theorem IsUnit.ne_nil {P : Procs σ} {u : List Argv} (h : IsUnit P u) : u ≠ [] := by
  rintro rfl
  have := congrArg Txn.done (h [])
  exact absurd this (by simp)

theorem encoded_eq_nil {cmds : List Argv} (h : encoded cmds = []) : cmds = [] := by
  cases cmds with
  | nil => rfl
  | cons cmd cmds =>
    rw [encoded, flatMap_cons, append_eq_nil_iff] at h
    exact absurd h.1 (encodeCommand_ne_nil cmd)

/-- The feed of a chunk that was read from a peer. -/
theorem forwardFeed_adds (f : FeedState) (db : Int) (hunits : ∀ u ∈ vs, IsUnit cfg.procs u) :
    Adds f (forwardFeed f (some db) true (encoded vs.flatten))
      (encoded (chunkUnits f db vs).flatten) [] ∧
      (forwardFeed f (some db) true (encoded vs.flatten)).serverSeldb =
        if vs = [] then f.serverSeldb else db := by
  unfold forwardFeed chunkUnits
  by_cases hnil : vs = []
  · subst hnil
    exact ⟨.refl f, rfl⟩
  · have hne : encoded vs.flatten ≠ [] := by
      intro henc
      obtain ⟨u, vs', rfl⟩ := exists_cons_of_ne_nil hnil
      have := encoded_eq_nil henc
      rw [flatten_cons, append_eq_nil_iff] at this
      exact (hunits u (by simp)).ne_nil this.1
    rw [if_neg (by simp [hne]), if_neg hnil, if_neg hnil, flatten_append, encoded_append,
      selectSlaves, Option.elim_some]
    have hchunk : ∀ f' : FeedState, Adds f'
        (replicationFeedSlavesFromMasterStream f' (encoded vs.flatten)) (encoded vs.flatten) [] :=
      fun f' => ⟨rfl, (SlaveLink.map_addReply_nil _).symm, fedBy_one _ _, fedBy_nil _, rfl, rfl⟩
    by_cases hdb : f.serverSeldb = db
    · rw [if_neg (by simpa using hdb), if_neg (by simpa using hdb)]
      exact ⟨hchunk f, hdb⟩
    · rw [if_pos hdb, if_pos hdb]
      have hsel :
          Adds f (sendSelectCommandToSlave f db) (encoded [[selectArgv db]].flatten) [] := by
        have henc : encoded [[selectArgv db]].flatten = selectCmd db := by
          rw [selectCmd_eq]
          simp [encoded, selectArgv]
        rw [henc]
        exact ⟨rfl, (SlaveLink.map_addReply_nil _).symm, fedBy_one _ _, fedBy_nil _, rfl, rfl⟩
      exact ⟨hsel.trans (hchunk _), rfl⟩

/-- The commands of the units that a link has completed are commands of its
stream. -/
theorem mem_stream_of_done (h : LinkInv lc s) {u : List Argv} {argv : Argv}
    (hu : u ∈ (s.node.txn lc.procs).done) (hargv : argv ∈ u) : argv ∈ lc.stream := by
  have hcmds := txnOf_commands lc.procs (s.node.trace.map (·.argv))
  have hmem : argv ∈ s.node.trace.map (·.argv) := by
    rw [← hcmds]
    exact mem_append_left _ (mem_flatten.mpr ⟨u, hu, hargv⟩)
  rw [h.inv.argvs] at hmem
  exact mem_of_mem_take hmem

theorem sendable_chunkUnits {f : FeedState} {db : Int} (h : LinkInv lc s)
    (hprocs : lc.procs = cfg.procs) (hmax : lc.maxBulk = cfg.maxBulk)
    (hroles : ∀ argv ∈ lc.stream, (role cfg.procs argv).isSome)
    (hdone : ∀ u ∈ vs, u ∈ (s.node.txn lc.procs).done) (hdb : ValidDb cfg.toStreamConfig db) :
    Sendable cfg (chunkUnits f db vs) := by
  have hvs : Sendable cfg vs := by
    refine ⟨?_, ?_, ?_⟩
    · intro u hu
      rw [← hprocs]
      exact (txnOf_ok lc.procs _).done u (hdone u hu)
    · intro argv hargv
      obtain ⟨u, hu, ha⟩ := mem_flatten.mp hargv
      rw [← hmax]
      exact lc.carries.wf argv (mem_stream_of_done h (hdone u hu) ha)
    · intro argv hargv
      obtain ⟨u, hu, ha⟩ := mem_flatten.mp hargv
      exact hroles argv (mem_stream_of_done h (hdone u hu) ha)
  unfold chunkUnits
  split
  · exact sendable_nil cfg
  · refine Sendable.append ?_ hvs
    split
    · exact sendable_plain (wfCommand_selectArgv hdb.isLongLong) (role_selectArgv db)
    · exact sendable_nil cfg

theorem runAll_validDb (s : σ × Int) (cmds : List Argv)
    (h : ValidDb cfg.toStreamConfig s.2) :
    ValidDb cfg.toStreamConfig (runAll cfg.procs s cmds).2 := by
  induction cmds generalizing s with
  | nil => exact h
  | cons argv cmds ih => exact ih _ (cfg.run_db _ _ _ h)

/-- What a read completes are units. -/
theorem ReadEffect.units {gidOf : Argv → Option Int} {n n' : Node σ}
    (h : ReadEffect lc gidOf vs n n') :
    ∀ u ∈ vs, IsUnit lc.procs u := by
  intro u hu
  refine (txnOf_ok lc.procs (n'.trace.map (·.argv))).done u ?_
  rw [show (txnOf lc.procs (n'.trace.map (·.argv))).done = _ from h.done]
  exact mem_append_right _ hu

/-- A link of a peer is stored after it has completed the units `vs`. -/
theorem WireInv.store (h : WireInv cfg start us p) {g : Int} (hg : g ∈ cfg.peers)
    (heff : ReadEffect (cfg.link hg) cfg.gidOf vs (p.master.view g).node s.node)
    (hlink : ReplayLink (cfg.link hg) s) :
    WireInv cfg start (us ++ chunkUnits p.master.feed (p.master.view g).node.c.db vs)
      { p with master := p.master.store g s } := by
  have hfeed : s.node.feed = forwardFeed p.master.feed (some (p.master.view g).node.c.db) true
      (encoded vs.flatten) := heff.feed
  have hpeers : s.node.peers = p.master.peers := heff.peers
  have hserver : s.node.server = p.master.server := heff.server
  have hdone : ∀ u ∈ vs, u ∈ (s.node.txn cfg.procs).done := by
    intro u hu
    rw [show (s.node.txn cfg.procs).done = _ from heff.done]
    exact mem_append_right _ hu
  obtain ⟨hadds, -⟩ := forwardFeed_adds p.master.feed (p.master.view g).node.c.db heff.units
  have hsend : Sendable cfg (chunkUnits p.master.feed (p.master.view g).node.c.db vs) :=
    sendable_chunkUnits hlink.inv rfl rfl (cfg.roles g hg) hdone (h.dbs g hg)
  rw [← hfeed] at hadds
  obtain ⟨rest, hout⟩ := h.out
  refine ⟨h.sendable.append hsend, ?_, hadds.proxying.trans h.topLevel,
    hadds.crdtGid.trans h.masterGid, h.slaveGid, ?_, ?_, h.slave.slaveExtend _⟩
  · rw [flatten_append, encoded_append]
    exact out_of_adds hout hadds
  · intro g' hg'
    show ReplayLink (cfg.link hg') ((p.master.store g s).view g')
    by_cases heq : g' = g
    · subst heq
      rw [Master.view_store_self _ _ hserver]
      exact hlink
    · rw [Master.view_store_other _ _ heq]
      exact (h.links g' hg').env _ _ ⟨rfl, rfl, by rw [hpeers]; rfl⟩
  · intro g' hg'
    show ValidDb _ ((p.master.store g s).view g').node.c.db
    by_cases heq : g' = g
    · subst heq
      rw [Master.view_store_self _ _ hserver]
      have hdata := congrArg Prod.snd heff.data
      rw [show s.node.c.db = _ from hdata]
      exact runAll_validDb _ _ (h.dbs g' hg')
    · rw [Master.view_store_other _ _ heq]
      exact h.dbs g' hg'

/-- A read from a peer. -/
theorem WireInv.peerRead (h : WireInv cfg start us p) {g : Int} (hg : g ∈ cfg.peers) {k : Nat}
    (hread : CanRead (p.master.view g) (encoded (cfg.stream g)).length k)
    (hopen : OpenFor cfg.procs (p.master.view g).node (dueCommands (cfg.stream g) (p.master.view
      g).node.trace.length ((p.master.view g).received + k))) :
    ∃ vs s, p.master.read cfg.procs g
        (((encoded (cfg.stream g)).drop (p.master.links g).received).take k) = p.master.store g s ∧
      ReadEffect (cfg.link hg) cfg.gidOf vs (p.master.view g).node s.node ∧
      ReplayLink (cfg.link hg) s ∧ s.received = (p.master.view g).received + k := by
  obtain ⟨hlink, vs, heff⟩ := (h.links g hg).read cfg.gidLaw (cfg.roles g hg) hread hopen
    (by show p.master.feed.crdtGid ≠ -1; rw [h.masterGid]; exact ne_neg_one_of_checkGid cfg.gid_ok)
  refine ⟨vs, _, ?_, heff, hlink, rfl⟩
  have hlen : (((encoded (cfg.stream g)).drop (p.master.links g).received).take k).length = k := by
    have hall : (p.master.links g).received + k ≤ (encoded (cfg.stream g)).length := hread.2.2
    rw [length_take, length_drop]
    omega
  unfold Master.read
  rw [hlen]
  rfl

end Steps

/-! ## Units of the feeding functions -/

section Units

variable {f : FeedState}

theorem commandsOf_append (ops ops' : List FeedOp) :
    commandsOf f (ops ++ ops') = commandsOf f ops ++ commandsOf (applyAll f ops) ops' := by
  induction ops generalizing f with
  | nil => rfl
  | cons op ops ih =>
    rw [cons_append, commandsOf, ih, commandsOf]
    simp [applyAll]

/-- A state in which the feeding functions of a master with slaves can be called. -/
structure Feeding (cfg : PairConfig σ) (f : FeedState) : Prop where
  topLevel : f.proxying = false
  slaves : f.slaves ≠ []
  gid : f.crdtGid = cfg.gid

theorem WireInv.feeding {start : Int} {us : List (List Argv)} {p : Pair σ}
    (h : WireInv cfg start us p) : Feeding cfg p.master.feed :=
  ⟨h.topLevel, h.slaves_ne_nil, h.masterGid⟩

theorem Feeding.applyAll (h : Feeding cfg f) (ops : List FeedOp) :
    Feeding cfg (Net.applyAll f ops) := by
  have hadds := applyAll_adds ops h.topLevel h.slaves
  exact ⟨hadds.proxying.trans h.topLevel, slaves_ne_nil_of_adds hadds h.slaves,
    hadds.crdtGid.trans h.gid⟩

variable {argv : Argv}

/-- The selection of any number is one the slave can be sent. -/
theorem sendable_select_of_isLongLong (hf : Feeding cfg f) (op : FeedOp) (h : IsLongLong op.dictid)
    (hargv : argv ∈ op.select f) :
    WfCommand cfg.maxBulk argv ∧ role cfg.procs argv = some .plain := by
  cases op with
  | all v d a =>
    have heq : argv = crdtSelectArgv f.crdtGid d := by
      simp only [select, mem_ite_nil_right, mem_singleton] at hargv
      exact hargv.2
    rw [heq, hf.gid]
    exact ⟨wfCommand_crdtSelectArgv (isLongLong_of_checkGid cfg.gid_ok) h, cfg.select_role _ _⟩
  | slaves d a =>
    have heq : argv = selectArgv d := by
      simp only [select, mem_ite_nil_right, mem_singleton] at hargv
      exact hargv.2
    rw [heq]
    exact ⟨wfCommand_selectArgv h, role_selectArgv d⟩

theorem sendable_select (hf : Feeding cfg f) (op : FeedOp)
    (h : op.select f = [] ∨ ValidDb cfg.toStreamConfig op.dictid) (hargv : argv ∈ op.select f) :
    WfCommand cfg.maxBulk argv ∧ role cfg.procs argv = some .plain := by
  rcases h with hnil | hdb
  · rw [hnil] at hargv
    exact absurd hargv (by simp)
  · exact sendable_select_of_isLongLong hf op hdb.isLongLong hargv

theorem sendable_singles {cmds : List Argv}
    (h : ∀ argv ∈ cmds, WfCommand cfg.maxBulk argv ∧ role cfg.procs argv = some .plain) :
    Sendable cfg (cmds.map fun argv => [argv]) := by
  induction cmds with
  | nil => exact sendable_nil cfg
  | cons argv cmds ih =>
    have hone := h argv (by simp)
    exact (sendable_plain hone.1 hone.2).append (ih fun a ha => h a (by simp [ha]))

theorem flatten_singles (cmds : List Argv) :
    (cmds.map fun argv => [argv]).flatten = cmds := by
  induction cmds with
  | nil => rfl
  | cons argv cmds ih => rw [map_cons, flatten_cons, ih]; rfl

/-- The units that one call adds. -/
def FeedOp.units (f : FeedState) (op : FeedOp) : List (List Argv) :=
  (op.select f ++ [op.argv]).map fun argv => [argv]

theorem FeedOp.units_flatten (op : FeedOp) : (op.units f).flatten = commandsOf f [op] := by
  rw [units, flatten_singles]
  rfl

theorem sendable_units {op : FeedOp} (hf : Feeding cfg f)
    (hsel : op.select f = [] ∨ ValidDb cfg.toStreamConfig op.dictid)
    (hwf : WfCommand cfg.maxBulk op.argv) (hplain : role cfg.procs op.argv = some .plain) :
    Sendable cfg (op.units f) := by
  exact sendable_singles (forall_mem_append.2 ⟨fun argv hargv => sendable_select hf op hsel hargv,
    forall_mem_singleton.2 ⟨hwf, hplain⟩⟩)

/-- The commands of a client, and the selections before them. -/
theorem sendable_commandsOf {ops : List FeedOp} (hf : Feeding cfg f) (h : ∀ op ∈ ops, cfg.OpOk op)
    (hargv : argv ∈ commandsOf f ops) :
    WfCommand cfg.maxBulk argv ∧ role cfg.procs argv = some .plain := by
  induction ops generalizing f with
  | nil => exact absurd hargv (by simp [commandsOf])
  | cons op ops ih =>
    have hop := h op (by simp)
    rw [commandsOf, mem_append, mem_cons] at hargv
    rcases hargv with hsel | hown | hrest
    · exact sendable_select hf op (.inr hop.dictid) hsel
    · rw [hown]
      exact ⟨hop.wf, hop.plain⟩
    · exact ih (hf.applyAll [op]) (fun o ho => h o (by simp [ho])) hrest

/-- The units of a transaction: the selection before it and its block. -/
def execUnits (cfg : PairConfig σ) (f : FeedState) (d : Int) (body : List FeedOp) (d' : Int) :
    List (List Argv) :=
  let first := FeedOp.all .argv d (multiArgv cfg.gid)
  let last := FeedOp.all .argv d' (execArgv cfg.gid)
  let f' := first.apply f
  (first.select f).map (fun argv => [argv]) ++
    [multiArgv cfg.gid :: (commandsOf f' body ++ last.select (applyAll f' body)) ++
      [execArgv cfg.gid]]

theorem execUnits_flatten (d : Int) (body : List FeedOp) (d' : Int) :
    (execUnits cfg f d body d').flatten = commandsOf f (cfg.execOps d body d') := by
  have hops : cfg.execOps d body d' = .all .argv d (multiArgv cfg.gid) ::
      (body ++ [.all .argv d' (execArgv cfg.gid)]) := rfl
  rw [execUnits, flatten_append, flatten_singles, hops, commandsOf, commandsOf_append]
  simp [commandsOf, argv]

theorem sendable_execUnits (hf : Feeding cfg f) {d d' : Int} {body : List FeedOp}
    (hd : ValidDb cfg.toStreamConfig d) (hbody : ∀ op ∈ body, cfg.OpOk op)
    (hd' : ValidDb cfg.toStreamConfig d') : Sendable cfg (execUnits cfg f d body d') := by
  have hf₁ := hf.applyAll [.all .argv d (multiArgv cfg.gid)]
  have hinner : ∀ argv ∈ commandsOf (apply f (.all .argv d (multiArgv cfg.gid))) body ++
      select (applyAll (apply f (.all .argv d (multiArgv cfg.gid))) body)
        (.all .argv d' (execArgv cfg.gid)),
      WfCommand cfg.maxBulk argv ∧ role cfg.procs argv = some .plain := by
    intro argv hargv
    rcases mem_append.mp hargv with h | h
    · exact sendable_commandsOf hf₁ hbody h
    · exact sendable_select (hf₁.applyAll body) (.all .argv d' _) (.inr hd') h
  refine (sendable_singles fun argv h => sendable_select hf (.all .argv d _) (.inr hd) h).append
    (sendable_one ?_ ?_)
  · exact isUnit_block (role_multiArgv _) (fun argv h => (hinner argv h).2)
      (role_execArgv cfg.gid_ok)
  · intro argv hargv
    rw [mem_append, mem_cons, mem_singleton] at hargv
    rcases hargv with (rfl | hargv) | rfl
    · exact ⟨wfCommand_multiArgv, by rw [role_multiArgv]; rfl⟩
    · exact ⟨(hinner argv hargv).1, by rw [(hinner argv hargv).2]; rfl⟩
    · exact ⟨wfCommand_execArgv, by rw [role_execArgv cfg.gid_ok]; rfl⟩

end Units

end XredisCrdt.Net
