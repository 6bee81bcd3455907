import XredisCrdt.Lib.System
import XredisCrdt.Net.PairWire

/-!
# A slave tracks the history of its master for the peers

The bytes that a master feeds to `crdtServer`, and the offsets of its peers, are
not sent to its slave: the slave reconstructs both from the gids that the commands
of its stream leave in the client of the master.
-/

namespace XredisCrdt.Net

open Proto Repl List Option PairConfig

variable {σ : Type}

/-! ## Initial states -/

/-- The history of the master for the peers. -/
def Pair.masterCrdt (p : Pair σ) : ReplServer := p.master.feed.servers.crdtServer

/-- The same history, as the slave has reconstructed it. -/
def Pair.slaveCrdt (p : Pair σ) : ReplServer := p.slave.node.feed.servers.crdtServer

/-- `srv` is `srv₀` after the bytes `p`. -/
structure Held (srv₀ : ReplServer) (hist : Int → UInt8) (p : Bytes) (srv : ReplServer) : Prop where
  allocated : srv.replBacklog.isSome
  sound : Sound srv (extend hist srv₀.masterReplOffset p)
  offset : srv.masterReplOffset = srv₀.masterReplOffset + p.length
  size : srv.replBacklogSize = srv₀.replBacklogSize
  histlen : srv.replBacklogHistlen =
    min srv₀.replBacklogSize (srv₀.replBacklogHistlen + p.length)

theorem Held.fed {srv₀ srv srv' : ReplServer} {hist : Int → UInt8} {p q : Bytes}
    (h : Held srv₀ hist p srv) (hf : FedBy srv q srv') : Held srv₀ hist (p ++ q) srv' := by
  obtain ⟨mem, hmem⟩ := isSome_iff_exists.mp h.allocated
  obtain ⟨pieces, hq, hrun⟩ : ∃ pieces : List Bytes, pieces.flatten = q ∧
      feedChunks srv pieces = some srv' := by
    simpa only [FedBy, hmem] using hf
  have hinv := h.sound.inv mem hmem
  obtain ⟨srv₁, mem₁, hrun₁, hmem₁, hinv₁, hoff₁, -⟩ := feedChunks_inv _ pieces hmem hinv
  obtain rfl : srv' = srv₁ := some.inj (hrun.symm.trans hrun₁)
  obtain ⟨hsize, hlen⟩ := feedChunks_histlen pieces hmem hinv hrun
  rw [hq] at hinv₁ hoff₁ hlen
  refine ⟨by rw [hmem₁]; rfl, ⟨?_, ?_⟩, ?_, hsize.trans h.size, ?_⟩
  · have := hinv₁.idx_lt
    omega
  · intro mem' hmem'
    obtain rfl : mem₁ = mem' := some.inj (hmem₁.symm.trans hmem')
    rw [h.offset, extend_extend] at hinv₁
    exact hinv₁
  · rw [hoff₁, h.offset, length_append]
    push_cast
    ring
  · rw [hlen, h.size, h.histlen, length_append]
    omega

/-! ## The gids of units -/

section Gids

variable {P : Procs σ} {gidOf : Argv → Option Int}

theorem unitGid_plain {argv : Argv} (h : role P argv = some .plain) :
    unitGid P gidOf [argv] = gidOf argv := by
  simp [unitGid, h]

/-- Units that all leave the same gid. -/
theorem gidBytes_const {vs : List (List Argv)} {gid : Option Int}
    (h : ∀ u ∈ vs, unitGid P gidOf u = gid) (g : Int) :
    gidBytes P gidOf g vs = if gid = some g then encoded vs.flatten else [] := by
  induction vs with
  | nil => split <;> rfl
  | cons u vs ih =>
    rw [gidBytes_cons, h u (by simp), ih fun v hv => h v (by simp [hv])]
    split
    · rw [flatten_cons, encoded_append]
    · rfl

/-- What a link of a peer has completed leaves the gid of the peer, if there is no
eviction in it. -/
theorem unitGid_done {g : Int} {stream cmds : List Argv} (hpre : cmds <+: stream)
    (hlink : ∀ argv ∈ stream, LinkCommand P (some g) argv)
    (hroles : ∀ argv ∈ stream, (role P argv).isSome) (hnested : WellNested P stream)
    (hcarry : ∀ argv ∈ stream, role P argv = some .plain → gidOf argv = some g ∨
      isEviction argv = true) (hevict : ∀ argv ∈ cmds, isEviction argv = false) :
    ∀ u ∈ (txnOf P cmds).done, unitGid P gidOf u = some g := by
  induction cmds using List.reverseRecOn with
  | nil => exact fun u hu => absurd hu (by simp [txnOf])
  | append_singleton cmds argv ih =>
    obtain ⟨rest, hrest⟩ := hpre
    have hmem : argv ∈ stream := by
      rw [← hrest]
      simp
    have hold := ih ⟨argv :: rest, by rw [← hrest]; simp⟩ fun a ha => hevict a (by simp [ha])
    rw [txnOf_snoc, Txn.step]
    cases hrole : role P argv with
    | none => exact absurd (hroles argv hmem) (by simp [hrole])
    | some ρ =>
      cases ρ with
      | opens => exact hold
      | closes g' =>
        have hcur := hnested cmds argv rest g' (by rw [← hrest]; simp) hrole
        have hg : g' = g := by
          cases role_spec hrole with
          | closes wf proc gid =>
            obtain ⟨name, a, rfl, ha, -⟩ := execGid_eq_some gid
            exact (hlink _ hmem).exec_gid _ g a g' rfl wf.known proc rfl ha
        refine forall_mem_append.2 ⟨hold, forall_mem_singleton.2 ?_⟩
        rw [unitGid_closes hcur hrole, hg]
      | plain =>
        have hgid : gidOf argv = some g := by
          rcases hcarry argv hmem hrole with h | h
          · exact h
          · exact absurd h (by simp [hevict argv (by simp)])
        dsimp only
        split
        · refine forall_mem_append.2 ⟨hold, forall_mem_singleton.2 ?_⟩
          rw [unitGid_plain hrole, hgid]
        · exact hold

end Gids

/-! ## Acts of the master -/

variable {cfg : PairConfig σ}

/-- The bytes of the units with a gid. -/
def PairConfig.bytesFor (cfg : PairConfig σ) (g : Int) (us : List (List Argv)) : Bytes :=
  gidBytes cfg.procs cfg.gidOf g us

theorem PairConfig.bytesFor_append (g : Int) (us vs : List (List Argv)) :
    cfg.bytesFor g (us ++ vs) = cfg.bytesFor g us ++ cfg.bytesFor g vs :=
  gidBytes_append g us vs

/-- The units `vs` of some calls: what the peers get has the own gid, and nothing
has the gid of a peer. -/
structure Balanced (cfg : PairConfig σ) (f : FeedState) (ops : List FeedOp)
    (vs : List (List Argv)) : Prop where
  sendable : Sendable cfg vs
  flatten : vs.flatten = commandsOf f ops
  own : cfg.bytesFor cfg.gid vs = encoded (peerCommandsOf f ops)
  others : ∀ g ∈ cfg.peers, cfg.bytesFor g vs = []

section Feeds

variable {f : FeedState}

/-- A command for all has the own gid, a command for the slaves none. -/
def FeedOp.gid (cfg : PairConfig σ) (op : FeedOp) : Option Int :=
  if op.isAll then some cfg.gid else none

theorem select_gid (hf : Feeding cfg f) (op : FeedOp)
    (h : op.select f = [] ∨ ValidDb cfg.toStreamConfig op.dictid) {argv : Argv}
    (hargv : argv ∈ op.select f) : cfg.gidOf argv = op.gid cfg := by
  rcases h with hnil | hdb
  · rw [hnil] at hargv
    exact absurd hargv (by simp)
  · cases op with
    | all v d a =>
      simp only [FeedOp.select, mem_ite_nil_right, mem_singleton] at hargv
      rw [hargv.2, hf.gid]
      exact cfg.select_gid d hdb
    | slaves d a =>
      simp only [FeedOp.select, mem_ite_nil_right, mem_singleton] at hargv
      rw [hargv.2]
      exact cfg.table_gid _ (by rw [selectArgv, headD_cons, tableCommand_select]; rfl)

/-- What a read from a peer adds has the gid of the peer, a selection none. -/
theorem bytesFor_chunkUnits {db g : Int} {vs : List (List Argv)}
    (hunits : ∀ u ∈ vs, unitGid cfg.procs cfg.gidOf u = some g) (h : Int) :
    cfg.bytesFor h (chunkUnits f db vs) = if g = h then encoded vs.flatten else [] := by
  have hvs : cfg.bytesFor h vs = if g = h then encoded vs.flatten else [] := by
    rw [bytesFor, gidBytes_const hunits]
    simp only [some.injEq]
  have hsel : cfg.bytesFor h (if f.serverSeldb ≠ db then [[selectArgv db]] else []) = [] := by
    have hnone : ∀ u ∈ (if f.serverSeldb ≠ db then [[selectArgv db]] else []),
        unitGid cfg.procs cfg.gidOf u = none := by
      intro u hu
      simp only [mem_ite_nil_right, mem_singleton] at hu
      rw [hu.2, unitGid_plain (role_selectArgv db)]
      exact cfg.table_gid _ (by rw [selectArgv, headD_cons, tableCommand_select]; rfl)
    rw [bytesFor, gidBytes_const hnone]
    exact if_neg (by simp)
  unfold chunkUnits
  split
  · rename_i hnil
    rw [hnil]
    split <;> rfl
  · rw [bytesFor_append, hsel, hvs]
    rfl

end Feeds

/-! ## Runs -/

/-- The acts whose bytes the slave can count: it gets a gid for everything that
the peers get, and every command is let through where it is read. -/
def Countable (cfg : PairConfig σ) (p : Pair σ) : PairAct → Prop
  | .exec _ body _ => ∀ op ∈ body, op.isAll = true
  | .ovc _ => ValidDb cfg.toStreamConfig p.master.feed.serverSeldb ∨
      p.master.feed.crdtSeldb = p.master.feed.serverSeldb
  | .evict .. => False
  | .peerRead g k =>
    OpenFor cfg.procs (p.master.view g).node (dueCommands (cfg.stream g)
      (p.master.view g).node.trace.length ((p.master.view g).received + k)) ∧
    ∀ argv ∈ dueCommands (cfg.stream g) 0 ((p.master.view g).received + k),
      isEviction argv = false
  | .slaveRead k => OpenFor cfg.procs p.slave.node
      (dueCommands (p.sent cfg) p.slave.node.trace.length (p.slave.received + k))
  | _ => True

/-- The units that the slave has completed. -/
def Pair.consumed (cfg : PairConfig σ) (p : Pair σ) : List (List Argv) :=
  (p.slave.node.txn cfg.procs).done

/-- The units that have been completed on the link of a peer. -/
def Master.consumed (cfg : PairConfig σ) (m : Master σ) (g : Int) : List (List Argv) :=
  ((m.view g).node.txn cfg.procs).done

/-- The master has fed its peers the units with the own gid among those it has sent
to its slave, and the slave has counted those among the ones it has completed. -/
structure CountInv (cfg : PairConfig σ) (p₀ : Pair σ) (start : Int) (hist : Int → UInt8)
    (us : List (List Argv)) (p : Pair σ) : Prop where
  wire : WireInv cfg start us p
  master : Held p₀.masterCrdt hist (cfg.bytesFor cfg.gid us) p.masterCrdt
  slave : Held p₀.slaveCrdt hist (cfg.bytesFor cfg.gid (p.consumed cfg)) p.slaveCrdt
  links : ∀ g ∈ cfg.peers, cfg.bytesFor g us = encoded (p.master.consumed cfg g).flatten
  offsets : ∀ g ∈ cfg.peers, ∃ c, p.slave.node.peers g =
    some ⟨c, some (cfg.start g + (cfg.bytesFor g (p.consumed cfg)).length)⟩

section Steps

variable {p₀ p : Pair σ} {start : Int} {hist : Int → UInt8} {us : List (List Argv)}

/-- Calls of feeding functions. -/
theorem CountInv.feed (h : CountInv cfg p₀ start hist us p) {ops noted : List FeedOp}
    {vs : List (List Argv)} (hb : Balanced cfg p.master.feed ops vs) :
    CountInv cfg p₀ start hist (us ++ vs) (p.feedOps cfg ops noted) := by
  have hf := h.wire.feeding
  have hadds := applyAll_adds ops hf.topLevel hf.slaves
  rw [← hb.flatten, ← hb.own] at hadds
  refine ⟨h.wire.feed hb.sendable hadds _, ?_, h.slave, ?_, h.offsets⟩
  · rw [bytesFor_append]
    exact h.master.fed hadds.crdtServer
  · intro g hg
    rw [bytesFor_append, hb.others g hg, append_nil]
    exact h.links g hg

/-- The commands that a link has completed are among those it has received. -/
theorem mem_dueCommands_of_trace {lc : LinkConfig σ} {s : LinkState σ} (h : LinkInv lc s)
    {argv : Argv} (hargv : argv ∈ s.node.trace.map (·.argv)) :
    argv ∈ dueCommands lc.stream 0 s.received := by
  rw [h.inv.argvs] at hargv
  obtain ⟨j, hj⟩ := mem_iff_getElem?.mp hargv
  rw [getElem?_take] at hj
  split at hj
  · rename_i hlt
    have hle : prefixLen lc.stream (j + 1) ≤ _ := prefixLen_mono lc.stream (Nat.succ_le_of_lt hlt)
    have hrecv := h.inv.prefixLen_le
    exact mem_of_getElem? (dueCommands_getElem? hj (Nat.zero_le j) (by omega))
  · exact absurd hj (by simp)

theorem CountInv.peerRead (h : CountInv cfg p₀ start hist us p) {g : Int} (hg : g ∈ cfg.peers)
    {k : Nat} (hread : CanRead (p.master.view g) (encoded (cfg.stream g)).length k)
    (hok : Countable cfg p (.peerRead g k)) :
    ∃ vs, CountInv cfg p₀ start hist (us ++ vs) ⟨p.master.read cfg.procs g
      (((encoded (cfg.stream g)).drop (p.master.links g).received).take k), p.slave⟩ := by
  obtain ⟨vs, s, hstore, heff, hlink, hrecv⟩ := h.wire.peerRead hg hread hok.1
  rw [hstore]
  have hserver : s.node.server = p.master.server := heff.server
  have hdone : (s.node.txn cfg.procs).done = p.master.consumed cfg g ++ vs := heff.done
  have hfeed : s.node.feed = forwardFeed p.master.feed (some (p.master.view g).node.c.db) true
      (encoded vs.flatten) := heff.feed
  have hpre : s.node.trace.map (·.argv) <+: cfg.stream g := by
    rw [show s.node.trace.map (·.argv) = _ from hlink.inv.inv.argvs]
    exact take_prefix _ _
  have hunits : ∀ u ∈ vs, unitGid cfg.procs cfg.gidOf u = some g := by
    intro u hu
    refine unitGid_done hpre (cfg.carries g hg).link (cfg.roles g hg) (cfg.nested g hg)
      (cfg.carry g hg) ?_ u ?_
    · intro argv hargv
      refine hok.2 argv ?_
      rw [← hrecv]
      exact mem_dueCommands_of_trace hlink.inv hargv
    · rw [show (txnOf cfg.procs (s.node.trace.map (·.argv))).done = _ from hdone]
      exact mem_append_right _ hu
  refine ⟨_, h.wire.store hg heff hlink, ?_, h.slave, ?_, h.offsets⟩
  · have hsame : (s.node.feed).servers.crdtServer = p.masterCrdt := by
      rw [hfeed, (forwardFeed_fields _ _ _ _).2.1]
      rfl
    rw [bytesFor_append, bytesFor_chunkUnits hunits, if_neg (cfg.peers_ok g hg),
      append_nil]
    show Held _ _ _ s.node.feed.servers.crdtServer
    rw [hsame]
    exact h.master
  · intro g' hg'
    show _ = encoded (((p.master.store g s).view g').node.txn cfg.procs).done.flatten
    rw [bytesFor_append, bytesFor_chunkUnits hunits, h.links g' hg']
    by_cases heq : g' = g
    · subst heq
      rw [Master.view_store_self _ _ hserver, if_pos rfl, hdone, flatten_append, encoded_append]
    · rw [Master.view_store_other _ _ heq, if_neg (fun he => heq he.symm), append_nil]
      rfl

theorem CountInv.slaveRead (h : CountInv cfg p₀ start hist us p) {k : Nat}
    (hread : CanRead p.slave p.out.length k) (hok : Countable cfg p (.slaveRead k)) :
    CountInv cfg p₀ start hist us { p with slave :=
      ⟨readQueryFromClient cfg.procs p.slave.node ((p.out.drop p.slave.received).take k),
        p.slave.received + k⟩ } := by
  obtain ⟨vs, heff, hwire⟩ := h.wire.slaveRead hread hok
  have hfed : FedBy _ (cfg.bytesFor _ vs)
      (countAll cfg.procs cfg.gidOf p.slave.node vs).feed.servers.crdtServer :=
    (countAll_crdt p.slave.node vs).1
  generalize readQueryFromClient cfg.procs p.slave.node _ = n at heff hwire ⊢
  have hdone : (n.txn cfg.procs).done = p.consumed cfg ++ vs := heff.done
  have hcrdt : n.feed.servers.crdtServer =
      (countAll cfg.procs cfg.gidOf p.slave.node vs).feed.servers.crdtServer := by
    rw [heff.feed, (forwardFeed_fields _ _ _ _).2.1]
    rfl
  refine ⟨hwire, h.master, ?_, h.links, ?_⟩
  · show Held _ _ (cfg.bytesFor cfg.gid (n.txn cfg.procs).done) n.feed.servers.crdtServer
    rw [hdone, bytesFor_append, hcrdt]
    rw [h.wire.slaveGid] at hfed
    exact h.slave.fed hfed
  · intro g hg
    obtain ⟨c, hc⟩ := h.offsets g hg
    have hne : g ≠ p.slave.node.feed.crdtGid := by
      rw [h.wire.slaveGid]
      exact cfg.peers_ok g hg
    have hpeers : n.peers g = (countAll cfg.procs cfg.gidOf p.slave.node vs).peers g :=
      congrFun heff.peers g
    refine ⟨c, ?_⟩
    show n.peers g = some ⟨c, some (cfg.start g + (cfg.bytesFor g (n.txn cfg.procs).done).length)⟩
    rw [hpeers, countAll_peer _ _ hne, hc, hdone, bytesFor_append, length_append]
    simp only [map_some, Peer.moved, bytesFor]
    push_cast
    rw [Int.add_assoc]

end Steps

section Register

end Register

end XredisCrdt.Net
