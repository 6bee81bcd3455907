import XredisCrdt.Net.Replay

/-!
# Reads of a link that replays its stream

What one call of `readQueryFromClient` does on a link at rest: it completes some
units, runs them, counts them on the link of a master, and passes their bytes on
to the own slaves. The stream may grow while it is read.
-/

namespace XredisCrdt.Net

open Proto Repl List

variable {σ : Type}

/-- A link at rest whose transaction is the one of its stream. -/
structure ReplayLink (cfg : LinkConfig σ) (s : LinkState σ) : Prop where
  inv : LinkInv cfg s
  txn : TxnInv cfg.procs s.node
  quiet : Quiescent s.node

/-- The slaves are in the database of the peer whose bytes they are to get. -/
def selectSlaves (f : FeedState) (select : Option Int) : FeedState :=
  select.elim f fun dictid =>
    if f.serverSeldb ≠ dictid then sendSelectCommandToSlave f dictid else f

/-- The feeds after the applied bytes of a link have been passed on. -/
def forwardFeed (f : FeedState) (select : Option Int) (forward : Bool) (chunk : Bytes) :
    FeedState :=
  if chunk = [] ∨ forward = false then f
  else replicationFeedSlavesFromMasterStream (selectSlaves f select) chunk

/-- From `n` to `n'` one read has completed the units `us`. -/
structure ReadEffect (cfg : LinkConfig σ) (gidOf : Argv → Option Int)
    (us : List (List Argv)) (n n' : Node σ) : Prop where
  done : (n'.txn cfg.procs).done = (n.txn cfg.procs).done ++ us
  data : (n'.world, n'.c.db) = runAll cfg.procs (n.world, n.c.db) (plainOf cfg.procs us.flatten)
  peers : n'.peers = (if cfg.peer.isNone then countAll cfg.procs gidOf n us else n).peers
  feed : n'.feed = forwardFeed (if cfg.peer.isNone then countAll cfg.procs gidOf n us else n).feed
    (selectFor cfg.peer n) (forwards cfg n) (encoded us.flatten)
  server : n'.server = n.server

section Read

variable {cfg : LinkConfig σ} {s : LinkState σ} {gidOf : Argv → Option Int}

/-- `forwardApplied` in terms of the bytes that it passes on. -/
theorem forwardApplied_feed {n : Node σ} {base : Int} {chunk : Bytes} (select : Option Int)
    (forward : Bool) (happlied : n.c.reploff - base = chunk.length)
    (hchunk : n.c.pendingQuerybuf.take chunk.length = chunk) :
    (forwardApplied n base select forward).feed = forwardFeed n.feed select forward chunk := by
  unfold forwardApplied forwardFeed
  simp only [happlied]
  by_cases hnil : chunk = []
  · simp [hnil]
  · have hne : (chunk.length : Int) ≠ 0 := by
      have := length_pos_iff.mpr hnil
      omega
    rw [if_neg hne]
    cases forward with
    | false => simp
    | true =>
      rw [if_neg (c := chunk = [] ∨ true = false) (by simp [hnil])]
      simp only [if_true, Int.toNat_natCast, hchunk]
      cases select with
      | none => rfl
      | some d => rfl

/-- `forwardApplied` leaves the rest of the node alone. -/
theorem forwardApplied_rest (n : Node σ) (base : Int) (select : Option Int) (forward : Bool) :
    (forwardApplied n base select forward).trace = n.trace ∧
      (forwardApplied n base select forward).world = n.world ∧
      (forwardApplied n base select forward).c.db = n.c.db ∧
      (forwardApplied n base select forward).peers = n.peers ∧
      (forwardApplied n base select forward).server = n.server ∧
      (forwardApplied n base select forward).clientsPaused = n.clientsPaused ∧
      (forwardApplied n base select forward).unblocked = n.unblocked ∧
      (forwardApplied n base select forward).c.multi = n.c.multi ∧
      (forwardApplied n base select forward).c.mstate = n.c.mstate ∧
      (forwardApplied n base select forward).c.dirtyCas = n.c.dirtyCas ∧
      (forwardApplied n base select forward).c.dirtyExec = n.c.dirtyExec := by
  by_cases happlied : n.c.reploff - base = 0
  · have hsame : forwardApplied n base select forward = n := by
      simp only [forwardApplied, if_pos happlied]
    rw [hsame]
    exact ⟨rfl, rfl, rfl, rfl, rfl, rfl, rfl, rfl, rfl, rfl, rfl⟩
  · obtain ⟨feed, heq⟩ := forwardApplied_eq n base select forward happlied
    rw [heq]
    exact ⟨rfl, rfl, rfl, rfl, rfl, rfl, rfl, rfl, rfl, rfl, rfl⟩

/-- The bytes that a read has applied are those of the units it has completed. -/
theorem applied_bytes {k : Nat} {n n' : Node σ} {us : List (List Argv)}
    (hend : StreamInv cfg.peer cfg.maxBulk cfg.stream cfg.start n.c.reploff k n')
    (hoff : n.c.reploff = cfg.start + prefixLen cfg.stream (closedPrefix n.trace))
    (ht : TxnInv cfg.procs n) (ht' : TxnInv cfg.procs n')
    (hdone : (n'.txn cfg.procs).done = (n.txn cfg.procs).done ++ us)
    (hpend : n'.c.pendingQuerybuf = ((encoded cfg.stream).take k).drop (prefixLen cfg.stream
      (closedPrefix n.trace))) :
    n'.c.reploff - n.c.reploff = (encoded us.flatten).length ∧
      n'.c.pendingQuerybuf.take (encoded us.flatten).length = encoded us.flatten := by
  have hle : closedPrefix n.trace ≤ closedPrefix n'.trace := by
    rw [ht.closed, ht'.closed, hdone]
    simp
  have hclosed := closedPrefix_le n'.trace
  have hlast := prefixLen_mono cfg.stream hclosed
  have hmono := prefixLen_mono cfg.stream hle
  have hrecv := hend.prefixLen_le
  have hcmds := txnOf_commands cfg.procs (n'.trace.map (·.argv))
  have hunits : (cfg.stream.take (closedPrefix n'.trace)).drop (closedPrefix n.trace) =
      us.flatten := by
    have htake : cfg.stream.take (closedPrefix n'.trace) = (n'.txn cfg.procs).done.flatten := by
      have := congrArg (List.take (closedPrefix n'.trace)) hend.argvs
      rw [take_take, Nat.min_eq_left hclosed, ← hcmds, ht'.closed] at this
      rw [ht'.closed, ← this]
      exact take_left
    rw [htake, hdone, flatten_append, ht.closed]
    exact drop_left
  have hslice := encoded_slice cfg.stream hle
  rw [hunits] at hslice
  have hlen := congrArg List.length hslice
  have htotal := encoded_length cfg.stream (closedPrefix n'.trace)
  rw [length_take, length_drop] at hlen
  constructor
  · rw [hend.reploff, hoff]
    omega
  · have hcut : min (encoded us.flatten).length (k - prefixLen cfg.stream (closedPrefix n.trace)) =
        prefixLen cfg.stream (closedPrefix n'.trace) -
          prefixLen cfg.stream (closedPrefix n.trace) := by
      omega
    rw [hpend, drop_take, take_take, hcut, hslice]

theorem ReplayLink.read (h : ReplayLink cfg s) (hlaw : GidLaw cfg.procs gidOf)
    (hroles : ∀ argv ∈ cfg.stream, (role cfg.procs argv).isSome) {k : Nat}
    (hcan : CanRead s (encoded cfg.stream).length k)
    (hopen : OpenFor cfg.procs s.node
      (dueCommands cfg.stream s.node.trace.length (s.received + k)))
    (hown : s.node.feed.crdtGid ≠ -1) :
    ReplayLink cfg ⟨readQueryFromClient cfg.procs s.node
        (((encoded cfg.stream).drop s.received).take k), s.received + k⟩ ∧
      ∃ us, ReadEffect cfg gidOf us s.node (readQueryFromClient cfg.procs s.node
        (((encoded cfg.stream).drop s.received).take k)) := by
  have hquiet : PauseHarmless cfg s (.read k) := by
    rintro (hp | hu)
    · exact absurd (hp.symm.trans h.quiet.1) (by simp)
    · exact absurd h.quiet.2 hu
  have hread := h.inv.read hcan hquiet
  have hstart := h.inv.readStart hcan hquiet
  rw [hstart.result] at hread ⊢
  generalize hn :
      appendRead s.node (((encoded cfg.stream).drop s.received).take k) = n at hstart hread ⊢
  have htrace : n.trace = s.node.trace := by rw [← hn]; rfl
  have htxn : TxnInv cfg.procs n := by
    rw [← hn]
    exact ⟨h.txn.multi, h.txn.queue, h.txn.clean, h.txn.closed⟩
  have hinit : ReplayInv cfg.procs gidOf cfg.peer cfg.stream (s.received + k)
      (closedPrefix s.node.trace) n n := by
    refine ⟨htxn, ⟨[], .refl _ _ _ _⟩, ?_, hstart.pending, by rw [htrace], Nat.le_refl _, rfl, ?_,
      ?_⟩
    · rw [← hn]
      exact h.quiet
    · rw [htrace, ← hn]
      exact hopen.congr rfl rfl
    · rw [← hn]
      exact hown
  have hend :=
    processInputBuffer_replayed cfg.carries hlaw hroles h.inv.inv.reploff hstart.inv hinit
  have hloop := processInputBuffer_inv hstart.inv
  generalize processInputBuffer cfg.procs n = n' at hend hloop hread ⊢
  obtain ⟨us, hus⟩ := hend.replayed
  obtain ⟨htr, hworld, hdb, hpeers, hserver, hpaused, hunbl, hmulti, hms, hdc, hde⟩ :=
    forwardApplied_rest n' s.node.c.reploff (selectFor cfg.peer s.node) (forwards cfg s.node)
  have hacc₀ : n.accounts = s.node.accounts := by rw [← hn]; rfl
  have hacc : n'.accounts =
      (if cfg.peer.isNone then countAll cfg.procs gidOf s.node us else s.node).accounts := by
    refine hus.accounts.trans ?_
    split
    · exact countAll_congr cfg.procs gidOf hacc₀ us
    · exact hacc₀
  have hdone : (n'.txn cfg.procs).done = (s.node.txn cfg.procs).done ++ us := by
    rw [hus.done, Node.txn, htrace]
    rfl
  obtain ⟨happlied, hchunk⟩ :=
    applied_bytes (n := s.node) hloop.inv h.inv.inv.reploff h.txn hend.txn
    hdone (by rw [hend.pending])
  refine ⟨⟨hread, ⟨?_, ?_, ?_, ?_⟩, ?_⟩, us, ?_, ?_, ?_, ?_, ?_⟩
  · rw [hmulti, Node.txn, htr]
    exact hend.txn.multi
  · rw [hms, Node.txn, htr]
    exact hend.txn.queue
  · rw [hdc, hde]
    exact hend.txn.clean
  · rw [htr, Node.txn, htr]
    exact hend.txn.closed
  · exact ⟨hpaused.trans hend.quiet.1, hunbl.trans hend.quiet.2⟩
  · rw [Node.txn, htr]
    exact hdone
  · rw [hworld, hdb, hus.data, ← hn]
    rfl
  · rw [hpeers, (Prod.mk.inj hacc).2]
  · rw [forwardApplied_feed _ _ happlied hchunk, (Prod.mk.inj hacc).1]
  · rw [hserver, hloop.steady.server, ← hn]
    rfl

/-! ## A stream that grows -/

theorem encoded_append (stream more : List Argv) :
    encoded (stream ++ more) = encoded stream ++ encoded more :=
  flatMap_append

theorem prefixLen_append (stream more : List Argv) {k : Nat} (h : k ≤ stream.length) :
    prefixLen (stream ++ more) k = prefixLen stream k := by
  rw [prefixLen, take_append_of_le_length h, prefixLen]

theorem prefixLen_le_length (stream : List Argv) (k : Nat) :
    prefixLen stream k ≤ (encoded stream).length := by
  rw [encoded_length stream k]
  exact Nat.le_add_right _ _

theorem StreamInv.extend {peer : Option Int} {maxBulk : Nat} {stream : List Argv}
    {start base : Int} {received : Nat} {n : Node σ}
    (h : StreamInv peer maxBulk stream start base received n) (more : List Argv) :
    StreamInv peer maxBulk (stream ++ more) start base received n := by
  have hdone := h.done_le
  have hrecv := h.received_le
  have hdrop : (encoded (stream ++ more)).drop received =
      (encoded stream).drop received ++ encoded more := by
    rw [encoded_append, drop_append_of_le_length hrecv]
  have hclosed := Nat.le_trans (closedPrefix_le n.trace) hdone
  have hawaits : ∃ r, AwaitsNext (stream ++ more) n.trace.length n.c.input r ∧
      r ++ encoded ((stream ++ more).drop (n.trace.length + 1)) =
        n.c.input.querybuf ++ (encoded (stream ++ more)).drop received := by
    obtain ⟨r, hr, heq⟩ := h.awaits
    unfold AwaitsNext at hr
    cases hcmd : stream[n.trace.length]? with
    | some cmd =>
      simp only [hcmd] at hr
      obtain ⟨hlt, -⟩ := List.getElem?_eq_some_iff.mp hcmd
      refine ⟨r, ?_, ?_⟩
      · rw [AwaitsNext, getElem?_append_left hlt, hcmd]
        exact hr
      · rw [drop_append_of_le_length hlt, encoded_append, ← append_assoc, heq, hdrop, append_assoc]
    | none =>
      simp only [hcmd] at hr
      have hend : stream.length ≤ n.trace.length := List.getElem?_eq_none_iff.mp hcmd
      obtain ⟨r', hr', heq'⟩ := awaitsNext_start (stream ++ more) n.trace.length hr.2
      rw [hr.1, drop_eq_nil_of_le (by omega)] at heq
      refine ⟨r', hr', ?_⟩
      rw [heq', hdrop, ← append_assoc, ← heq, drop_append, drop_eq_nil_of_le hend,
        show n.trace.length - stream.length = 0 by omega]
      rfl
  exact ⟨h.link, h.queue, h.notSlave, h.notBlocked, h.notClosing, h.notFreed, h.maxBulk,
    by rw [encoded_append, length_append]; omega,
    by rw [take_append_of_le_length hdone]; exact h.argvs, h.reqtype, hawaits, h.fits,
    h.readReploff, by rw [prefixLen_append _ _ hclosed]; exact h.reploff, h.used⟩

theorem Drained.extend {peer : Option Int} {maxBulk : Nat} {stream : List Argv}
    {start base : Int} {received : Nat} {n : Node σ} (hd : Drained stream received n)
    (h : StreamInv peer maxBulk stream start base received n) (more : List Argv) :
    Drained (stream ++ more) received n := by
  refine ⟨hd.parked, ?_⟩
  intro hlt
  by_cases hold : n.trace.length < stream.length
  · rw [prefixLen_append _ _ hold]
    exact hd.next hold
  · have hlast := h.done_le
    have heq : n.trace.length = stream.length := by omega
    have hnext := prefixLen_lt (Nat.lt_add_one n.trace.length) hlt
    have hall : prefixLen (stream ++ more) n.trace.length = (encoded stream).length := by
      rw [prefixLen_append _ _ hlast, prefixLen, heq, take_length]
    have := h.received_le
    omega

/-- The stream of a link at rest may go on. -/
theorem ReplayLink.extend {cfg' : LinkConfig σ} {more : List Argv} (h : ReplayLink cfg s)
    (hprocs : cfg'.procs = cfg.procs) (hpeer : cfg'.peer = cfg.peer)
    (hmax : cfg'.maxBulk = cfg.maxBulk) (hstream : cfg'.stream = cfg.stream ++ more)
    (hstart : cfg'.start = cfg.start) : ReplayLink cfg' s := by
  have hinv := h.inv.inv
  have hdone := hinv.done_le
  have hclosed := Nat.le_trans (closedPrefix_le s.node.trace) hdone
  have hlen := prefixLen_le_length cfg.stream (closedPrefix s.node.trace)
  refine ⟨⟨?_, ?_, ?_, ?_, ?_⟩, by rw [hprocs]; exact h.txn, h.quiet⟩
  · rw [hpeer, hmax, hstream, hstart]
    exact hinv.extend more
  · rw [hmax]
    exact h.inv.limits
  · rw [hstream, encoded_append, take_append_of_le_length hinv.received_le,
      prefixLen_append _ _ hclosed]
    exact h.inv.pending
  · intro hf
    rw [hstream, encoded_append, prefixLen_append _ _ hclosed, take_append_of_le_length hlen]
    exact h.inv.forwarded (by rw [← hf, forwards, forwards, hpeer])
  · intro hq
    rw [hstream]
    exact (h.inv.drained hq).extend hinv more

end Read

end XredisCrdt.Net
