import XredisCrdt.Net.Processing

/-!
# What a command leaves alone

Whatever a command of a replication stream does, the buffers and the offsets of
the client stay as they are until `processInputBuffer` moves them. `Frame` says
which fields `processCommand` may change, `processParsed_eq` what follows for one
command of a connected link.
-/

namespace XredisCrdt.Net

open Proto Repl

variable {σ : Type} {P : Procs σ}

/-- From `n` to `n'` nothing but the data set, the database, the gid and the
transaction of the client has changed; the gid of a peer stays. -/
structure Frame (n n' : Node σ) : Prop where
  eq : ∃ world db gid multi dirtyCas dirtyExec mstate,
    n' = { n with
      world := world
      c := { n.c with
        db := db, gid := gid, multi := multi, dirtyCas := dirtyCas, dirtyExec := dirtyExec,
        mstate := mstate } }
  gid : n.c.isCrdtMaster = true → n.c.gid ≠ -1 → n'.c.gid = n.c.gid

theorem Frame.refl (n : Node σ) : Frame n n := ⟨⟨_, _, _, _, _, _, _, rfl⟩, fun _ _ => rfl⟩

theorem Frame.trans {n₁ n₂ n₃ : Node σ} (h : Frame n₁ n₂) (h' : Frame n₂ n₃) : Frame n₁ n₃ := by
  obtain ⟨⟨w, db, gid, m, dc, de, ms, rfl⟩, hgid⟩ := h
  obtain ⟨⟨w', db', gid', m', dc', de', ms', rfl⟩, hgid'⟩ := h'
  refine ⟨⟨w', db', gid', m', dc', de', ms', rfl⟩, ?_⟩
  intro hcrdt hne
  have hsame : gid = n₁.c.gid := hgid hcrdt hne
  have hsame' : gid' = gid := hgid' hcrdt (by rw [hsame]; exact hne)
  exact hsame'.trans hsame

/-- A change of the transaction. -/
theorem frame_transaction (n : Node σ) (multi dirtyCas dirtyExec : Bool)
    (mstate : List (Command × Argv)) :
    Frame n { n with c := { n.c with
      multi := multi, dirtyCas := dirtyCas, dirtyExec := dirtyExec, mstate := mstate } } :=
  ⟨⟨_, _, _, _, _, _, _, rfl⟩, fun _ _ => rfl⟩

/-- `CRDT.MERGE_END` belongs to a full synchronization. -/
def NoMergeEnd (cmd : Command) : Prop := cmd.proc ≠ .crdtMergeEndCommand

theorem callPlain_eq (n : Node σ) {cmd : Command} (argv : Argv) (h : NoMergeEnd cmd) :
    callPlain P n cmd argv = { n with
      world := (P.run n.world n.c.db argv).1
      c := { n.c with
        db := (P.run n.world n.c.db argv).2.1
        gid := verbatimGid n.c.gid (P.run n.world n.c.db argv).2.2 } } := by
  unfold callPlain
  exact if_neg h

theorem callPlain_frame (n : Node σ) {cmd : Command} (argv : Argv) (h : NoMergeEnd cmd) :
    Frame n (callPlain P n cmd argv) ∧ (callPlain P n cmd argv).c.mstate = n.c.mstate ∧
      (callPlain P n cmd argv).c.multi = n.c.multi := by
  rw [callPlain_eq n argv h]
  refine ⟨⟨⟨_, _, _, _, _, _, _, rfl⟩, ?_⟩, rfl, rfl⟩
  intro _ hne
  exact if_neg hne

/-- The queued commands of a transaction, one after the other. -/
theorem foldl_callPlain_frame {queue : List (Command × Argv)}
    (h : ∀ q ∈ queue, NoMergeEnd q.1) (n : Node σ) :
    Frame n (queue.foldl (fun n q => callPlain P n q.1 q.2) n) := by
  induction queue generalizing n with
  | nil => exact .refl n
  | cons q queue ih =>
    have hstep := (callPlain_frame (P := P) n q.2 (h q (by simp))).1
    exact hstep.trans (ih (fun q' hq' => h q' (by simp [hq'])) _)

theorem execTransaction_frame {n : Node σ} (h : ∀ q ∈ n.c.mstate, NoMergeEnd q.1) :
    Frame n (execTransaction P n) ∧ (execTransaction P n).c.multi = false ∧
      (execTransaction P n).c.mstate = [] := by
  refine ⟨?_, rfl, rfl⟩
  unfold execTransaction
  split
  · exact frame_transaction n false false false []
  · exact (foldl_callPlain_frame h n).trans (frame_transaction _ false false false [])

/-- The queue of a client has no `CRDT.MERGE_END`. -/
def QueueOk (c : Client) : Prop := ∀ q ∈ c.mstate, NoMergeEnd q.1

/-- A command that a connected link can carry: no `quit`, no `CRDT.MERGE_END`,
and from a peer only transactions of its own gid. -/
structure LinkCommand (P : Procs σ) (peer : Option Int) (argv : Argv) : Prop where
  not_quit : strcaseeq (argv.headD []) (ascii "quit") = false
  not_mergeEnd : ∀ cmd, lookupCommand P (argv.headD []) = some cmd → NoMergeEnd cmd
  exec_gid : ∀ cmd gid a g, peer = some gid → lookupCommand P (argv.headD []) = some cmd →
    cmd.proc = .crdtExecCommand → argv.tail = [a] → string2gid a = some g → g = gid

/-- The client is the connected master of this slave, or a connected peer. -/
def Link (peer : Option Int) (n : Node σ) : Prop :=
  match peer with
  | none => n.c.isMaster = true ∧ n.c.isCrdtMaster = false ∧ n.server.iAmMaster = false
  | some gid => n.c.isMaster = false ∧ n.c.isCrdtMaster = true ∧ n.c.gid = gid ∧ gid ≠ -1 ∧
    n.peerConnected gid = true

theorem Link.of_frame {peer : Option Int} {n n' : Node σ} (h : Link peer n) (hf : Frame n n') :
    Link peer n' := by
  have hgid := hf.gid
  obtain ⟨w, db, gid, m, dc, de, ms, rfl⟩ := hf.eq
  cases peer with
  | none => exact h
  | some g =>
    obtain ⟨hm, hc, hg, hne, hconn⟩ := h
    exact ⟨hm, hc, (hgid hc (by rw [hg]; exact hne)).trans hg, hne, hconn⟩

section Processing

variable {peer : Option Int} {n : Node σ}

theorem ne_neg_one_of_checkGid {g : Int} (h : checkGid g = true) : g ≠ -1 := by
  simp only [checkGid, decide_eq_true_eq] at h
  omega

theorem execGid_eq_some {argv : Argv} {g : Int} (h : execGid argv = some g) :
    ∃ name a, argv = [name, a] ∧ string2gid a = some g ∧ checkGid g = true := by
  unfold execGid at h
  split at h
  · rename_i name a
    obtain ⟨hg, hok⟩ := Option.filter_eq_some_iff.mp h
    exact ⟨name, a, rfl, hg, hok⟩
  · exact absurd h (by simp)

theorem crdtExecCommand_frame {cmd : Command} {argv : Argv} (hl : Link peer n)
    (hc : LinkCommand P peer argv) (hlook : lookupCommand P (argv.headD []) = some cmd)
    (hproc : cmd.proc = .crdtExecCommand) (hq : QueueOk n.c) :
    Frame n (crdtExecCommand P n argv) ∧ QueueOk (crdtExecCommand P n argv).c := by
  unfold crdtExecCommand
  split
  · exact ⟨.refl n, hq⟩
  split
  · exact ⟨.refl n, hq⟩
  · rename_i g hgid
    obtain ⟨name, a, rfl, hg, -⟩ := execGid_eq_some hgid
    have hset : Frame n { n with c := { n.c with gid := g } } := by
      refine ⟨⟨_, _, _, _, _, _, _, rfl⟩, ?_⟩
      intro hcrdt _
      cases peer with
      | none => exact absurd (hcrdt.symm.trans hl.2.1) (by decide)
      | some gid =>
        exact (hc.exec_gid cmd gid a g rfl hlook hproc rfl hg).trans hl.2.2.1.symm
    have hexec := execTransaction_frame (P := P) (n := { n with c := { n.c with gid := g } }) hq
    refine ⟨hset.trans hexec.1, ?_⟩
    intro q hmem
    rw [hexec.2.2] at hmem
    exact absurd hmem (by simp)

theorem execCommand_frame (hq : QueueOk n.c) :
    Frame n (execCommand P n) ∧ QueueOk (execCommand P n).c := by
  unfold execCommand
  split
  · exact ⟨.refl n, hq⟩
  · have hexec := execTransaction_frame (P := P) hq
    refine ⟨hexec.1, ?_⟩
    intro q hmem
    rw [hexec.2.2] at hmem
    exact absurd hmem (by simp)

theorem call_frame {cmd : Command} {argv : Argv} (hl : Link peer n)
    (hc : LinkCommand P peer argv) (hlook : lookupCommand P (argv.headD []) = some cmd)
    (hq : QueueOk n.c) : Frame n (call P n cmd argv) ∧ QueueOk (call P n cmd argv).c := by
  have hplain : Frame n (callPlain P n cmd argv) ∧ QueueOk (callPlain P n cmd argv).c := by
    have h := callPlain_frame (P := P) n argv (hc.not_mergeEnd cmd hlook)
    refine ⟨h.1, ?_⟩
    intro q hmem
    rw [h.2.1] at hmem
    exact hq q hmem
  unfold call
  cases hproc : cmd.proc with
  | multiCommand => exact ⟨frame_transaction n true _ _ _, hq⟩
  | discardCommand =>
    simp only
    split
    · exact ⟨frame_transaction n false false false [], fun q hmem =>
        absurd hmem (by simp [discardTransaction])⟩
    · exact ⟨.refl n, hq⟩
  | execCommand => exact execCommand_frame hq
  | crdtExecCommand => exact crdtExecCommand_frame hl hc hlook hproc hq
  | _ => exact hplain

theorem afterRefusal_frame (cmd : Option Command) (r : Refusal) (hq : QueueOk n.c) :
    Frame n { n with c := afterRefusal n.c cmd r } ∧ QueueOk (afterRefusal n.c cmd r) := by
  have hflag : Frame n { n with c := if r.flags then flagTransaction n.c else n.c } ∧
      QueueOk (if r.flags then flagTransaction n.c else n.c) := by
    unfold flagTransaction
    split
    · split
      · exact ⟨frame_transaction n _ _ true _, hq⟩
      · exact ⟨.refl n, hq⟩
    · exact ⟨.refl n, hq⟩
  unfold afterRefusal
  split
  · exact ⟨frame_transaction n false false false [],
      fun q hmem => absurd hmem (by simp [discardTransaction])⟩
  · exact hflag

/-- A command of a connected link is not the last one, and stays in its frame. -/
theorem processCommand_frame (hl : Link peer n) (hc : LinkCommand P peer n.c.input.argv)
    (hq : QueueOk n.c) :
    (processCommand P n).2 ≠ .quit ∧ Frame n (processCommand P n).1 ∧
      QueueOk (processCommand P n).1.c := by
  unfold processCommand
  simp only [hc.not_quit, Bool.false_eq_true, if_false]
  split
  · exact ⟨by simp, afterRefusal_frame none _ hq⟩
  · rename_i cmd hlook
    split
    · rename_i r _
      exact ⟨by simp, afterRefusal_frame (some cmd) r hq⟩
    · split
      · refine ⟨by simp, frame_transaction n _ _ _ _, ?_⟩
        intro q hmem
        rcases List.mem_append.mp hmem with hold | hnew
        · exact hq q hold
        · rw [List.mem_singleton.mp hnew]
          exact hc.not_mergeEnd cmd hlook
      · exact ⟨by simp, call_frame hl hc hlook hq⟩

end Processing

/-! ## One parsed command -/

/-- The fields that processing commands of a link does not touch. -/
structure Steady (n n' : Node σ) : Prop where
  server : n'.server = n.server
  protoMaxBulkLen : n'.protoMaxBulkLen = n.protoMaxBulkLen
  clientMaxQuerybufLen : n'.clientMaxQuerybufLen = n.clientMaxQuerybufLen
  freed : n'.freed = n.freed
  forwarded : n'.forwarded = n.forwarded
  isSlave : n'.c.isSlave = n.c.isSlave
  blocked : n'.c.blocked = n.c.blocked
  closeAfterReply : n'.c.closeAfterReply = n.c.closeAfterReply
  closeAsap : n'.c.closeAsap = n.c.closeAsap
  pendingQuerybuf : n'.c.pendingQuerybuf = n.c.pendingQuerybuf
  readReploff : n'.c.readReploff = n.c.readReploff

theorem Steady.refl (n : Node σ) : Steady n n :=
  ⟨rfl, rfl, rfl, rfl, rfl, rfl, rfl, rfl, rfl, rfl, rfl⟩

theorem steady_withInput (n : Node σ) (i : Input) : Steady n (n.withInput i) :=
  ⟨rfl, rfl, rfl, rfl, rfl, rfl, rfl, rfl, rfl, rfl, rfl⟩

theorem Steady.trans {n₁ n₂ n₃ : Node σ} (h : Steady n₁ n₂) (h' : Steady n₂ n₃) : Steady n₁ n₃ where
  server := h'.server.trans h.server
  protoMaxBulkLen := h'.protoMaxBulkLen.trans h.protoMaxBulkLen
  clientMaxQuerybufLen := h'.clientMaxQuerybufLen.trans h.clientMaxQuerybufLen
  freed := h'.freed.trans h.freed
  forwarded := h'.forwarded.trans h.forwarded
  isSlave := h'.isSlave.trans h.isSlave
  blocked := h'.blocked.trans h.blocked
  closeAfterReply := h'.closeAfterReply.trans h.closeAfterReply
  closeAsap := h'.closeAsap.trans h.closeAsap
  pendingQuerybuf := h'.pendingQuerybuf.trans h.pendingQuerybuf
  readReploff := h'.readReploff.trans h.readReploff

/-- What became of the client with one command: the offset is behind the command
unless a transaction is open. -/
structure ParsedStep (peer : Option Int) (n n' : Node σ) : Prop where
  steady : Steady n n'
  link : Link peer n'
  queue : QueueOk n'.c
  input : n'.c.input = (resetClient n.c).input
  clientsPaused : n'.clientsPaused = n.clientsPaused
  unblocked : n'.unblocked = n.unblocked
  used : n'.c.pendingUsedOffset =
    if n'.c.multi then n.c.pendingUsedOffset else n.c.pendingUsedOffset + n.advance
  reploff : n'.c.reploff =
    if n'.c.multi then n.c.reploff else n.c.readReploff - n.c.input.querybuf.length
  trace : ∃ o, n'.trace = n.trace ++ [⟨n.c.input.argv, o, n'.c.multi, !n'.c.multi⟩]

/-- Counting a command for the history of its gid changes backlogs and offsets of
other peers only. -/
theorem accountGid_eq (n : Node σ) :
    ∃ feed peers, accountGid n = { n with feed := feed, peers := peers } ∧
      (n.onMasterLink = false → peers = n.peers) := by
  unfold accountGid
  split
  · rename_i hm
    split
    · exact ⟨_, _, rfl, fun _ => rfl⟩
    split
    · exact ⟨_, _, rfl, fun hno => absurd (hm.symm.trans hno) (by decide)⟩
    · exact ⟨_, _, rfl, fun _ => rfl⟩
  · exact ⟨_, _, rfl, fun _ => rfl⟩

theorem Link.moves {peer : Option Int} {n : Node σ} (h : Link peer n) : n.moves = !n.c.multi := by
  cases peer with
  | none => simp [Node.moves, h.1]
  | some gid =>
    obtain ⟨hm, hc, hg, -, hconn⟩ := h
    simp [Node.moves, Node.onPeerLink, hm, hc, hg, hconn]

theorem Link.pends {peer : Option Int} {n : Node σ} (h : Link peer n) :
    n.onMasterLink ∨ n.onPeerLink := by
  cases peer with
  | none => simp [Node.onMasterLink, h.1, h.2.2]
  | some gid => simp [Node.onPeerLink, h.2.1, h.2.2.1, h.2.2.2.2]

theorem Link.appendRead_pending {peer : Option Int} {n : Node σ} (h : Link peer n) (bytes : Bytes) :
    (appendRead n bytes).c.pendingQuerybuf = n.c.pendingQuerybuf ++ bytes :=
  if_pos h.pends

theorem Link.onMasterLink {peer : Option Int} {n : Node σ} (h : Link peer n) :
    n.onMasterLink = peer.isNone := by
  cases peer with
  | none => simp [Node.onMasterLink, h.1, h.2.2]
  | some gid => simp [Node.onMasterLink, h.1]

theorem forgetGid_frame {peer : Option Int} {n : Node σ} (h : Link peer n) :
    Frame n (forgetGid n) ∧ (forgetGid n).c.mstate = n.c.mstate := by
  unfold forgetGid
  split
  · rename_i hm
    refine ⟨⟨⟨_, _, _, _, _, _, _, rfl⟩, ?_⟩, rfl⟩
    intro hcrdt _
    rw [h.onMasterLink] at hm
    cases peer with
    | none => exact absurd (hcrdt.symm.trans h.2.1) (by decide)
    | some gid => exact absurd hm (by simp)
  · exact ⟨.refl n, rfl⟩

theorem processParsed_step {peer : Option Int} {n : Node σ} (hl : Link peer n)
    (hc : LinkCommand P peer n.c.input.argv) (hq : QueueOk n.c) (hfreed : n.freed = false) :
    ParsedStep peer n (processParsed P n) := by
  obtain ⟨hforget, hmstate⟩ := forgetGid_frame hl
  have hinput : (forgetGid n).c.input = n.c.input := by
    obtain ⟨w, db, gid, m, dc, de, ms, heq⟩ := hforget.eq
    rw [heq]
  obtain ⟨hquit, hframe, hq₁⟩ := processCommand_frame (P := P) (hl.of_frame hforget)
    (by rw [hinput]; exact hc) (by intro q hmem; rw [hmstate] at hmem; exact hq q hmem)
  have hall := hforget.trans hframe
  have hl₁ := hl.of_frame hall
  unfold processParsed
  generalize processCommand P (forgetGid n) = r at hquit hframe hq₁ hall hl₁ ⊢
  obtain ⟨n₁, o⟩ := r
  simp only at hquit hq₁ hall hl₁ ⊢
  have hfreed₁ : n₁.freed = false := by
    obtain ⟨w, db, gid, m, dc, de, ms, h⟩ := hall.eq
    rw [h]
    exact hfreed
  rw [if_neg (by simp [hquit, hfreed₁])]
  obtain ⟨feed, peers, hacc, hpeers⟩ := accountGid_eq n₁
  have hl₂ : Link peer (accountGid n₁) := by
    rw [hacc]
    cases peer with
    | none => exact hl₁
    | some gid =>
      rw [hpeers hl₁.onMasterLink]
      exact hl₁
  unfold finishParsed
  rw [hl₂.moves]
  obtain ⟨w, db, gid, m, dc, de, ms, rfl⟩ := hall.eq
  rw [hacc] at hl₂ ⊢
  unfold moveReploff
  rw [hl₂.moves]
  cases m
  all_goals
    exact ⟨⟨rfl, rfl, rfl, rfl, rfl, rfl, rfl, rfl, rfl, rfl, rfl⟩, hl₂, hq₁, rfl, rfl, rfl, rfl,
      rfl, o, rfl⟩

end XredisCrdt.Net
