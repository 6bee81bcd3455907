import XredisCrdt.Lib.System
import XredisCrdt.Net.StreamPosition

/-!
# A replication stream in pieces

Runs of a node that receives a replication stream on a connected link, from its
master or from a peer, in pieces of any size, while clients are paused and
resumed and everything else at the node goes its own way.
-/

namespace XredisCrdt.Net

open Proto Repl List Option

variable {σ : Type}

/-! ## The system -/

/-- A link: from the own master, or from the peer with the given gid, the stream
that it carries and the offset before its first byte. -/
structure LinkConfig (σ : Type) where
  procs : Procs σ
  peer : Option Int
  maxBulk : Nat
  stream : List Argv
  start : Int
  carries : LinkStream procs peer maxBulk stream

/-- The node, and how many bytes of the stream it has read. -/
structure LinkState (σ : Type) where
  node : Node σ
  received : Nat

/-- What can happen: bytes arrive, clients are paused, time passes, the cron looks
at the pause, the loop of `processUnblockedClients` comes to the link, and the
rest of the server changes. -/
inductive LinkAct (σ : Type)
  | read (k : Nat)
  | pause (stop : Nat)
  | tick (now : Nat)
  | cron
  | resume
  | env (server : Server) (peers : Int → Option Peer) (feed : FeedState) (world : σ)

variable (cfg : LinkConfig σ)

/-- The link stays what it is when the rest of the server changes. -/
def SameLink (n : Node σ) (server : Server) (peers : Int → Option Peer) : Prop :=
  server.iAmMaster = n.server.iAmMaster ∧ server.replSlaveReplAll = n.server.replSlaveReplAll ∧
    (peers n.c.gid).map Peer.connected = (n.peers n.c.gid).map Peer.connected

instance (n : Node σ) (server : Server) (peers : Int → Option Peer) :
    Decidable (SameLink n server peers) := inferInstanceAs (Decidable (_ ∧ _ ∧ _))

/-- A read of `k` bytes when `total` bytes have been sent. -/
def CanRead (s : LinkState σ) (total k : Nat) : Prop :=
  0 < k ∧ (k : Int) ≤ readlen s.node.c.input ∧ s.received + k ≤ total

instance (s : LinkState σ) (total k : Nat) : Decidable (CanRead s total k) :=
  inferInstanceAs (Decidable (_ ∧ _ ∧ _))

def linkNext (s : LinkState σ) : LinkAct σ → Option (LinkState σ)
  | .read k =>
    if s.node.freed ∨ s.received = (encoded cfg.stream).length then none
    else if readlen s.node.c.input ≤ 0 then
      -- a read of no bytes looks like the end of the connection
      some { s with node := readQueryFromClient cfg.procs s.node [] }
    else if CanRead s (encoded cfg.stream).length k then
      some {
        node := readQueryFromClient cfg.procs s.node
          (((encoded cfg.stream).drop s.received).take k)
        received := s.received + k }
    else none
  | .pause stop => some { s with node := pauseClients s.node stop }
  | .tick now =>
    if s.node.mstime ≤ now then some { s with node := { s.node with mstime := now } } else none
  | .cron => if s.node.freed then none else some { s with node := clientsArePaused s.node }
  | .resume =>
    if s.node.freed ∨ s.node.unblocked = 0 then none
    else some { s with node := processUnblockedClient cfg.procs s.node }
  | .env server peers feed world =>
    if SameLink s.node server peers then
      some { s with node := { s.node with
        server := server, peers := peers, feed := feed, world := world } }
    else none

/-- A link that has just been connected. -/
structure FreshLink (n : Node σ) : Prop where
  link : Link cfg.peer n
  maxBulk : n.protoMaxBulkLen = cfg.maxBulk
  querybufLen : protoInlineMaxSize ≤ n.clientMaxQuerybufLen ∧
    cfg.maxBulk + 2 ≤ n.clientMaxQuerybufLen
  input : n.c.input = ⟨[], .none, 0, none, []⟩
  pending : n.c.pendingQuerybuf = [] ∧ n.c.pendingUsedOffset = 0
  offsets : n.c.reploff = cfg.start ∧ n.c.readReploff = cfg.start
  flags : n.c.isSlave = false ∧ n.c.blocked = false ∧ n.c.closeAfterReply = false ∧
    n.c.closeAsap = false ∧ n.freed = false
  transaction : n.c.mstate = []
  unblocked : n.unblocked = 0
  ghosts : n.trace = [] ∧ n.forwarded = []

def linkSystem : Lib.System (LinkState σ) (LinkAct σ) where
  init s := FreshLink cfg s.node ∧ s.received = 0
  next := linkNext cfg

/-! ## The claim about a state -/

/-- Nothing is left to do before the next bytes arrive. -/
def Quiescent (n : Node σ) : Prop := n.clientsPaused = false ∧ n.unblocked = 0

/-- Are the bytes of the link passed on? A slave with `repl_slave_repl_all` feeds
its slaves with the commands that it executes instead. -/
def forwards (n : Node σ) : Bool := cfg.peer.isSome || !n.server.replSlaveReplAll

/-- The offset, the forwarded and the pending bytes fit the part of the stream
that has been applied. -/
structure Accounted (s : LinkState σ) : Prop where
  processed : s.node.trace.map (·.argv) =
    cfg.stream.take (completeCommands cfg.stream s.received)
  reploff : s.node.c.reploff = cfg.start + prefixLen cfg.stream (closedPrefix s.node.trace)
  forwarded : forwards cfg s.node = true →
    s.node.forwarded = encoded (cfg.stream.take (closedPrefix s.node.trace))
  pending : s.node.c.pendingQuerybuf =
    ((encoded cfg.stream).take s.received).drop (prefixLen cfg.stream (closedPrefix s.node.trace))

/-- The link is open, and at rest everything is accounted for. -/
structure LinkOk (s : LinkState σ) : Prop where
  isOpen : s.node.freed = false ∧ s.node.c.closeAfterReply = false ∧ s.node.c.closeAsap = false
  accounted : Quiescent s.node → Accounted cfg s

/-- While clients are paused the buffer does not outgrow the inline limit or the
bulk that it is read for, and the link is resumed only when no further command is
complete. -/
def PauseHarmless (s : LinkState σ) : LinkAct σ → Prop
  | .read k => s.node.clientsPaused = true ∨ s.node.unblocked ≠ 0 →
      0 < readlen s.node.c.input ∧ s.node.c.input.querybuf.length + k ≤ protoInlineMaxSize
  | .resume => s.node.trace.length < cfg.stream.length →
      s.received < prefixLen cfg.stream (s.node.trace.length + 1)
  | _ => True

instance (s : LinkState σ) : (a : LinkAct σ) → Decidable (PauseHarmless cfg s a)
  | .read _ => inferInstanceAs (Decidable (_ → _))
  | .resume => inferInstanceAs (Decidable (_ → _))
  | .pause _ | .tick _ | .cron | .env .. => isTrue trivial

/-! ## The invariant of runs -/

structure LinkInv (s : LinkState σ) : Prop where
  inv : StreamInv cfg.peer cfg.maxBulk cfg.stream cfg.start s.node.c.reploff s.received s.node
  limits : protoInlineMaxSize ≤ s.node.clientMaxQuerybufLen ∧
    cfg.maxBulk + 2 ≤ s.node.clientMaxQuerybufLen
  pending : s.node.c.pendingQuerybuf =
    ((encoded cfg.stream).take s.received).drop (prefixLen cfg.stream (closedPrefix s.node.trace))
  forwarded : forwards cfg s.node = true → s.node.forwarded =
    (encoded cfg.stream).take (prefixLen cfg.stream (closedPrefix s.node.trace))
  drained : Quiescent s.node → Drained cfg.stream s.received s.node

variable {cfg} {s s' : LinkState σ}

theorem LinkInv.ok (h : LinkInv cfg s) : LinkOk cfg s := by
  refine ⟨⟨h.inv.notFreed, h.inv.notClosing.1, h.inv.notClosing.2⟩, ?_⟩
  intro hq
  have hprefix := h.inv.prefixLen_le
  have hcount : completeCommands cfg.stream s.received = s.node.trace.length :=
    completeCommands_eq h.inv.done_le (by omega) (h.drained hq).next
  refine ⟨?_, h.inv.reploff, ?_, h.pending⟩
  · rw [hcount]
    exact h.inv.argvs
  · intro hf
    rw [h.forwarded hf, encoded_take]

theorem FreshLink.inv (h : FreshLink cfg s.node) (hrecv : s.received = 0) : LinkInv cfg s := by
  obtain ⟨htrace, hforw⟩ := h.ghosts
  have hstart : StreamInv cfg.peer cfg.maxBulk cfg.stream cfg.start s.node.c.reploff s.received
      s.node := by
    refine ⟨h.link, ?_, h.flags.1, h.flags.2.1, ⟨h.flags.2.2.1, h.flags.2.2.2.1⟩, h.flags.2.2.2.2,
      h.maxBulk, by omega, by rw [htrace]; rfl, ?_, ?_, ?_, ?_, ?_, ?_⟩
    · intro q hq
      rw [h.transaction] at hq
      exact absurd hq (by simp)
    · rw [h.input]
      exact .inr ⟨rfl, rfl, rfl, rfl⟩
    · rw [htrace, hrecv, h.input]
      exact awaitsNext_start cfg.stream 0 ⟨rfl, rfl, rfl⟩
    · rw [h.input]
      exact .inl (Nat.zero_le _)
    · rw [h.offsets.2, hrecv]
      simp
    · rw [h.offsets.1, htrace, closedPrefix_nil, prefixLen_zero]
      simp
    · rw [h.pending.2]
      omega
  refine ⟨hstart, h.querybufLen, ?_, ?_, ?_⟩
  · rw [h.pending.1, hrecv]
    simp
  · intro _
    rw [hforw, htrace, closedPrefix_nil, prefixLen_zero]
    rfl
  · intro _
    exact hstart.drained_nil (by rw [h.input])

/-! ### Changes around the link -/

/-- Neither the stream nor the client has changed. -/
theorem LinkInv.around (h : LinkInv cfg s) {n : Node σ} (hc : n.c = s.node.c)
    (hlink : Link cfg.peer n) (hfreed : n.freed = s.node.freed)
    (hmax : n.protoMaxBulkLen = s.node.protoMaxBulkLen)
    (hlim : n.clientMaxQuerybufLen = s.node.clientMaxQuerybufLen)
    (htrace : n.trace = s.node.trace) (hforw : n.forwarded = s.node.forwarded)
    (hall : n.server.replSlaveReplAll = s.node.server.replSlaveReplAll)
    (hq : Quiescent n → Quiescent s.node) : LinkInv cfg { s with node := n } := by
  have hi := h.inv
  have hinv : StreamInv cfg.peer cfg.maxBulk cfg.stream cfg.start n.c.reploff s.received n := by
    rw [hc]
    exact ⟨hlink, by rw [hc]; exact hi.queue, by rw [hc]; exact hi.notSlave,
      by rw [hc]; exact hi.notBlocked, by rw [hc]; exact hi.notClosing, hfreed.trans hi.notFreed,
      hmax.trans hi.maxBulk, hi.received_le, by rw [htrace]; exact hi.argvs,
      by rw [hc]; exact hi.reqtype, by rw [hc, htrace]; exact hi.awaits, by rw [hc]; exact hi.fits,
      by rw [hc]; exact hi.readReploff, by rw [hc, htrace]; exact hi.reploff,
      by rw [hc]; exact hi.used⟩
  refine ⟨hinv, by rw [hlim]; exact h.limits, ?_, ?_, ?_⟩
  · show n.c.pendingQuerybuf = _
    rw [hc, h.pending, ← htrace]
  · intro hf
    show n.forwarded = _
    rw [hforw, h.forwarded (by simpa only [forwards, hall] using hf), ← htrace]
  · intro hquiet
    obtain ⟨hparked, hnext⟩ := h.drained (hq hquiet)
    refine ⟨?_, ?_⟩
    · show n.c.input.IsParked
      rw [hc]
      exact hparked
    · show n.trace.length < _ → _
      rw [htrace]
      exact hnext

theorem LinkInv.pause (h : LinkInv cfg s) (stop : Nat) :
    LinkInv cfg { s with node := pauseClients s.node stop } :=
  h.around rfl h.inv.link rfl rfl rfl rfl rfl rfl fun hq => absurd hq.1 (by simp [pauseClients])

theorem LinkInv.tick (h : LinkInv cfg s) (now : Nat) :
    LinkInv cfg { s with node := { s.node with mstime := now } } :=
  h.around rfl h.inv.link rfl rfl rfl rfl rfl rfl id

theorem LinkInv.cron (h : LinkInv cfg s) :
    LinkInv cfg { s with node := clientsArePaused s.node } := by
  unfold clientsArePaused
  split
  · refine h.around rfl h.inv.link rfl rfl rfl rfl rfl rfl fun hq => absurd hq.2 ?_
    simp [h.inv.notSlave, h.inv.notBlocked]
  · exact h

theorem LinkInv.env (h : LinkInv cfg s) {server : Server} {peers : Int → Option Peer}
    (feed : FeedState) (world : σ) (hsame : SameLink s.node server peers) :
    LinkInv cfg { s with node := { s.node with
      server := server, peers := peers, feed := feed, world := world } } := by
  obtain ⟨hrole, hall, hconn⟩ := hsame
  refine h.around rfl ?_ rfl rfl rfl rfl rfl hall id
  have hl := h.inv.link
  unfold Link at hl ⊢
  cases hp : cfg.peer with
  | none =>
    rw [hp] at hl
    exact ⟨hl.1, hl.2.1, hrole.trans hl.2.2⟩
  | some gid =>
    rw [hp] at hl
    obtain ⟨hm, hcm, hg, hne, hpc⟩ := hl
    refine ⟨hm, hcm, hg, hne, ?_⟩
    rw [hg] at hconn
    show ((peers gid).map Peer.connected).getD false = true
    rw [hconn]
    exact hpc

/-! ### The drivers of the loop -/

theorem processInputBuffer_inv {base : Int} {received : Nat} {n : Node σ}
    (h : StreamInv cfg.peer cfg.maxBulk cfg.stream cfg.start base received n) :
    LoopEnds cfg.peer cfg.maxBulk cfg.stream cfg.start base received n
      (processInputBuffer cfg.procs n) :=
  inputLoop_inv cfg.carries _ n (Nat.le_refl _) h

/-- If the next command is not complete, the loop processes none. -/
theorem LoopEnds.trace_eq {base : Int} {received : Nat} {n n' : Node σ}
    (h : LoopEnds cfg.peer cfg.maxBulk cfg.stream cfg.start base received n n')
    (hnext : n.trace.length < cfg.stream.length →
      received < prefixLen cfg.stream (n.trace.length + 1)) : n'.trace = n.trace := by
  have hle := h.inv.done_le
  have hprefix := h.inv.prefixLen_le
  have hlen : n'.trace.length ≤ n.trace.length := by
    by_contra hlt
    have hmono := prefixLen_mono cfg.stream (show n.trace.length + 1 ≤ n'.trace.length by omega)
    have := hnext (by omega)
    omega
  exact (h.trace.eq_of_length_le hlen).symm

theorem LinkInv.resume (h : LinkInv cfg s) (hok : s.node.trace.length < cfg.stream.length →
      s.received < prefixLen cfg.stream (s.node.trace.length + 1)) :
    LinkInv cfg { s with node := processUnblockedClient cfg.procs s.node } := by
  have hi := h.inv
  have hinv : StreamInv cfg.peer cfg.maxBulk cfg.stream cfg.start s.node.c.reploff s.received
      { s.node with unblocked := s.node.unblocked - 1 } :=
    ⟨hi.link, hi.queue, hi.notSlave, hi.notBlocked, hi.notClosing, hi.notFreed, hi.maxBulk,
      hi.received_le, hi.argvs, hi.reqtype, hi.awaits, hi.fits, hi.readReploff, hi.reploff, hi.used⟩
  unfold processUnblockedClient
  simp only
  split
  · have hend := processInputBuffer_inv hinv
    generalize processInputBuffer cfg.procs { s.node with unblocked := s.node.unblocked - 1 } = n'
      at hend ⊢
    have htrace : n'.trace = s.node.trace := hend.trace_eq hok
    have hst := hend.steady
    have hoff : n'.c.reploff = s.node.c.reploff := by
      rw [hend.inv.reploff, htrace, hi.reploff]
    refine ⟨by rw [hoff]; exact hend.inv, ?_, ?_, ?_, fun hq => hend.drained hq.1⟩
    · rw [show n'.clientMaxQuerybufLen = _ from hst.clientMaxQuerybufLen]
      exact h.limits
    · show n'.c.pendingQuerybuf = _
      rw [hst.pendingQuerybuf, htrace]
      exact h.pending
    · intro hf
      show n'.forwarded = _
      rw [hst.forwarded, htrace]
      refine h.forwarded ?_
      simpa only [forwards, hst.server] using hf
  · rename_i hbuf
    have hnil : s.node.c.input.querybuf = [] := by
      by_contra hne
      exact hbuf ⟨by simp [hi.notBlocked], hne⟩
    exact ⟨hinv, h.limits, h.pending, h.forwarded, fun _ => hinv.drained_nil hnil⟩

/-- The bytes that were read lie between what was received and what is to come. -/
theorem StreamInv.appendRead {base : Int} {n : Node σ} {received k : Nat}
    (h : StreamInv cfg.peer cfg.maxBulk cfg.stream cfg.start base received n)
    (hk : received + k ≤ (encoded cfg.stream).length)
    (hfits : Fits (n.c.input.querybuf ++ ((encoded cfg.stream).drop received).take k) 0
      n.c.input.bulklen) :
    StreamInv cfg.peer cfg.maxBulk cfg.stream cfg.start base (received + k)
      (appendRead n (((encoded cfg.stream).drop received).take k)) := by
  have hbytes : (((encoded cfg.stream).drop received).take k).length = k := by
    rw [length_take, length_drop]
    omega
  have hcount : (n.c.isMaster ∨ n.onPeerLink) := by
    have hl := h.link
    unfold Link at hl
    cases hp : cfg.peer with
    | none =>
      rw [hp] at hl
      exact .inl hl.1
    | some gid =>
      rw [hp] at hl
      right
      simp [Node.onPeerLink, hl.2.1, hl.2.2.1, hl.2.2.2.2]
  obtain ⟨r, hr, heq⟩ := h.awaits
  refine ⟨h.link, h.queue, h.notSlave, h.notBlocked, h.notClosing, h.notFreed, h.maxBulk, hk,
    h.argvs, h.reqtype, ⟨r, ?_, ?_⟩, hfits, ?_, h.reploff, h.used⟩
  · exact hr
  · refine heq.trans ?_
    show _ = (n.c.input.querybuf ++ _) ++ _
    rw [append_assoc, ← drop_drop, take_append_drop]
  · show (if _ then _ else _) = _
    rw [if_pos hcount, hbytes, h.readReploff]
    omega

theorem forwardApplied_eq (n : Node σ) (base : Int) (select : Option Int) (forward : Bool)
    (hne : n.c.reploff - base ≠ 0) :
    ∃ feed, forwardApplied n base select forward = { n with
      feed := feed
      forwarded := if forward then
        n.forwarded ++ n.c.pendingQuerybuf.take (n.c.reploff - base).toNat else n.forwarded
      c := { n.c with
        pendingQuerybuf := n.c.pendingQuerybuf.drop (n.c.reploff - base).toNat
        pendingUsedOffset := 0 } } := by
  unfold forwardApplied
  simp only [if_neg hne]
  cases forward with
  | true => exact ⟨_, rfl⟩
  | false => exact ⟨_, rfl⟩

/-- Forwarding what was applied brings the forwarded bytes up to the offset. -/
theorem forwardApplied_inv {base : Int} {n : Node σ} {received : Nat} (k₀ : Nat)
    (h : StreamInv cfg.peer cfg.maxBulk cfg.stream cfg.start base received n)
    (hbase : base = cfg.start + prefixLen cfg.stream k₀) (hk₀ : k₀ ≤ closedPrefix n.trace)
    (hlim : protoInlineMaxSize ≤ n.clientMaxQuerybufLen ∧ cfg.maxBulk + 2 ≤ n.clientMaxQuerybufLen)
    (hpend : n.c.pendingQuerybuf = ((encoded cfg.stream).take received).drop (prefixLen cfg.stream
      k₀))
    (hforw : forwards cfg n = true →
      n.forwarded = (encoded cfg.stream).take (prefixLen cfg.stream k₀))
    (hdrained : n.clientsPaused = false → Drained cfg.stream received n) (select : Option Int) :
    LinkInv cfg ⟨forwardApplied n base select (forwards cfg n), received⟩ := by
  have hmono := prefixLen_mono cfg.stream hk₀
  have hoff := h.reploff
  by_cases happlied : n.c.reploff - base = 0
  · have hsame : prefixLen cfg.stream k₀ = prefixLen cfg.stream (closedPrefix n.trace) := by omega
    have hnone : forwardApplied n base select (forwards cfg n) = n := by
      simp only [forwardApplied, if_pos happlied]
    rw [hnone]
    refine ⟨?_, hlim, by rw [← hsame]; exact hpend, fun hf => by rw [← hsame]; exact hforw hf,
      fun hq => hdrained hq.1⟩
    have hb : n.c.reploff = base := by omega
    show StreamInv _ _ _ _ n.c.reploff _ n
    rw [hb]
    exact h
  · obtain ⟨feed, heq⟩ := forwardApplied_eq n base select (forwards cfg n) happlied
    rw [heq]
    have hnat : (n.c.reploff - base).toNat =
        prefixLen cfg.stream (closedPrefix n.trace) - prefixLen cfg.stream k₀ := by omega
    refine ⟨⟨h.link, h.queue, h.notSlave, h.notBlocked, h.notClosing, h.notFreed, h.maxBulk,
      h.received_le, h.argvs, h.reqtype, h.awaits, h.fits, h.readReploff, h.reploff, by simp⟩,
      hlim, ?_, ?_, fun hq => ⟨(hdrained hq.1).parked, (hdrained hq.1).next⟩⟩
    · show n.c.pendingQuerybuf.drop _ = ((encoded cfg.stream).take received).drop
        (prefixLen cfg.stream (closedPrefix n.trace))
      rw [hpend, hnat, drop_drop]
      congr 1
      omega
    · intro hf
      replace hf : forwards cfg n = true := hf
      show (if forwards cfg n = true then _ else _) =
        (encoded cfg.stream).take (prefixLen cfg.stream (closedPrefix n.trace))
      rw [if_pos hf, hforw hf, hpend, hnat]
      -- the part between the two offsets closes the gap
      have hprefix := h.prefixLen_le
      have hk := closedPrefix_le n.trace
      have hdone := prefixLen_mono cfg.stream hk
      have hcut : ((encoded cfg.stream).take received).take
          (prefixLen cfg.stream (closedPrefix n.trace)) =
          (encoded cfg.stream).take (prefixLen cfg.stream (closedPrefix n.trace)) := by
        rw [take_take]
        congr 1
        omega
      have hcut₀ : ((encoded cfg.stream).take received).take (prefixLen cfg.stream k₀) =
          (encoded cfg.stream).take (prefixLen cfg.stream k₀) := by
        rw [take_take]
        congr 1
        omega
      rw [← hcut, ← hcut₀, ← take_add]
      congr 1
      omega

/-- A parked parser asks for bytes, and for no more than it can take. -/
theorem StreamInv.fits_read {base : Int} {n : Node σ} {received : Nat}
    (h : StreamInv cfg.peer cfg.maxBulk cfg.stream cfg.start base received n)
    (hmore : received < (encoded cfg.stream).length) (hparked : n.c.input.IsParked) :
    0 < readlen n.c.input ∧ ∀ bytes : Bytes, (bytes.length : Int) ≤ readlen n.c.input →
      Fits (n.c.input.querybuf ++ bytes) 0 n.c.input.bulklen := by
  have hrest : (encoded cfg.stream).drop received ≠ [] := by
    rw [Ne, drop_eq_nil_iff]
    omega
  obtain ⟨cmd, r, -, hr, -⟩ := h.exists_next (append_ne_nil_of_right_ne_nil _ hrest)
  have hreq := h.reqtype
  generalize n.c.input = i at hparked hr hreq ⊢
  obtain ⟨querybuf, reqtype, m, bulklen, argv⟩ := i
  simp only [Input.IsParked, Input.Awaiting, AtStart] at hparked hr hreq
  cases bulklen with
  | none =>
    replace hparked : querybuf.length < 67 := hparked
    have hlen : readlen ⟨querybuf, reqtype, m, none, argv⟩ = protoIobufLen := by
      cases reqtype <;> rfl
    refine ⟨by rw [hlen]; decide, ?_⟩
    intro bytes hb
    rw [hlen] at hb
    left
    simp only [protoIobufLen, protoInlineMaxSize, length_append] at *
    omega
  | some l =>
    replace hparked : querybuf.length < l + 2 := hparked
    rcases hreq with rfl | ⟨-, -, hno, -⟩
    · have hm : m ≠ 0 := by
        cases hr with
        | bulk _ => exact Nat.succ_ne_zero _
      by_cases hbig : l ≥ protoMbulkBigArg
      · have hlen : readlen ⟨querybuf, .multibulk, m, some l, argv⟩ =
            min (protoIobufLen : Int) ((l : Int) + 2 - querybuf.length) := by
          simp only [readlen, if_pos (And.intro hm hbig)]
        rw [hlen]
        refine ⟨by simp only [protoIobufLen]; omega, ?_⟩
        intro bytes hb
        right
        refine ⟨l, rfl, hbig, rfl, ?_⟩
        show (querybuf ++ bytes).length ≤ l + 2
        rw [length_append]
        omega
      · have hlen : readlen ⟨querybuf, .multibulk, m, some l, argv⟩ = protoIobufLen := by
          simp only [readlen]
          rw [if_neg (fun hand => hbig hand.2)]
        rw [hlen]
        refine ⟨by decide, ?_⟩
        intro bytes hb
        left
        simp only [protoIobufLen, protoInlineMaxSize, protoMbulkBigArg, length_append] at *
        omega
    · exact absurd hno (by simp)

/-- A buffer that fits is below the limit of the query buffer. -/
theorem StreamInv.querybuf_le {base : Int} {n : Node σ} {received : Nat}
    (h : StreamInv cfg.peer cfg.maxBulk cfg.stream cfg.start base received n)
    (hmore : n.c.input.querybuf ≠ [])
    (hlim : protoInlineMaxSize ≤ n.clientMaxQuerybufLen ∧
      cfg.maxBulk + 2 ≤ n.clientMaxQuerybufLen) :
    n.c.input.querybuf.length ≤ n.clientMaxQuerybufLen := by
  obtain ⟨cmd, r, hcmd, hr, -⟩ := h.exists_next (append_ne_nil_of_left_ne_nil hmore _)
  have hwf := cfg.carries.wf cmd (mem_of_getElem? hcmd)
  have hfits := h.fits
  rcases hfits with hle | ⟨l, hl, -, -, hle⟩
  · omega
  · have hbulk : l ≤ cfg.maxBulk := by
      rw [Input.Awaiting, hl] at hr
      generalize n.c.input.multibulklen = m at hr
      generalize n.c.input.argv = argv at hr
      cases hr with
      | bulk hcut => exact hwf.bulk_le _ (by simp [hcut])
    omega

/-- The database that is selected on the slaves before what a peer has sent. -/
def selectFor (peer : Option Int) (n : Node σ) : Option Int :=
  if peer.isSome then some n.c.db else none

/-- The state of a link from which `processInputBuffer` starts after a read. -/
structure ReadStart (cfg : LinkConfig σ) (s : LinkState σ) (k : Nat) (n : Node σ) : Prop where
  inv : StreamInv cfg.peer cfg.maxBulk cfg.stream cfg.start s.node.c.reploff (s.received + k) n
  pending : n.c.pendingQuerybuf = ((encoded cfg.stream).take (s.received + k)).drop
    (prefixLen cfg.stream (closedPrefix s.node.trace))
  result : readQueryFromClient cfg.procs s.node (((encoded cfg.stream).drop s.received).take k) =
    forwardApplied (processInputBuffer cfg.procs n) s.node.c.reploff (selectFor cfg.peer s.node)
      (forwards cfg s.node)

theorem LinkInv.readStart (h : LinkInv cfg s) {k : Nat}
    (hcan : CanRead s (encoded cfg.stream).length k) (hok : PauseHarmless cfg s (.read k)) :
    ReadStart cfg s k (appendRead s.node (((encoded cfg.stream).drop s.received).take k)) := by
  obtain ⟨hk, hlen, hall⟩ := hcan
  have hbytes : (((encoded cfg.stream).drop s.received).take k).length = k := by
    rw [length_take, length_drop]
    omega
  have hne : ((encoded cfg.stream).drop s.received).take k ≠ [] := by
    intro hnil
    rw [hnil] at hbytes
    exact absurd hbytes (by simp; omega)
  have hfits : Fits (s.node.c.input.querybuf ++ ((encoded cfg.stream).drop s.received).take k) 0
      s.node.c.input.bulklen := by
    by_cases hq : s.node.clientsPaused = true ∨ s.node.unblocked ≠ 0
    · left
      rw [length_append, hbytes]
      exact (hok hq).2
    · have hquiet : Quiescent s.node :=
        ⟨by simpa using fun hp => hq (.inl hp), by simpa using fun hu => hq (.inr hu)⟩
      exact (h.inv.fits_read (by omega) (h.drained hquiet).parked).2 _ (by rw [hbytes]; exact hlen)
  have hinv := h.inv.appendRead hall hfits
  refine ⟨hinv, ?_, ?_⟩
  · have hdone := h.inv.prefixLen_le
    have hclosed := prefixLen_mono cfg.stream (closedPrefix_le s.node.trace)
    have hrecv := h.inv.received_le
    rw [h.inv.link.appendRead_pending, h.pending, take_add, drop_append_of_le_length]
    rw [length_take]
    omega
  · have hquery :
        (appendRead s.node (((encoded cfg.stream).drop s.received).take k)).c.input.querybuf
        ≠ [] := by
      show s.node.c.input.querybuf ++ _ ≠ []
      exact fun hnil => hne (append_eq_nil_iff.mp hnil).2
    have hlim := hinv.querybuf_le hquery h.limits
    have hl := hinv.link
    unfold readQueryFromClient
    rw [if_neg hne]
    simp only
    rw [if_neg (Nat.not_lt.mpr hlim), hl.onMasterLink]
    unfold forwards selectFor
    -- whichever link it is, what was applied is forwarded
    cases hp : cfg.peer with
    | none => rfl
    | some gid =>
      rw [hp] at hl
      have hpeer : (appendRead s.node
          (((encoded cfg.stream).drop s.received).take k)).onPeerLink = true := by
        simp only [Node.onPeerLink, hl.2.1, hl.2.2.1, hl.2.2.2.2, Bool.and_self]
      simp only [hpeer, isNone_some, isSome_some, Bool.false_eq_true, if_false,
        if_true, Bool.true_or]
      rfl

theorem LinkInv.read (h : LinkInv cfg s) {k : Nat}
    (hcan : CanRead s (encoded cfg.stream).length k) (hok : PauseHarmless cfg s (.read k)) :
    LinkInv cfg
      { node := readQueryFromClient cfg.procs s.node (((encoded cfg.stream).drop s.received).take k)
        received := s.received + k } := by
  have hstart := h.readStart hcan hok
  rw [hstart.result]
  generalize hn : appendRead s.node (((encoded cfg.stream).drop s.received).take k) = n at hstart ⊢
  have hend := processInputBuffer_inv hstart.inv
  have hst := hend.steady
  have htrace : n.trace = s.node.trace := by rw [← hn]; rfl
  have hlim : n.clientMaxQuerybufLen = s.node.clientMaxQuerybufLen := by rw [← hn]; rfl
  have hserver : n.server = s.node.server := by rw [← hn]; rfl
  have hforw : n.forwarded = s.node.forwarded := by rw [← hn]; rfl
  have hfw : forwards cfg (processInputBuffer cfg.procs n) = forwards cfg s.node := by
    simp only [forwards, hst.server, hserver]
  rw [← hfw]
  refine forwardApplied_inv (closedPrefix s.node.trace) hend.inv h.inv.reploff ?_ ?_ ?_ ?_
    hend.drained _
  · rw [← htrace]
    exact closedPrefix_mono hend.trace
  · rw [hst.clientMaxQuerybufLen, hlim]
    exact h.limits
  · rw [hst.pendingQuerybuf]
    exact hstart.pending
  · intro hf
    rw [hst.forwarded, hforw]
    exact h.forwarded (by rw [← hfw]; exact hf)

theorem linkNext_inv {a : LinkAct σ} (h : LinkInv cfg s) (hok : PauseHarmless cfg s a)
    (hnext : linkNext cfg s a = some s') : LinkInv cfg s' := by
  cases a with
  | read k =>
    simp only [linkNext] at hnext
    split at hnext
    · exact absurd hnext (by simp)
    rename_i hopen
    split at hnext
    · rename_i hzero
      -- the parser never asks for nothing
      exfalso
      by_cases hq : s.node.clientsPaused = true ∨ s.node.unblocked ≠ 0
      · have := (hok hq).1
        omega
      · have hquiet : Quiescent s.node :=
          ⟨by simpa using fun hp => hq (.inl hp), by simpa using fun hu => hq (.inr hu)⟩
        have hrecv := h.inv.received_le
        have := (h.inv.fits_read (by omega) (h.drained hquiet).parked).1
        omega
    · split at hnext
      · rename_i hread
        obtain rfl := some.inj hnext
        exact h.read hread hok
      · exact absurd hnext (by simp)
  | pause stop =>
    obtain rfl := some.inj hnext
    exact h.pause stop
  | tick now =>
    obtain ⟨-, ⟨⟩⟩ := ite_none_right_eq_some.1 hnext
    exact h.tick now
  | cron =>
    obtain ⟨-, ⟨⟩⟩ := ite_none_left_eq_some.1 hnext
    exact h.cron
  | resume =>
    obtain ⟨-, ⟨⟩⟩ := ite_none_left_eq_some.1 hnext
    exact h.resume hok
  | env server peers feed world =>
    obtain ⟨hsame, ⟨⟩⟩ := ite_none_right_eq_some.1 hnext
    exact h.env feed world hsame

/-! ## Main result -/

/-- In every run whose pauses are harmless the link stays open, and at rest what was received
has been applied once and in order, counted, and passed on. -/
theorem stream_applied_once (h : (linkSystem cfg).Reachable (PauseHarmless cfg) s) :
    LinkOk cfg s := by
  refine LinkInv.ok (h.invariant ?_ fun s a s' hs hok hnext => linkNext_inv hs hok hnext)
  intro s hs
  exact hs.1.inv hs.2

/-- A module that registers nothing. -/
def noModule : Procs Unit where
  moduleCommands := []
  run := fun world db _ => (world, db, none)

/-- A transaction of the peer 2 around a `PING`. -/
def pingBlock : List Argv :=
  [[ascii "CRDT.MULTI", ascii "2"], [ascii "PING"], [ascii "CRDT.EXEC", ascii "2"]]

theorem pingBlock_link : LinkStream noModule (some 2) 1024 pingBlock where
  maxBulk_le := by decide
  wf := by
    intro cmd hcmd
    have hne : ∀ c ∈ pingBlock, c ≠ [] := by decide
    have hargc : ∀ c ∈ pingBlock, c.length ≤ maxMultibulkLen := by decide
    have hbulk : ∀ c ∈ pingBlock, ∀ a ∈ c, a.length ≤ 1024 := by decide
    exact ⟨hne cmd hcmd, hargc cmd hcmd, hbulk cmd hcmd⟩
  link := by
    intro cmd hcmd
    have hquit : ∀ c ∈ pingBlock, strcaseeq (c.headD []) (ascii "quit") = false := by decide
    have hend : ∀ c ∈ pingBlock, (lookupCommand noModule (c.headD [])).map Command.proc ≠
        some .crdtMergeEndCommand := by decide +kernel
    have hexec : ∀ c ∈ pingBlock, (lookupCommand noModule (c.headD [])).map Command.proc =
        some .crdtExecCommand → c.tail = [ascii "2"] := by decide +kernel
    refine ⟨hquit cmd hcmd, ?_, ?_⟩
    · intro entry hlook hproc
      refine hend cmd hcmd ?_
      rw [hlook, map_some, hproc]
    · intro entry gid a g hpeer hlook hproc htail hg
      have htwo := hexec cmd hcmd (by rw [hlook, map_some, hproc])
      rw [htwo] at htail
      obtain rfl : ascii "2" = a := by simpa using htail
      have hval : string2gid (ascii "2") = some 2 := by decide
      rw [hval] at hg
      obtain rfl := some.inj hpeer
      exact (some.inj hg).symm

def pingLink : LinkConfig Unit where
  procs := noModule
  peer := some 2
  maxBulk := 1024
  stream := pingBlock
  start := 100
  carries := pingBlock_link

/-- A master of gid 1 without a problem. -/
def healthyServer : Server where
  crdtEnabled := true
  masterhost := false
  masterIsCrdt := false
  replSlaveReplAll := false

/-- No command finds a problem. -/
def healthyMoments (_ : Nat) : Moment where
  requirepass := false
  authenticated := true
  clusterEnabled := false
  clusterRedirect := fun _ => none
  maxmemory := false
  freeMemoryFails := false
  stopWritesOnBgsaveErr := true
  saveparamslen := 0
  lastbgsaveErr := false
  aofLastWriteErr := none
  replMinSlavesToWrite := 0
  replMinSlavesMaxLag := 10
  replGoodSlavesCount := 0
  replSlaveRo := true
  pubsub := false
  replConnected := false
  replServeStaleData := true
  loading := false
  crdtLoading := false
  luaTimedout := false

/-- The client of a peer at the offset `off`. -/
def peerClient (gid off : Int) : Client where
  input := ⟨[], .none, 0, none, []⟩
  pendingQuerybuf := []
  pendingUsedOffset := 0
  reploff := off
  readReploff := off
  gid := gid
  db := 0
  isSlave := false
  isMaster := false
  isCrdtMaster := true
  multi := false
  dirtyCas := false
  dirtyExec := false
  blocked := false
  closeAfterReply := false
  closeAsap := false
  mstate := []

/-- A node connected with the peer 2. -/
def connectedNode : Node Unit where
  server := healthyServer
  moments := healthyMoments
  protoMaxBulkLen := 1024
  clientMaxQuerybufLen := 1024 * 1024
  peers := fun gid => if gid = 2 then some ⟨true, none⟩ else none
  feed := idleFeed
  world := ()
  clientsPaused := false
  clientsPauseEndTime := 0
  mstime := 0
  c := peerClient 2 100
  freed := false
  unblocked := 0
  trace := []
  forwarded := []

theorem connectedNode_fresh : (linkSystem pingLink).init ⟨connectedNode, 0⟩ :=
  ⟨{ link := ⟨rfl, rfl, rfl, by decide, rfl⟩
     maxBulk := rfl
     querybufLen := by decide
     input := rfl
     pending := ⟨rfl, rfl⟩
     offsets := ⟨rfl, rfl⟩
     flags := ⟨rfl, rfl, rfl, rfl, rfl⟩
     transaction := rfl
     unblocked := rfl
     ghosts := ⟨rfl, rfl⟩ }, rfl⟩

/-- The transaction arrives in two pieces, the first of which ends inside `PING`. -/
theorem stream_applied_once_two_reads :
    ∃ s, (linkSystem pingLink).runMeeting (PauseHarmless pingLink) ⟨connectedNode, 0⟩
        [.read 40, .read 28] = some s ∧
      s.node.trace.map (·.multi) = [true, true, false] ∧ LinkOk pingLink s := by
  obtain ⟨s, hrun, htrace⟩ : ∃ s, (linkSystem pingLink).runMeeting (PauseHarmless pingLink)
      ⟨connectedNode, 0⟩ [.read 40, .read 28] = some s ∧
      s.node.trace.map (·.multi) = [true, true, false] := ⟨_, rfl, rfl⟩
  have hreach := Lib.System.reachable_of_runMeeting (.init connectedNode_fresh) hrun
  exact ⟨s, hrun, htrace, stream_applied_once hreach⟩

/-- The transaction arrives while clients are paused, and the pause ends. -/
def readWhilePaused : List (LinkAct Unit) :=
  [.pause 10, .read 68, .tick 20, .cron, .resume]

/-- The resumed transaction is executed and counted, but no slave gets it. -/
theorem resumed_bytes_not_forwarded :
    ¬ ∀ s, (linkSystem pingLink).Reachable Lib.System.anyStep s → LinkOk pingLink s := by
  intro hall
  obtain ⟨s, hrun, hquiet, hforw, htrace⟩ : ∃ s,
      (linkSystem pingLink).run ⟨connectedNode, 0⟩ readWhilePaused = some s ∧
      Quiescent s.node ∧ s.node.forwarded = [] ∧ closedPrefix s.node.trace = 3 :=
    ⟨_, rfl, ⟨rfl, rfl⟩, rfl, rfl⟩
  have hok := hall s (Lib.System.reachable_of_run (.init connectedNode_fresh) hrun)
  have hall := (hok.accounted hquiet).forwarded rfl
  rw [hforw, htrace] at hall
  exact absurd hall (by decide)

end XredisCrdt.Net
