import XredisCrdt.Lib.System
import XredisCrdt.Peer.FullSync

/-!
# Logical time after data recovery

A node that lost data gets it back from its peers: each peer with a
`backstream_vc` sends a full sync, and its `CRDT.MERGE_END` carries the clock up to
which the peer knows the node. `recovery` is the system of all that changes
`crdtServer.vectorClock`; the ghost field `completed` collects the own-gid entries
of the clocks with which a peer completed its backstream since the clock was last
reset.

The texts of clocks in a run name no gid twice, see `parseClock`.
-/

namespace XredisCrdt.Peer

open Clock Function VectorClock

/-! ## Where the clock comes from -/

/-- The clock of `initServer`, or after a failed load: the own gid alone. -/
def bootClock (gid : Gid) (localClock : Int) : VectorClock :=
  VectorClock.null.add gid (if localClock < 0 then 0 else localClock)

/-- `resetVectorClock(vc)` has its argument by value, and a clock of one unit is not
a pointer. -/
def resetVectorClock (v : VectorClock) : VectorClock :=
  if v.units.length = 1 then v else v.clean

/-- The aux field `vclock` of an RDB file. -/
def loadVclock (s : CrdtServer) (vclock : VectorClock) : CrdtServer :=
  { s with
    vectorClock := if vclock.time s.crdtGid = 0 then vclock.add s.crdtGid 0 else vclock }

/-- The clocks after `FLUSHALL`, or when the data set is dropped to be recovered. -/
def resetClocks (s : CrdtServer) : CrdtServer :=
  { s with
    vectorClock := resetVectorClock s.vectorClock
    gcVectorClock := resetVectorClock s.gcVectorClock }

/-! ## Runs -/

/-- A node, with the own-gid entries of the clocks of completed backstreams. -/
structure Recovery where
  server : CrdtServer
  completed : List Nat

/-- What may happen; `configure` is any change to the rest of the state: peers
configured, connected or removed, the role, `loading`, the other clocks. -/
inductive RecoveryAct
  | incrLocal (delta : Nat)
  | jump (qps : Nat)
  | mergeVectorClock (gid : Nat) (vclock : VectorClock)
  | mergeStart (uninitialized : Bytes) (argv : Argv)
  | mergeEnd (clientGid : Int) (qps : Nat) (argv : Argv)
  | configure (iAmMaster : Bool) (vectorClockCache gcVectorClock : VectorClock)
      (crdtMasters : Fin 16 → Option PeerMaster) (peerSet : Fin 16 → Bool) (loading : Bool)
  | flush
  | rdbLoad (vclock : VectorClock)
  | rdbRefused

/-- The explicit resets. -/
def RecoveryAct.isReset : RecoveryAct → Bool
  | .flush | .rdbLoad _ | .rdbRefused => true
  | _ => false

/-- The own-gid entries of the clocks of peers that were backstreaming in `s` and
are not in `s'`. -/
def completedBy (s s' : CrdtServer) : List Nat :=
  (List.finRange 16).filterMap fun i =>
    match s.crdtMasters i, s'.crdtMasters i with
    | some p, some p' =>
      if p.backstreaming ∧ ¬ p'.backstreaming then some (p'.vectorClock.time s.crdtGid) else none
    | _, _ => none

def recoveryNext (r : Recovery) : RecoveryAct → Option Recovery
  | .incrLocal delta => some { r with server := incrLocalVcUnit r.server delta }
  | .jump qps => some { r with server := jumpVectorClock r.server qps }
  | .mergeVectorClock gid vclock =>
    if gid = r.server.crdtGid then none
    else some { r with server := mergeVectorClock r.server gid vclock }
  | .mergeStart uninitialized argv =>
    match (crdtMergeStartCommand uninitialized r.server argv).result with
    | .ok (_, s) => some { r with server := s }
    | .error _ => none
  | .mergeEnd clientGid qps argv =>
    match (crdtMergeEndCommand clientGid qps r.server argv).result with
    | .ok (_, s) => some { server := s, completed := r.completed ++ completedBy r.server s }
    | .error _ => none
  | .configure iAmMaster cache gc crdtMasters peerSet loading =>
    some { r with server := { r.server with
      iAmMaster := iAmMaster
      vectorClockCache := cache
      gcVectorClock := gc
      crdtMasters := crdtMasters
      peerSet := peerSet
      loading := loading } }
  | .flush => some { server := resetClocks r.server, completed := [] }
  | .rdbLoad vclock => some { server := loadVclock r.server vclock, completed := [] }
  | .rdbRefused =>
    some
      { server := { r.server with vectorClock := bootClock r.server.crdtGid 0 }
        completed := [] }

/-- Runs from the start of the process. -/
def recovery : Lib.System Recovery RecoveryAct where
  init r := (∃ localClock, r.server.vectorClock = bootClock r.server.crdtGid localClock) ∧
    r.completed = []
  next := recoveryNext

/-- The clock that a `CRDT.MERGE_END` carries. -/
def clockArg (argv : Argv) : Option VectorClock :=
  argv[2]?.bind fun text => (parseClock text).result.toOption

/-- The own clock stays below 2 ^ 56. -/
def BelowLimit (r : Recovery) : RecoveryAct → Prop
  | .incrLocal delta => r.server.vectorClock.time r.server.crdtGid + delta < 2 ^ 56
  | .jump qps => r.server.vectorClock.time r.server.crdtGid + jumpVcu qps < 2 ^ 56
  | .mergeEnd _ qps argv =>
    ∀ vclock ∈ clockArg argv, vclock.time r.server.crdtGid + jumpVcu qps < 2 ^ 56
  | _ => True

instance (r : Recovery) : (a : RecoveryAct) → Decidable (BelowLimit r a)
  | .incrLocal _ => inferInstanceAs (Decidable (_ < _))
  | .jump _ => inferInstanceAs (Decidable (_ < _))
  | .mergeEnd _ _ argv => inferInstanceAs (Decidable (∀ vclock ∈ clockArg argv, _ < _))
  | .mergeVectorClock _ _ | .mergeStart _ _ | .configure _ _ _ _ _ _ | .flush | .rdbLoad _
  | .rdbRefused => inferInstanceAs (Decidable True)

/-! ## Steps -/

theorem bootClock_listed (gid : Gid) (localClock : Int) :
    (bootClock gid localClock).listed gid ≠ none := by
  rw [bootClock, add_listed, if_pos rfl]
  simp

theorem listed_of_grows {v w : VectorClock} (h : v.Grows w) {g : Nat} (hg : v.listed g ≠ none) :
    w.listed g ≠ none := by
  obtain ⟨t, ht⟩ := Option.ne_none_iff_exists'.1 hg
  obtain ⟨t', ht', -⟩ := h g t ht
  rw [ht']
  simp

theorem incrLocalVcUnit_grows {s : CrdtServer} {t : Nat} {delta : Nat}
    (ht : s.vectorClock.listed s.crdtGid = some t) (hlt : t + delta < 2 ^ 56) :
    s.vectorClock.Grows (incrLocalVcUnit s delta).vectorClock :=
  grows_incr ht hlt (by push_cast; rfl) (Nat.le_add_right t delta)

/-- The own clock is set to what the peer knows and then jumps. -/
theorem finishBackstream_clock {s : CrdtServer} (i : Fin 16) {p : PeerMaster} {qps t : Nat}
    (ht : s.vectorClock.listed s.crdtGid = some t)
    (hlt : p.vectorClock.time s.crdtGid + jumpVcu qps < 2 ^ 56) :
    s.vectorClock.Grows (finishBackstream s i p qps).vectorClock ∧
      p.vectorClock.time s.crdtGid ≤ (finishBackstream s i p qps).vectorClock.time s.crdtGid := by
  have htime : s.vectorClock.time s.crdtGid = t := by rw [time, ht]; rfl
  unfold finishBackstream
  rw [tryClean_eq]
  simp only [CrdtServer.setPeer, htime]
  split
  · rename_i hlow
    -- first to the peer's entry, then by the jump
    set b := p.vectorClock.time s.crdtGid with hb
    have hfirst : (s.vectorClock.incr s.crdtGid ((b : Int) - t)).listed s.crdtGid = some b :=
      incr_listed_self ht (by omega) (by omega)
    have hsecond : ((s.vectorClock.incr s.crdtGid ((b : Int) - t)).incr s.crdtGid
        (jumpVcu qps : Int)).listed s.crdtGid = some (b + jumpVcu qps) :=
      incr_listed_self hfirst hlt (by push_cast; rfl)
    refine ⟨?_, ?_⟩
    · exact (grows_incr ht (by omega) (by omega : (t : Int) + ((b : Int) - t) = b)
        hlow.le).trans (grows_incr hfirst hlt (by push_cast; rfl) (Nat.le_add_right _ _))
    · show b ≤ ((s.vectorClock.incr s.crdtGid ((b : Int) - t)).incr s.crdtGid
        (jumpVcu qps : Int)).time s.crdtGid
      rw [time, hsecond]
      exact Nat.le_add_right b _
  · rename_i hhigh
    refine ⟨VectorClock.Grows.refl _, ?_⟩
    rw [htime]
    omega

theorem mem_completedBy {s s' : CrdtServer} {x : Nat} (h : x ∈ completedBy s s') :
    ∃ i p p', s.crdtMasters i = some p ∧ s'.crdtMasters i = some p' ∧ p.backstreaming ∧
      ¬ p'.backstreaming ∧ x = p'.vectorClock.time s.crdtGid := by
  obtain ⟨i, -, hi⟩ := List.mem_filterMap.1 h
  refine ⟨i, ?_⟩
  cases hp : s.crdtMasters i with
  | none => simp [hp] at hi
  | some p =>
    cases hp' : s'.crdtMasters i with
    | none => simp [hp, hp'] at hi
    | some p' =>
      simp only [hp, hp'] at hi
      split at hi
      · rename_i hb
        exact ⟨p, p', rfl, rfl, hb.1, hb.2, (Option.some.inj hi).symm⟩
      · cases hi

/-- What the link to a peer does not touch: the clock it reported and the one it is to
send back from. -/
structure PeerMaster.SameClocks (q p : PeerMaster) : Prop where
  vectorClock : q.vectorClock = p.vectorClock
  backstreamVc : q.backstreamVc = p.backstreamVc

theorem PeerMaster.SameClocks.trans {p q r : PeerMaster} (h : r.SameClocks q)
    (h' : q.SameClocks p) : r.SameClocks p :=
  ⟨h.vectorClock.trans h'.vectorClock, h.backstreamVc.trans h'.backstreamVc⟩

theorem cancelHandshake_sameClocks (p : PeerMaster) : p.cancelHandshake.SameClocks p := by
  unfold PeerMaster.cancelHandshake
  split <;> exact ⟨rfl, rfl⟩

/-- One peer replaced, and its `backstream_vc` kept: no backstream is completed. -/
theorem completedBy_setPeer {s s' : CrdtServer} {i : Fin 16} {p q : PeerMaster}
    (hp : s.crdtMasters i = some p) (hq : q.backstreamVc = p.backstreamVc)
    (hs' : s'.crdtMasters = update s.crdtMasters i (some q)) {x : Nat} :
    x ∉ completedBy s s' := by
  intro hx
  obtain ⟨j, p₁, p₂, h₁, h₂, hb₁, hb₂, -⟩ := mem_completedBy hx
  rw [hs'] at h₂
  rcases update_eq_some h₂ with ⟨rfl, ⟨⟩⟩ | ⟨-, h₂⟩
  · cases hp.symm.trans h₁
    rw [PeerMaster.backstreaming, hq] at hb₂
    exact hb₂ hb₁
  · cases h₁.symm.trans h₂
    exact hb₂ hb₁

/-- `CRDT.MERGE_END` lowers no clock, and with a completed backstream the own clock
is where the peer knew it or beyond. -/
theorem crdtMergeEndCommand_clock {clientGid : Int} {qps t : Nat} {s s' : CrdtServer}
    {argv : Argv} {e : Exit}
    (h : (crdtMergeEndCommand clientGid qps s argv).result = .ok (e, s'))
    (ht : s.vectorClock.listed s.crdtGid = some t)
    (hlimit : ∀ vclock ∈ clockArg argv, vclock.time s.crdtGid + jumpVcu qps < 2 ^ 56) :
    s'.crdtGid = s.crdtGid ∧ s.vectorClock.Grows s'.vectorClock ∧
      ∀ x ∈ completedBy s s', x ≤ s'.vectorClock.time s.crdtGid := by
  rcases crdtMergeEndCommand_ok h with ⟨-, rfl | ⟨i, p, hp, rfl⟩⟩ |
    ⟨sourceGid, gid, i, p, -, hp, text, vclock, htext, hclock, ⟨-, -, rfl⟩ |
      ⟨m, id, id₁, id₂, off, -, -, -, -, -, rfl⟩⟩
  · refine ⟨rfl, VectorClock.Grows.refl _, fun x hx => ?_⟩
    obtain ⟨j, p₁, p₂, h₁, h₂, hb₁, hb₂, -⟩ := mem_completedBy hx
    rw [h₁] at h₂
    cases h₂
    exact absurd hb₁ hb₂
  · exact ⟨rfl, VectorClock.Grows.refl _, fun x hx =>
      absurd hx (completedBy_setPeer hp (cancelHandshake_sameClocks p).backstreamVc rfl)⟩
  · have hq : ({ p with vectorClock := vclock } : PeerMaster).backstreamVc = p.backstreamVc := rfl
    exact ⟨rfl, grows_mergeAt_max _ _ _, fun x hx =>
      absurd hx (completedBy_setPeer hp hq rfl)⟩
  · -- the sync is complete: `q` is the peer, and the own clock goes on if it was waited for
    set q := p.synced m vclock id₁ id₂ off with hq
    have hgrow : s.vectorClock.Grows (s.vectorClock.mergeAt vclock gid .max) :=
      grows_mergeAt_max _ _ _
    obtain ⟨t₁, ht₁, -⟩ := hgrow _ _ ht
    have hmem : vclock ∈ clockArg argv := by
      rw [clockArg, htext, Option.mem_def, Option.bind_some, hclock]
      rfl
    have hfinish := finishBackstream_clock (p := q)
      (s := (takeMergedClock s i p gid vclock).setPeer i (some q)) i ht₁ (hlimit vclock hmem)
    have hclocks : s.vectorClock.Grows (syncedServer s i qps p q gid vclock).vectorClock ∧
        (p.backstreaming → vclock.time s.crdtGid ≤
          (syncedServer s i qps p q gid vclock).vectorClock.time s.crdtGid) := by
      unfold syncedServer
      dsimp only
      split
      · exact ⟨hgrow.trans hfinish.1, fun _ => hfinish.2⟩
      · rename_i hb
        exact ⟨hgrow, fun hp => absurd hp hb⟩
    obtain ⟨v, w, c, l, b, r, heq⟩ := connectPeer_synced (s := s) (i := i) qps p q gid vclock
    have hv := congrArg CrdtServer.vectorClock heq
    rw [connectPeer_vectorClock] at hv
    rw [hv] at hclocks
    rw [heq]
    refine ⟨rfl, hclocks.1, fun x hx => ?_⟩
    obtain ⟨j, p₁, p₂, h₁, h₂, hb₁, hb₂, rfl⟩ := mem_completedBy hx
    rcases update_eq_some h₂ with ⟨rfl, ⟨⟩⟩ | ⟨-, h₂⟩
    · cases hp.symm.trans h₁
      exact hclocks.2 hb₁
    · cases h₁.symm.trans h₂
      exact absurd hb₁ hb₂

/-- `CRDT.MERGE_START` lowers no clock. -/
theorem crdtMergeStartCommand_clock {uninitialized : Bytes} {s s' : CrdtServer}
    {argv : Argv} {e : Exit}
    (h : (crdtMergeStartCommand uninitialized s argv).result = .ok (e, s')) :
    s'.crdtGid = s.crdtGid ∧ s.vectorClock.Grows s'.vectorClock := by
  rcases crdtMergeStartCommand_ok h with ⟨-, rfl | ⟨i, p, -, rfl⟩⟩ |
    ⟨i, p, gid, vclock, -, -, -, -, rfl⟩
  · exact ⟨rfl, VectorClock.Grows.refl _⟩
  · exact ⟨rfl, VectorClock.Grows.refl _⟩
  · refine ⟨rfl, ?_⟩
    unfold startMerge
    dsimp only
    split
    · rename_i hzero
      exact grows_add_zero hzero
    · exact VectorClock.Grows.refl _

/-- The own gid is listed, at or above all that peers sent back. -/
structure RecoveryInv (r : Recovery) : Prop where
  listed : r.server.vectorClock.listed r.server.crdtGid ≠ none
  above : ∀ x ∈ r.completed, x ≤ r.server.vectorClock.time r.server.crdtGid

/-- A step that lowers no clock and completes no backstream keeps the invariant. -/
theorem RecoveryInv.of_grows {r r' : Recovery} (h : RecoveryInv r)
    (hgid : r'.server.crdtGid = r.server.crdtGid)
    (hgrow : r.server.vectorClock.Grows r'.server.vectorClock)
    (hcompleted : ∀ x ∈ r'.completed, x ∈ r.completed ∨
      x ≤ r'.server.vectorClock.time r.server.crdtGid) : RecoveryInv r' where
  listed := by
    rw [hgid]
    exact listed_of_grows hgrow h.listed
  above := by
    intro x hx
    rw [hgid]
    rcases hcompleted x hx with hx | hx
    · exact (h.above x hx).trans (hgrow.time _)
    · exact hx

theorem clean_listed_iff {v : VectorClock} {g : Nat} :
    v.clean.listed g = none ↔ v.listed g = none := by
  rw [clean_listed]
  simp

/-- Every step keeps the invariant, and one that is not a reset lowers no clock. -/
theorem recoveryNext_spec {r r' : Recovery} {a : RecoveryAct} (h : RecoveryInv r)
    (hok : BelowLimit r a) (hnext : recoveryNext r a = some r') :
    RecoveryInv r' ∧ (a.isReset = false → r.server.vectorClock.Grows r'.server.vectorClock) := by
  obtain ⟨t, ht⟩ := Option.ne_none_iff_exists'.1 h.listed
  have htime : r.server.vectorClock.time r.server.crdtGid = t := by rw [time, ht]; rfl
  cases a with
  | incrLocal delta =>
    simp only [BelowLimit, htime] at hok
    cases hnext
    have hgrow := incrLocalVcUnit_grows ht hok
    exact ⟨h.of_grows rfl hgrow fun x hx => .inl hx, fun _ => hgrow⟩
  | jump qps =>
    simp only [BelowLimit, htime] at hok
    cases hnext
    have hgrow := incrLocalVcUnit_grows ht hok
    exact ⟨h.of_grows rfl hgrow fun x hx => .inl hx, fun _ => hgrow⟩
  | mergeVectorClock gid vclock =>
    simp only [recoveryNext] at hnext
    split at hnext
    · cases hnext
    · rename_i hgid
      cases hnext
      have hgrow : r.server.vectorClock.Grows
          (mergeVectorClock r.server gid vclock).vectorClock := by
        unfold mergeVectorClock
        rw [if_neg hgid]
        exact grows_mergeAt_max _ _ _
      exact ⟨h.of_grows rfl hgrow fun x hx => .inl hx, fun _ => hgrow⟩
  | mergeStart uninitialized argv =>
    simp only [recoveryNext] at hnext
    split at hnext
    · rename_i e s hres
      cases hnext
      obtain ⟨hgid, hgrow⟩ := crdtMergeStartCommand_clock hres
      exact ⟨h.of_grows hgid hgrow fun x hx => .inl hx, fun _ => hgrow⟩
    · cases hnext
  | mergeEnd clientGid qps argv =>
    simp only [recoveryNext] at hnext
    split at hnext
    · rename_i e s hres
      cases hnext
      obtain ⟨hgid, hgrow, hby⟩ := crdtMergeEndCommand_clock hres ht hok
      refine ⟨h.of_grows hgid hgrow fun x hx => ?_, fun _ => hgrow⟩
      exact (List.mem_append.1 hx).imp_right (hby x)
    · cases hnext
  | configure =>
    cases hnext
    exact ⟨⟨h.listed, h.above⟩, fun _ => VectorClock.Grows.refl _⟩
  | flush =>
    cases hnext
    refine ⟨⟨?_, by simp⟩, by simp [RecoveryAct.isReset]⟩
    show (resetVectorClock r.server.vectorClock).listed _ ≠ none
    unfold resetVectorClock
    split
    · exact h.listed
    · rw [Ne, clean_listed_iff]
      exact h.listed
  | rdbLoad vclock =>
    cases hnext
    refine ⟨⟨?_, by simp⟩, by simp [RecoveryAct.isReset]⟩
    show (loadVclock r.server vclock).vectorClock.listed r.server.crdtGid ≠ none
    unfold loadVclock
    dsimp only
    split
    · rw [add_listed, if_pos rfl]
      simp
    · rename_i hne
      intro hnone
      rw [time, hnone] at hne
      exact hne rfl
  | rdbRefused =>
    cases hnext
    exact ⟨⟨bootClock_listed _ _, by simp⟩, by simp [RecoveryAct.isReset]⟩

/-- In every state reached, so also at the moment when the node is opened for writes
again, the own gid is listed and the own clock is at or above the own-gid entry of
every clock with which a backstream was completed; and the next step, unless it is a
reset, loses no gid and lowers no clock. -/
theorem recovery_never_reuses_time {r : Recovery} (h : recovery.Reachable BelowLimit r) :
    r.server.vectorClock.listed r.server.crdtGid ≠ none ∧
      (∀ x ∈ r.completed, x ≤ r.server.vectorClock.time r.server.crdtGid) ∧
      ∀ a r', BelowLimit r a → a.isReset = false → recoveryNext r a = some r' →
        ∀ g t, r.server.vectorClock.listed g = some t →
          ∃ t', r'.server.vectorClock.listed g = some t' ∧ t ≤ t' := by
  have hinv : RecoveryInv r := by
    refine h.invariant ?_ ?_
    · rintro s ⟨⟨localClock, hclock⟩, hnil⟩
      refine ⟨?_, by simp [hnil]⟩
      rw [hclock]
      exact bootClock_listed _ _
    · intro s a s' hs hok hnext
      exact (recoveryNext_spec hs hok hnext).1
  refine ⟨hinv.listed, hinv.above, fun a r' hok hreset hnext => ?_⟩
  exact (recoveryNext_spec hinv hok hnext).2 hreset

/-- Node 1 after a restart: its clock is at 3, and peers 2 and 3 are to send back its
data. -/
def restartedNode : Recovery where
  server :=
    { crdtGid := gidOne
      iAmMaster := true
      vectorClock := bootClock gidOne 3
      vectorClockCache := VectorClock.null
      gcVectorClock := VectorClock.null
      crdtMasters := fun i =>
        if i.val = 2 ∨ i.val = 3 then
          some { createPeerMaster (List.replicate 41 0) with
            master := some (createFakeClient (List.replicate 41 0))
            replState := .transfer
            backstreamVc := bootClock gidOne 0 }
        else none
      peerSet := fun i => i.val = 2 ∨ i.val = 3
      loading := true
      dirty := 0 }
  completed := []

/-- `CRDT.MERGE_END` of a peer with the clock `vclock`. -/
def mergeEndOf (gid : Int) (vclock : String) : RecoveryAct :=
  .mergeEnd gid 0
    [ascii "crdt.merge_end", ll2string gid, ascii vclock, List.replicate 40 97, ascii "100"]

/-- Both peers finish; peer 3 knows more of node 1 than peer 2, and the node is opened
beyond both. -/
theorem recovery_never_reuses_time_two_peers : ∃ r, recovery.runMeeting BelowLimit restartedNode
        [mergeEndOf 2 "1:10;2:7", mergeEndOf 3 "1:2000000;3:4"] = some r ∧
      r.server.loading = false ∧ r.completed = [10, 2000000] ∧
      ∀ x ∈ r.completed, x ≤ r.server.vectorClock.time r.server.crdtGid := by
  have hrun : ((recovery.runMeeting BelowLimit restartedNode
      [mergeEndOf 2 "1:10;2:7", mergeEndOf 3 "1:2000000;3:4"]).any fun r =>
        r.server.loading = false ∧ r.completed = [10, 2000000]) = true := by
    decide +kernel
  obtain ⟨r, hrun, hr⟩ := (Option.any_eq_true _ _).1 hrun
  obtain ⟨hloading, hcompleted⟩ := of_decide_eq_true hr
  have hinit : recovery.Reachable BelowLimit restartedNode := .init ⟨⟨3, rfl⟩, rfl⟩
  have hreach := Lib.System.reachable_of_runMeeting hinit hrun
  exact ⟨r, hrun, hloading, hcompleted, (recovery_never_reuses_time hreach).2.1⟩

end XredisCrdt.Peer
