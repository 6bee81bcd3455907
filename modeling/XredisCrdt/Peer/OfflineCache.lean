import XredisCrdt.Peer.Closed

/-!
# The clock without offline gids

With `setOfflineGid` some gids are declared offline, and new writes are to be stamped
with a clock that does not list them. `crdtServer.vectorClockCache` holds that clock
next to `crdtServer.vectorClock`, and `RM_CurrentVectorClock` hands it out.

The cache is computed when the set changes. After that `incrLocalVcUnit` and
`RM_MergeVectorClock` write to both clocks, the second whether or not the gid is
offline; the merge commands, `FLUSHALL` and the load of an RDB file write to
`vectorClock` only. Their clocks name no gid twice, see `parseClock`.
-/

namespace XredisCrdt.Peer

open Clock List VectorClock

/-- `addVectorClockUnit` with a unit of a clock. -/
def addUnit (v : VectorClock) (u : ClockUnit) : VectorClock :=
  if h : 0 < u.gid ∧ u.gid < 16 then v.add ⟨u.gid, h⟩ u.clock else v

/-- `initVectorClockCache`; `offline` has the bits of `offline_peer_set`. -/
def initVectorClockCache (v : VectorClock) (offline : Nat) : VectorClock :=
  v.units.foldl (fun cache u => if offline.testBit u.gid then cache else addUnit cache u)
    VectorClock.null

/-- A node and its `offline_peer_set`, an `int` given by its bits. -/
structure OfflineNode where
  server : CrdtServer
  offlinePeerSet : Nat

namespace OfflineNode

def withCache (n : OfflineNode) (cache : VectorClock) : OfflineNode :=
  { n with server := { n.server with vectorClockCache := cache } }

end OfflineNode

def setOfflinePeerSet (n : OfflineNode) (gids : Nat) : OfflineNode :=
  if n.offlinePeerSet = gids then n
  else
    { n with offlinePeerSet := gids }.withCache
      (if gids = 0 then VectorClock.null else initVectorClockCache n.server.vectorClock gids)

/-- What `setOfflineGidCommand` makes of its arguments. -/
inductive GidArgs
  | refused
  /-- `1 << gid` for a negative `gid`. -/
  | undefined
  | accepted (gids : Nat)
  deriving DecidableEq, Repr

/-- The loop of `setOfflineGidCommand` over its arguments. It ends without effect at a text
that is no number and at one above 16. -/
def acceptGids : List Bytes → Nat → GidArgs
  | [], gids => .accepted gids
  | text :: rest, gids =>
    match string2ll text with
    | none => .refused
    | some gid =>
      if 16 < gid then .refused
      else if gid < 0 then .undefined
      else acceptGids rest (gids ||| (1 <<< gid.toNat))

/-- `setOfflineGid gid ...`. -/
def setOfflineGidCommand (n : OfflineNode) (argv : Argv) : OfflineNode :=
  match acceptGids (argv.drop 1) 0 with
  | .accepted gids =>
    let n := setOfflinePeerSet n gids
    { n with server := { n.server with dirty := n.server.dirty + 1 } }
  | _ => n

/-- `RM_CurrentVectorClock`: the clock for a new write, and what becomes of the cache. -/
def currentVectorClock (n : OfflineNode) : VectorClock × OfflineNode :=
  if n.offlinePeerSet = 0 then (n.server.vectorClock, n.withCache VectorClock.null)
  else if n.server.vectorClockCache.units = [] then
    let cache := initVectorClockCache n.server.vectorClock n.offlinePeerSet
    (cache, n.withCache cache)
  else (n.server.vectorClockCache, n)

/-! ## Runs -/

inductive CacheAct
  | setOfflineGid (argv : Argv)
  /-- The field `crdt-offline-gid` of an RDB file or of the configuration. -/
  | loadOfflineGid (gids : Nat)
  | currentVectorClock
  | incrLocal (delta : Int)
  | jump (qps : Nat)
  | mergeVectorClock (gid : Nat) (vclock : VectorClock)
  | mergeStart (uninitialized : Bytes) (argv : Argv)
  | mergeEnd (clientGid : Int) (qps : Nat) (argv : Argv)
  | flush
  /-- The field `vclock` of an RDB file. -/
  | rdbLoad (vclock : VectorClock)
  /-- An RDB file that is refused. -/
  | rdbRefused

def OfflineNode.next (n : OfflineNode) : CacheAct → Option OfflineNode
  | .setOfflineGid argv => some (setOfflineGidCommand n argv)
  | .loadOfflineGid gids => some (setOfflinePeerSet n gids)
  | .currentVectorClock => some (Peer.currentVectorClock n).2
  | .incrLocal delta => some { n with server := incrLocalVcUnit n.server delta }
  | .jump qps => some { n with server := jumpVectorClock n.server qps }
  | .mergeVectorClock gid vclock =>
    some { n with server := Peer.mergeVectorClock n.server gid vclock }
  | .mergeStart uninitialized argv =>
    (crdtMergeStartCommand uninitialized n.server argv).state?.map fun s => { n with server := s }
  | .mergeEnd clientGid qps argv =>
    (crdtMergeEndCommand clientGid qps n.server argv).state?.map fun s => { n with server := s }
  | .flush => some { n with server := resetClocks n.server }
  | .rdbLoad vclock => some { n with server := loadVclock n.server vclock }
  | .rdbRefused =>
    some { n with server :=
      { n.server with vectorClock := bootClock n.server.crdtGid 0 } }

/-- Online gids have the same entries in `v` and `w`. -/
def AgreeOnline (offline : Nat) (v w : VectorClock) : Prop :=
  ∀ g, offline.testBit g = false → v.listed g = w.listed g

/-- The cache is null, or it is `v` without the offline gids. -/
def ExactCache (offline : Nat) (v cache : VectorClock) : Prop :=
  cache.units ≠ [] → ∀ g, cache.listed g = if offline.testBit g then none else v.listed g

section exact

variable {offline : Nat} {v v' cache : VectorClock}

theorem setTime_units_eq_nil (v : VectorClock) (g : Nat) (f : Nat → Int) :
    (v.setTime g f).units = [] ↔ v.units = [] := by
  rw [← map_eq_nil_iff (f := ClockUnit.gid), ← map_eq_nil_iff (f := ClockUnit.gid)]
  exact Eq.congr_left (setLogicClock_gids g f v.units)

/-- The same amount is added to both clocks, or nothing where the gid is not listed. -/
theorem ExactCache.incr (h : ExactCache offline v cache) (g : Nat) (delta : Int) :
    ExactCache offline (v.incr g delta) (cache.incr g delta) := by
  intro hne k
  have hne' : cache.units ≠ [] := fun hnil => hne ((setTime_units_eq_nil cache g _).2 hnil)
  unfold VectorClock.incr
  rw [VectorClock.setTime_listed, VectorClock.setTime_listed, h hne' k]
  by_cases hk : k = g
  · rw [if_pos hk, if_pos hk]
    split <;> rfl
  · rw [if_neg hk, if_neg hk]

theorem ExactCache.congr (h : ExactCache offline v cache)
    (hv : cache.units ≠ [] → AgreeOnline offline v' v) : ExactCache offline v' cache := by
  intro hne g
  rw [h hne g]
  by_cases hoff : offline.testBit g = true
  · rw [if_pos hoff, if_pos hoff]
  · rw [if_neg hoff, if_neg hoff, hv hne g (Bool.eq_false_iff.2 hoff)]

/-- `RM_MergeVectorClock` for an online gid: both clocks have the same entry for it. -/
theorem ExactCache.mergeAt (h : ExactCache offline v cache) {src : VectorClock} {g : Nat}
    (flag : MergeFlag)
    (hg : cache.units ≠ [] → offline.testBit g = true → src.listed g = none) :
    ExactCache offline (v.mergeAt src g flag)
      (if cache.units = [] then cache else cache.mergeAt src g flag) := by
  split
  · rename_i hnil
    exact fun hne => absurd hnil hne
  · rename_i hne
    intro _ k
    cases hs : src.listed g with
    | none =>
      rw [mergeAt_of_not_listed flag hs, mergeAt_of_not_listed flag hs]
      exact h hne k
    | some t =>
      have honline : offline.testBit g = false := by
        refine Bool.eq_false_iff.2 fun hoff => ?_
        rw [hg hne hoff] at hs
        cases hs
      by_cases hk : k = g
      · subst hk
        have hsame := h hne k
        rw [honline] at hsame
        rw [mergeAt_listed_self flag hs, mergeAt_listed_self flag hs,
          hsame, honline]
        rfl
      · rw [mergeAt_listed_ne flag hk, mergeAt_listed_ne flag hk]
        exact h hne k

theorem agreeOnline_mergeAt {src : VectorClock} {g : Nat}
    (h : offline.testBit g = false → ∀ t, src.listed g = some t → ∃ t', v.listed g = some t' ∧
      t ≤ t') : AgreeOnline offline (v.mergeAt src g .max) v := by
  intro k hk
  by_cases hkg : k = g
  · subst hkg
    cases hs : src.listed k with
    | none => rw [mergeAt_of_not_listed .max hs]
    | some t =>
      obtain ⟨t', ht', hle⟩ := h hk t hs
      rw [mergeAt_listed_self .max hs, ht']
      simp [MergeFlag.apply, hle]
  · exact mergeAt_listed_ne .max hkg

end exact

/-- The end of a backstream moves the own entry of both clocks. -/
theorem ExactCache.finishBackstream {offline : Nat} {s : CrdtServer}
    (h : ExactCache offline s.vectorClock s.vectorClockCache) (i : Fin 16) (p : PeerMaster)
    (qps : Nat) :
    ExactCache offline (finishBackstream s i p qps).vectorClock
      (finishBackstream s i p qps).vectorClockCache := by
  unfold Peer.finishBackstream
  rw [tryClean_eq]
  dsimp only
  split
  · exact (h.incr _ _).incr _ _
  · exact h

/-- What `CRDT.MERGE_END` does to the two clocks. -/
theorem ExactCache.mergeEnd {offline : Nat} {s s' : CrdtServer} {clientGid : Int} {qps : Nat}
    {argv : Argv} (h : ExactCache offline s.vectorClock s.vectorClockCache)
    (hok : s.vectorClockCache.units ≠ [] → ∀ i, namedSlot argv = some i →
      offline.testBit i = false → ∀ vclock, clockArg argv = some vclock → ∀ t,
      vclock.listed i = some t → ∃ t', s.vectorClock.listed i = some t' ∧ t ≤ t')
    (hs : (crdtMergeEndCommand clientGid qps s argv).state? = some s') :
    ExactCache offline s'.vectorClock s'.vectorClockCache := by
  obtain ⟨e, hres⟩ := Trace.state?_eq_some hs
  rcases crdtMergeEndCommand_ok hres with ⟨-, rfl | ⟨i, p, hp, rfl⟩⟩ |
    ⟨sourceGid, gid, i, p, hi, hp, text, vclock, htext, hclock, hend⟩
  · exact h
  · exact h
  have harg : clockArg argv = some vclock := by
    rw [clockArg, htext, Option.bind_some, Trace.toOption_eq_some, hclock]
  have htaken : ExactCache offline (s.vectorClock.mergeAt vclock gid .max) s.vectorClockCache := by
    refine h.congr fun hne => agreeOnline_mergeAt ?_
    rw [hi.val_eq]
    intro honline
    exact hok hne i hi.namedSlot honline vclock harg
  rcases hend with ⟨-, -, rfl⟩ | ⟨m, id, id₁, id₂, off, -, -, -, -, -, rfl⟩
  · exact htaken
  · have hcache : ∀ t : CrdtServer, (connectPeer t i).vectorClockCache = t.vectorClockCache := by
      intro t
      unfold connectPeer
      split <;> rfl
    rw [connectPeer_vectorClock, hcache]
    unfold syncedServer
    dsimp only
    split
    · exact ExactCache.finishBackstream (s := (takeMergedClock s i p gid vclock).setPeer i _)
        htaken i _ qps
    · exact htaken

/-- What `CRDT.MERGE_START` does to the two clocks. -/
theorem ExactCache.mergeStart {offline : Nat} {s s' : CrdtServer} {uninitialized : Bytes}
    {argv : Argv} (h : ExactCache offline s.vectorClock s.vectorClockCache)
    (hok : s.vectorClockCache.units ≠ [] → ∀ i, namedSlot argv = some i →
      offline.testBit i = false → s.vectorClock.listed i ≠ none)
    (hs : (crdtMergeStartCommand uninitialized s argv).state? = some s') :
    ExactCache offline s'.vectorClock s'.vectorClockCache := by
  obtain ⟨e, hres⟩ := Trace.state?_eq_some hs
  rcases crdtMergeStartCommand_ok hres with ⟨-, rfl | ⟨i, p, hp, rfl⟩⟩ |
    ⟨i, p, gid, vclock, hp, hnamed, hgid, -, rfl⟩
  · exact h
  · exact h
  · refine h.congr fun hne g hg => ?_
    show
      (if s.vectorClock.time gid = 0 then s.vectorClock.add gid 0 else s.vectorClock).listed g = _
    split
    · rename_i hzero
      rw [add_listed]
      split
      · -- the gid is listed already, with the time 0
        rename_i hgi
        have hi : g = i.val := hgi.trans hgid
        obtain ⟨t, ht⟩ := Option.ne_none_iff_exists'.1 (hok hne i hnamed (hi ▸ hg))
        rw [time, hgid, ht] at hzero
        rw [hi, ht]
        exact congrArg some hzero.symm
      · rfl
    · rfl

/-- The cache is exact while it is in use. -/
def OfflineNode.Exact (n : OfflineNode) : Prop :=
  n.offlinePeerSet ≠ 0 →
    ExactCache n.offlinePeerSet n.server.vectorClock n.server.vectorClockCache

end XredisCrdt.Peer
