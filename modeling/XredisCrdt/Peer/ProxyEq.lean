import Mathlib.Data.Finset.Card
import XredisCrdt.Peer.Peerof

/-!
# Comparing proxies (`xpipe_proxy.c`)

`eqXpipeProxy` looks for each server of the first proxy in the second and compares the lengths of
the two lists. With a server that is listed twice that is not symmetric, and `PEEROF` can take a
new list for the one it has.
-/

namespace XredisCrdt.Peer

open List XpipeProxy

/-- The servers without regard to order and repetition. -/
def XpipeProxy.points (p : XpipeProxy) : Finset (Bytes × Int) :=
  (p.servers.map fun x => (x.host, x.port)).toFinset

theorem eqPoint_iff (x y : Point) : eqPoint x y = true ↔ (x.host, x.port) = (y.host, y.port) := by
  unfold eqPoint
  rw [Bool.and_eq_true, beq_iff_eq, beq_iff_eq, Prod.mk.injEq]

theorem XpipeProxy.mem_points {p : XpipeProxy} {a : Bytes × Int} :
    a ∈ p.points ↔ ∃ x ∈ p.servers, (x.host, x.port) = a := by
  unfold points
  rw [mem_toFinset, mem_map]

/-- The nested loop decides inclusion. -/
theorem eqXpipeProxy_iff (p q : XpipeProxy) : eqXpipeProxy p q = true ↔
      p.params = q.params ∧ p.servers.length = q.servers.length ∧ p.points ⊆ q.points := by
  have hloop : (p.servers.all fun x => q.servers.any (eqPoint x)) = true ↔ p.points ⊆ q.points := by
    rw [all_eq_true]
    constructor
    · intro h a ha
      obtain ⟨x, hx, rfl⟩ := mem_points.1 ha
      obtain ⟨y, hy, heq⟩ := any_eq_true.1 (h x hx)
      exact mem_points.2 ⟨y, hy, ((eqPoint_iff x y).1 heq).symm⟩
    · intro h x hx
      obtain ⟨y, hy, heq⟩ := mem_points.1 (h (mem_points.2 ⟨x, hx, rfl⟩))
      exact any_eq_true.2 ⟨y, hy, (eqPoint_iff x y).2 heq.symm⟩
  unfold eqXpipeProxy
  rw [Bool.and_eq_true, Bool.and_eq_true, beq_iff_eq, beq_iff_eq, hloop, and_assoc]

theorem eqXpipeProxy_refl (p : XpipeProxy) : eqXpipeProxy p p = true :=
  (eqXpipeProxy_iff p p).2 ⟨rfl, rfl, Finset.Subset.refl _⟩

theorem eqXpipeProxy_trans {p q r : XpipeProxy} (hpq : eqXpipeProxy p q = true)
    (hqr : eqXpipeProxy q r = true) : eqXpipeProxy p r = true := by
  obtain ⟨hparams, hlength, hsub⟩ := (eqXpipeProxy_iff p q).1 hpq
  obtain ⟨hparams', hlength', hsub'⟩ := (eqXpipeProxy_iff q r).1 hqr
  exact (eqXpipeProxy_iff p r).2 ⟨hparams.trans hparams', hlength.trans hlength', hsub.trans hsub'⟩

/-! ## The proxy after `PEEROF` -/

theorem keepConnected_points {p : PeerMaster} {new kept : XpipeProxy}
    (h : keepConnected p (some new) = some kept) : kept.points = new.points := by
  unfold keepConnected at h
  cases hp : p.proxy with
  | none =>
    rw [hp] at h
    cases h
  | some current =>
    simp only [hp] at h
    obtain ⟨-, h⟩ := Option.ite_none_right_eq_some.1 h
    unfold xpipeProxyIsKeepConnected at h
    obtain ⟨-, h⟩ := Option.ite_none_right_eq_some.1 h
    obtain ⟨hlt, h⟩ := Option.dite_none_right_eq_some.1 h
    obtain rfl := Option.some.inj h
    rfl

theorem attachPeer_proxy (env : PeerofEnv) (s : CrdtServer) (i : Fin 16) (host : Bytes) (port : Int)
    (o : PeerofOptions) :
    ∃ p, (attachPeer env s i host port o).crdtMasters i = some p ∧ p.proxy = o.proxy := by
  obtain ⟨p, hp⟩ : ∃ p, (crdtReplicationSetMaster s i host port env.uninitialized).crdtMasters i =
      some p := ⟨_, Function.update_self _ _ _⟩
  refine ⟨p.withOptions o, ?_, rfl⟩
  have hself : (attachPeer env s i host port o).crdtMasters i =
      ((crdtReplicationSetMaster s i host port env.uninitialized).crdtMasters i).map
        (·.withOptions o) := Function.update_self _ _ _
  rw [hself, hp]
  rfl

/-- A peer with the proxy `old` that gets a `PEEROF` with the proxy `new` has the servers of `new`
afterwards. -/
def Adopts (old new : XpipeProxy) : Prop :=
  ∀ (env : PeerofEnv) (s : CrdtServer) (gid : Int) (i : Fin 16) (host : Bytes) (port : Int)
    (o : PeerofOptions) (p : PeerMaster), env.rewriteError = none → (slot gid).result = .ok i →
    s.crdtMasters i = some p → p.proxy = some old → o.proxy = some new →
    ∃ reply s' p' proxy, (peerofAttach env s gid host port o).result = .ok (reply, s') ∧
      s'.crdtMasters i = some p' ∧ p'.proxy = some proxy ∧ proxy.points = new.points

/-- It is enough that the two are not taken for the same. -/
theorem peerofAttach_proxy {old new : XpipeProxy}
    (h : eqXpipeProxy new old = true → old.points = new.points) : Adopts old new := by
  intro env s gid i host port o p henv hslot hp hold hnew
  unfold peerofAttach
  rw [Trace.bind_of_ok hslot]
  rcases alreadyAttached_spec s i host port o with ⟨p', text, d, hp', hup, heq⟩ | ⟨-, heq⟩
  · obtain rfl : p = p' := Option.some.inj (hp.symm.trans hp')
    have hpeer :
        ({ s.setPeer i (some (p.reattached o)) with dirty := d } : CrdtServer).crdtMasters i =
        some (p.reattached o) := Function.update_self _ _ _
    have hproxy : ∃ proxy, (p.reattached o).proxy = some proxy ∧ proxy.points = new.points := by
      unfold PeerMaster.upToDate at hup
      unfold PeerMaster.reattached
      rw [hnew, hold] at hup
      rw [hnew]
      cases hkeep : keepConnected p (some new) with
      | some kept => exact ⟨kept, rfl, keepConnected_points hkeep⟩
      | none =>
        -- the peer stays as it is, so the comparison must be right
        rw [hkeep, Option.isSome_none, Bool.false_or, Bool.and_eq_true, Bool.and_eq_true] at hup
        exact ⟨old, hold, h hup.2.2⟩
    obtain ⟨proxy, hproxy, hpoints⟩ := hproxy
    rw [heq]
    exact ⟨_, _, _, proxy, rfl, hpeer, hproxy, hpoints⟩
  · obtain ⟨p', hp', hproxy⟩ := attachPeer_proxy env s i host port o
    rw [heq]
    simp only [henv]
    refine ⟨_, _, p', new, rfl, ?_, hproxy.trans hnew, rfl⟩
    show (addPeerSet (attachPeer env s i host port o) i).crdtMasters i = some p'
    rw [addPeerSet_crdtMasters]
    exact hp'

/-! ## When the comparison is right -/

/-- The comparison of the two proxies is an equality: it is reflexive and symmetric, transitive
with any third one, holds exactly for equal parameters, lengths and sets of servers, and `PEEROF`
goes by it in either direction. -/
structure ComparedRightly (p q : XpipeProxy) : Prop where
  refl : eqXpipeProxy p p = true
  symm : eqXpipeProxy p q = eqXpipeProxy q p
  trans : ∀ r, eqXpipeProxy p q = true → eqXpipeProxy q r = true → eqXpipeProxy p r = true
  eq_iff : eqXpipeProxy p q = true ↔
    p.params = q.params ∧ p.servers.length = q.servers.length ∧ p.points = q.points
  adopts : Adopts p q
  adopts' : Adopts q p

/-- Neither of two lists of equal length, with equal parameters, has only a part of the
servers of the other. -/
def NoProperPart (p q : XpipeProxy) : Prop :=
  p.params = q.params → p.servers.length = q.servers.length →
    ¬ p.points ⊂ q.points ∧ ¬ q.points ⊂ p.points

/-- Two proxies are compared rightly exactly if neither has only a part of the other's
servers; lists without a repeated server never do. -/
theorem eqXpipeProxy_sound_iff (p q : XpipeProxy) : ComparedRightly p q ↔ NoProperPart p q := by
  constructor
  · intro h hparams hlength
    constructor
    · intro hss
      have heq := (eqXpipeProxy_iff p q).2 ⟨hparams, hlength, hss.1⟩
      exact hss.ne (h.eq_iff.1 heq).2.2
    · intro hss
      have heq := (eqXpipeProxy_iff q p).2 ⟨hparams.symm, hlength.symm, hss.1⟩
      rw [← h.symm] at heq
      exact hss.ne (h.eq_iff.1 heq).2.2.symm
  · intro h
    -- an inclusion that the loop finds is an equality
    have hpq : eqXpipeProxy p q = true → p.points = q.points := by
      intro heq
      obtain ⟨hparams, hlength, hsub⟩ := (eqXpipeProxy_iff p q).1 heq
      by_contra hne
      exact (h hparams hlength).1 (hsub.ssubset_of_ne hne)
    have hqp : eqXpipeProxy q p = true → q.points = p.points := by
      intro heq
      obtain ⟨hparams, hlength, hsub⟩ := (eqXpipeProxy_iff q p).1 heq
      by_contra hne
      exact (h hparams.symm hlength.symm).2 (hsub.ssubset_of_ne hne)
    have heq_iff : eqXpipeProxy p q = true ↔
        p.params = q.params ∧ p.servers.length = q.servers.length ∧ p.points = q.points := by
      constructor
      · intro heq
        obtain ⟨hparams, hlength, -⟩ := (eqXpipeProxy_iff p q).1 heq
        exact ⟨hparams, hlength, hpq heq⟩
      · rintro ⟨hparams, hlength, hpoints⟩
        exact (eqXpipeProxy_iff p q).2 ⟨hparams, hlength, hpoints.subset⟩
    refine ⟨eqXpipeProxy_refl p, ?_, fun r => eqXpipeProxy_trans, heq_iff,
      peerofAttach_proxy fun heq => (hqp heq).symm, peerofAttach_proxy fun heq => (hpq heq).symm⟩
    rw [Bool.eq_iff_iff, heq_iff]
    constructor
    · rintro ⟨hparams, hlength, hpoints⟩
      exact (eqXpipeProxy_iff q p).2 ⟨hparams.symm, hlength.symm, hpoints.symm.subset⟩
    · intro heq
      obtain ⟨hparams, hlength, -⟩ := (eqXpipeProxy_iff q p).1 heq
      exact ⟨hparams.symm, hlength.symm, (hqp heq).symm⟩

/-- Two servers, of the given hosts. -/
def twoServers (a b : String) : XpipeProxy where
  servers := [⟨ascii a, 80, .tcp⟩, ⟨ascii b, 80, .tcp⟩]
  serversIndex := 0
  params := none
  inRange := Nat.two_pos

/-- One server listed twice is found in a list that has it and another one, and the other list is
not found in it. -/
theorem repeated_server_asymmetric :
    eqXpipeProxy (twoServers "10.0.0.1" "10.0.0.1") (twoServers "10.0.0.1" "10.0.0.2") = true ∧
      eqXpipeProxy (twoServers "10.0.0.1" "10.0.0.2") (twoServers "10.0.0.1" "10.0.0.1") = false ∧
      ¬ ComparedRightly (twoServers "10.0.0.1" "10.0.0.1") (twoServers "10.0.0.1" "10.0.0.2") := by
  refine ⟨by decide, by decide, fun h => ?_⟩
  have hsymm := h.symm
  revert hsymm
  decide

end XredisCrdt.Peer
