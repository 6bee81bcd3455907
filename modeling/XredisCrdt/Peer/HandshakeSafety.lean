import XredisCrdt.Peer.HandshakeRuns

/-!
# The handshake is not skipped

A link has at most one connection, and `Phase` says for each value of `repl_state`
which events that connection has and what was said on it. Every step that keeps to
`orderly` goes from phase to phase (`inv_step`), so that every state of such a run has
the `Guarantee` (`handshake_not_skipped`).

Outside of `orderly` are a write of `CRDT.AUTH` that fails, a reply that does not come
or is longer than the buffer, and two ways to leave a handshake without its connection
being closed; `handshake_skipped` has a run for three of them.
-/

namespace XredisCrdt.Handshake

open Peer Clock Function List Option Link Exchange

/-! ## Phases of a link -/

/-- The only connection, and its events. -/
structure Link.Sole (l : Link) (fd : Fd) (conn : Conn) (ev : FileEvent) : Prop where
  conns : l.conns = update (fun _ => none) fd (some conn)
  events : l.events = update (fun _ => ⟨none, none⟩) fd ev

/-- There is no connection. -/
structure Link.Bare (l : Link) : Prop where
  conns : l.conns = fun _ => none
  events : l.events = fun _ => ⟨none, none⟩
  masterFd : l.masterFd = none

/-- What was said in a stage. -/
def Talked (gid : Int) (g : Stage) (t : List Exchange) : Prop :=
  if g = .receivePsync then Completed gid t else Dialogue gid g t

/-- The states a link goes through. -/
inductive Phase (l : Link) : Prop
  | bare (hstate : l.peer.replState = .none ∨ l.peer.replState = .connect) (h : l.Bare)
  | connecting (fd : Fd) (unread : Bytes) (hstate : l.peer.replState = .connecting)
      (h : l.Sole fd ⟨unread, []⟩ ⟨some .crdtSyncWithMaster, some .crdtSyncWithMaster⟩)
      (hfd : l.replTransferS = some fd) (hmaster : l.masterFd = none)
  | handshake (fd : Fd) (conn : Conn) (hstate : l.peer.replState = .handshake)
      (h : l.Sole fd conn ⟨some .crdtSyncWithMaster, none⟩) (hfd : l.replTransferS = some fd)
      (hmaster : l.masterFd = none) (htalk : Talked l.gid l.stage conn.transcript)
  | established (fd : Fd) (conn : Conn) (c : PeerClient)
      (hstate : l.peer.replState = .transfer ∧ l.replTransferS = none ∨
        l.peer.replState = .connected)
      (h : l.Sole fd conn ⟨some .readQueryFromClient, none⟩) (hfd : l.masterFd = some fd)
      (hmaster : l.peer.master = some c) (hflag : c.crdtMaster = true)
      (htalk : Completed l.gid conn.transcript)

/-- The invariant of a link. Only a client with its flag is ever cached. -/
structure Link.Inv (l : Link) : Prop where
  phase : Phase l
  closes : l.strayClose = false
  cached : ∀ c, l.peer.cachedMaster = some c → c.crdtMaster = true

section drop

variable {l : Link} {fd : Fd} {conn : Conn} {ev : FileEvent}

/-- Dropping the only connection leaves none. -/
theorem Link.Sole.dropFd (h : l.Sole fd conn ev) :
    (l.dropFd fd).conns = (fun _ => none) ∧ (l.dropFd fd).events = (fun _ => ⟨none, none⟩) ∧
      (l.dropFd fd).strayClose = l.strayClose := by
  refine ⟨?_, ?_, ?_⟩
  · show update l.conns fd none = _
    rw [h.conns, update_idem]
    exact update_eq_self fd _
  · show update l.events fd ⟨none, none⟩ = _
    rw [h.events, update_idem]
    exact update_eq_self fd _
  · show (l.strayClose || (l.conns fd).isNone) = _
    rw [h.conns]
    simp

theorem Link.Bare.unlinkMaster (h : l.Bare) : l.unlinkMaster = l := by
  simp [Link.unlinkMaster, h.masterFd]

/-- Before a connection is set up there is none. -/
theorem Phase.bare_of_connect (h : Phase l) (hs : l.peer.replState = .connect) : l.Bare := by
  cases h with
  | bare _ hb => exact hb
  | connecting _ _ hs' | handshake _ _ hs' => simp [hs] at hs'
  | established _ _ _ hs' => simp [hs] at hs'

/-- While a connection is set up the client has no descriptor. -/
theorem Phase.masterFd_eq_none (h : Phase l) (hup : l.underWay = true) : l.masterFd = none := by
  cases h with
  | bare _ hb => exact hb.masterFd
  | connecting _ _ _ _ _ hm | handshake _ _ _ _ _ hm _ => exact hm
  | established _ _ _ hs => rcases hs with hs | hs <;> simp [Link.underWay, hs] at hup

/-- A link without connection after the client of the peer was unlinked. -/
theorem Phase.unlinkMaster (h : Phase l) (hup : l.underWay = false) :
    l.unlinkMaster.Bare ∧ l.unlinkMaster.strayClose = l.strayClose := by
  cases h with
  | bare _ h => rw [h.unlinkMaster]; exact ⟨h, rfl⟩
  | connecting _ _ hstate => simp [Link.underWay, hstate] at hup
  | handshake _ _ hstate => simp [Link.underWay, hstate] at hup
  | established fd conn c hstate h hfd =>
    obtain ⟨hconns, hevents, hstray⟩ := h.dropFd
    simp only [Link.unlinkMaster, hfd]
    exact ⟨⟨hconns, hevents, rfl⟩, hstray⟩

/-- What a cancelled handshake leaves. -/
theorem Link.Inv.cancelHandshake (h : l.Inv) :
    (l.peer.replState = .connected ∧ l.cancelHandshake = l) ∨
      (l.peer.replState ≠ .connected ∧ l.cancelHandshake.Bare ∧
        l.cancelHandshake.strayClose = false ∧
        l.cancelHandshake.peer = l.peer.cancelHandshake ∧ l.cancelHandshake.gid = l.gid) := by
  cases h.phase with
  | bare hstate hb =>
    have hsame : l.cancelHandshake = l ∧ l.peer.cancelHandshake = l.peer := by
      rcases hstate with hs | hs <;> simp [Link.cancelHandshake, PeerMaster.cancelHandshake, hs]
    refine .inr ⟨by rcases hstate with hs | hs <;> simp [hs], ?_⟩
    rw [hsame.1, hsame.2]
    exact ⟨hb, h.closes, rfl, rfl⟩
  | connecting fd _ hstate hs hfd hmaster | handshake fd _ hstate hs hfd hmaster _ =>
    obtain ⟨hconns, hevents, hstray⟩ := hs.dropFd
    refine .inr ⟨by simp [hstate], ?_⟩
    simp only [Link.cancelHandshake, hstate, Link.undoConnect, hfd]
    exact ⟨⟨hconns, hevents, hmaster⟩, hstray.trans h.closes, trivial, rfl⟩
  | established fd conn c hstate hs hfd hmaster hflag _ =>
    rcases hstate with ⟨hstate, hnone⟩ | hstate
    · obtain ⟨hconns, hevents, hstray⟩ := hs.dropFd
      refine .inr ⟨by simp [hstate], ?_⟩
      simp only [Link.cancelHandshake, hstate, Link.undoConnect, hnone, Link.unlinkMaster, hfd]
      exact ⟨⟨hconns, hevents, rfl⟩, hstray.trans h.closes, trivial, rfl⟩
    · exact .inl ⟨hstate, by simp [Link.cancelHandshake, hstate]⟩

/-- A state without connection and without a cached client that lacks its flag. -/
theorem Link.Inv.ofBare (hb : l.Bare)
    (hstate : l.peer.replState = .none ∨ l.peer.replState = .connect)
    (hcloses : l.strayClose = false)
    (hcached : ∀ c, l.peer.cachedMaster = some c → c.crdtMaster = true) :
    l.Inv := ⟨.bare hstate hb, hcloses, hcached⟩

theorem cancelHandshake_cachedMaster (p : PeerMaster) :
    p.cancelHandshake.cachedMaster = p.cachedMaster := by
  unfold PeerMaster.cancelHandshake
  split <;> rfl

theorem freeMaster_cached {p : PeerMaster}
    (h : ∀ c, p.cachedMaster = some c → c.crdtMaster = true) :
    ∀ c, p.freeMaster.cachedMaster = some c → c.crdtMaster = true := by
  unfold PeerMaster.freeMaster
  split
  · exact h
  · next m hm =>
    split
    · next hflag =>
      split
      · exact h
      · intro c hc
        simp only [PeerMaster.cacheMaster, hm, map_some, some.injEq] at hc
        rw [← hc]
        exact hflag
    · exact h

end drop

/-! ## Steps other than events -/

section steps

variable {l : Link}

/-- The invariant does not depend on what else is known of the peer. -/
theorem Link.Inv.withPeer (h : l.Inv) {p : PeerMaster} (hstate : p.replState = l.peer.replState)
    (hmaster : ∀ c, l.peer.master = some c → ∃ c', p.master = some c' ∧
      c'.crdtMaster = c.crdtMaster) (hcached : p.cachedMaster = l.peer.cachedMaster) :
    Link.Inv { l with peer := p } where
  phase := by
    cases h.phase with
    | bare hs hb => exact .bare (by rwa [hstate]) ⟨hb.conns, hb.events, hb.masterFd⟩
    | connecting fd unread hs h hfd hm =>
      exact .connecting fd unread (hstate.trans hs) ⟨h.conns, h.events⟩ hfd hm
    | handshake fd conn hs h hfd hm ht =>
      exact .handshake fd conn (hstate.trans hs) ⟨h.conns, h.events⟩ hfd hm ht
    | established fd conn c hs h hfd hm hflag ht =>
      obtain ⟨c', hc', hflag'⟩ := hmaster c hm
      exact .established fd conn c' (by rwa [hstate]) ⟨h.conns, h.events⟩ hfd hc'
        (hflag'.trans hflag) ht
  closes := h.closes
  cached := by
    rw [hcached]
    exact h.cached

theorem Link.Inv.freeMaster (h : l.Inv)
    (hok : l.underWay = true → l.peer.master.any PeerClient.crdtMaster = false) :
    l.freeMaster.Inv ∧ l.freeMaster.peer.replState ≠ .connected := by
  cases hup : l.underWay with
  | true =>
    -- the client is none of a connection, and stays where it is
    have hsame : l.freeMaster = l := by
      have hfd := h.phase.masterFd_eq_none hup
      unfold Link.freeMaster
      cases hm : l.peer.master with
      | none => rfl
      | some c =>
        have hflag : c.crdtMaster = false := by simpa [hm] using hok hup
        have hunlink : l.unlinkMaster = l := by simp [Link.unlinkMaster, hfd]
        have hpeer : l.peer.freeMaster = l.peer := by simp [PeerMaster.freeMaster, hm, hflag]
        show { l.unlinkMaster with peer := l.peer.freeMaster } = l
        rw [hunlink, hpeer]
    rw [hsame]
    refine ⟨h, fun hs => ?_⟩
    simp [Link.underWay, hs] at hup
  | false =>
    obtain ⟨hbare, hstray⟩ := h.phase.unlinkMaster hup
    have hcached := freeMaster_cached h.cached
    have hstate : l.peer.freeMaster.replState = .none ∨ l.peer.freeMaster.replState = .connect := by
      cases h.phase with
      | bare hs _ =>
        unfold PeerMaster.freeMaster
        split
        · exact hs
        · split
          · split <;> exact .inr rfl
          · exact hs
      | connecting _ _ hs | handshake _ _ hs => simp [Link.underWay, hs] at hup
      | established fd conn c _ _ _ hm hflag =>
        simp only [PeerMaster.freeMaster, hm, hflag, if_true]
        split <;> exact .inr rfl
    unfold Link.freeMaster
    cases hm : l.peer.master with
    | none =>
      have hb : l.Bare ∧ (l.peer.replState = .none ∨ l.peer.replState = .connect) := by
        cases h.phase with
        | bare hs hb => exact ⟨hb, hs⟩
        | connecting _ _ hs | handshake _ _ hs => simp [Link.underWay, hs] at hup
        | established _ _ c _ _ _ hm' => rw [hm] at hm'; cases hm'
      refine ⟨h, fun hs => ?_⟩
      rcases hb.2 with hb | hb <;> rw [hb] at hs <;> cases hs
    | some c =>
      refine ⟨.ofBare ⟨hbare.conns, hbare.events, hbare.masterFd⟩ hstate
        (hstray.trans h.closes) hcached, fun hs => ?_⟩
      rcases hstate with hb | hb <;> rw [hb] at hs <;> cases hs

theorem Link.Inv.setMaster (h : l.Inv) (host : Bytes) (port : Int)
    (hok : l.underWay = true → l.peer.master.any PeerClient.crdtMaster = false) :
    (l.setMaster host port).Inv := by
  have hnamed : Link.Inv
      { l with
        peer := { l.peer with masterhost := host, masterport := port, lazyTime := false } } :=
    h.withPeer rfl (fun c hc => ⟨c, hc, rfl⟩) rfl
  obtain ⟨hfree, hne⟩ := hnamed.freeMaster hok
  rcases hfree.cancelHandshake with ⟨hs, -⟩ | ⟨-, hbare, hstray, hpeer, -⟩
  · exact absurd hs hne
  · refine .ofBare ⟨hbare.conns, hbare.events, hbare.masterFd⟩ (.inr rfl) hstray ?_
    show ∀ c, (Link.cancelHandshake _).peer.cachedMaster = some c → _
    rw [hpeer, cancelHandshake_cachedMaster]
    exact hfree.cached

/-- Cutting a link leaves no connection. -/
theorem Link.Inv.cut (h : l.Inv) :
    (l.peer.replState = .connected → l.unlinkMaster.Bare ∧ l.unlinkMaster.strayClose = false) ∧
      (l.peer.replState ≠ .connected →
        l.cancelHandshake.Bare ∧ l.cancelHandshake.strayClose = false) := by
  constructor
  · intro hs
    obtain ⟨hbare, hstray⟩ := h.phase.unlinkMaster (by simp [underWay, hs])
    exact ⟨hbare, hstray.trans h.closes⟩
  · intro hs
    rcases h.cancelHandshake with ⟨hs', -⟩ | ⟨-, hbare, hstray, -⟩
    · exact absurd hs' hs
    · exact ⟨hbare, hstray⟩

theorem Link.Inv.unsetMaster (h : l.Inv) (uninitialized : Bytes) :
    (l.unsetMaster uninitialized).Inv := by
  have hcut : l.cancelHandshake.unlinkMaster.Bare ∧
      l.cancelHandshake.unlinkMaster.strayClose = false := by
    by_cases hs : l.peer.replState = .connected
    · have hsame : l.cancelHandshake = l := by simp [Link.cancelHandshake, hs]
      rw [hsame]
      exact h.cut.1 hs
    · obtain ⟨hbare, hstray⟩ := h.cut.2 hs
      rw [hbare.unlinkMaster]
      exact ⟨hbare, hstray⟩
  obtain ⟨hbare, hstray⟩ := hcut
  refine .ofBare ⟨hbare.conns, hbare.events, hbare.masterFd⟩ (.inl rfl) hstray ?_
  intro c hc
  cases hc

theorem Link.Inv.stateReset (h : l.Inv) (uninitialized : Bytes) :
    (l.stateReset uninitialized).Inv := by
  have hcut :
      ∀ cut, (if l.peer.replState = .connected then l.unlinkMaster else l.cancelHandshake) = cut →
      cut.Bare ∧ cut.strayClose = false := by
    intro cut hcut
    split at hcut
    · next hs => exact hcut ▸ h.cut.1 hs
    · next hs => exact hcut ▸ h.cut.2 hs
  obtain ⟨hbare, hstray⟩ := hcut _ rfl
  refine .ofBare ⟨hbare.conns, hbare.events, rfl⟩ (.inl rfl) hstray ?_
  intro c hc
  cases hc

theorem Link.Inv.cacheForRole (h : l.Inv) (hup : l.underWay = false) : l.cacheForRole.Inv := by
  have hstate : l.peer.cacheForRole.replState = .none := by
    unfold PeerMaster.cacheForRole
    split
    · rfl
    · split <;> rfl
  have hcached : ∀ c, l.peer.cacheForRole.cachedMaster = some c → c.crdtMaster = true := by
    unfold PeerMaster.cacheForRole
    split
    · exact h.cached
    · next m hm =>
      split
      · next hflag =>
        intro c hc
        simp only [PeerMaster.cacheMaster, hm, map_some, some.injEq] at hc
        rw [← hc]
        exact hflag
      · intro c hc
        cases hc
  have hcut : ∀ cut, (if l.peer.master.any PeerClient.crdtMaster then l.unlinkMaster else l) = cut →
      cut.Bare ∧ cut.strayClose = false := by
    intro cut hcut
    split at hcut
    · obtain ⟨hbare, hstray⟩ := h.phase.unlinkMaster hup
      exact hcut ▸ ⟨hbare, hstray.trans h.closes⟩
    · next hflag =>
      cases h.phase with
      | bare _ hb => exact hcut ▸ ⟨hb, h.closes⟩
      | connecting _ _ hs | handshake _ _ hs => simp [underWay, hs] at hup
      | established _ _ c _ _ _ hm hc => simp [hm, hc] at hflag
  obtain ⟨hbare, hstray⟩ := hcut _ rfl
  exact .ofBare ⟨hbare.conns, hbare.events, hbare.masterFd⟩ (.inl hstate) hstray hcached

theorem Link.Inv.connect (h : l.Inv) (hs : l.peer.replState = .connect) (fd : Fd)
    (registered : Bool) :
    (l.connect fd registered).Inv := by
  have hb := h.phase.bare_of_connect hs
  unfold Link.connect
  cases registered with
  | true =>
    refine ⟨.connecting fd [] rfl ⟨?_, ?_⟩ rfl hb.masterFd, h.closes, h.cached⟩
    · show update l.conns fd _ = _
      rw [hb.conns]
    · show update l.events fd _ = _
      rw [hb.events]
  | false =>
    -- the new descriptor is closed at once
    refine .ofBare ⟨?_, hb.events, hb.masterFd⟩ (.inr hs) ?_ h.cached
    · show update (update l.conns fd _) fd none = _
      rw [update_idem, hb.conns]
      exact update_eq_self fd _
    · show (l.strayClose || (update l.conns fd _ fd).isNone) = false
      simp [h.closes]

end steps

/-! ## Events -/

/-- What a call did with strings and descriptors before `error`. -/
structure Clean (ops : List Op) : Prop where
  released : Released ops
  closed : closed ops = []
  states : .stateMachineError ∉ ops

theorem closed_append (ops ops' : List Op) : closed (ops ++ ops') = closed ops ++ closed ops' := by
  induction ops with
  | nil => rfl
  | cons op ops ih => cases op <;> simp [closed, ih]

/-- A report that keeps the guarantee, with the link after the call. -/
structure Report.Ok (r : Report) (l : Link) : Prop where
  failure : r.exit = .failed → closed r.ops = [r.fd] ∧ l.conns r.fd = none ∧
    l.events r.fd = ⟨none, none⟩ ∧ l.peer.replState = .connect
  strings : Released r.ops
  states : .stateMachineError ∉ r.ops

/-- The outcome of a call keeps the invariant and has a report as it has to be. -/
def Keeps (fd : Fd) (o : Outcome) : Prop :=
  ∀ c e, o = some (c, e) → c.link.Inv ∧ Report.Ok ⟨fd, e, c.ops⟩ c.link

section event

variable {inp : Input} {fd : Fd} {l : Link} {c : Call} {conn : Conn} {ev : FileEvent}

/-- Behind the label `error` the only connection is gone. -/
theorem keeps_fail (hl : l.Inv) (hs : l.Sole fd conn ev) (hmaster : l.masterFd = none)
    (htouch : Touches fd l c.link) (hclean : Clean c.ops) : Keeps fd (fail fd c) := by
  rintro c' e hfail
  simp only [fail, some.injEq, Prod.mk.injEq] at hfail
  obtain ⟨rfl, rfl⟩ := hfail
  have hother : ∀ f, f ≠ fd → c.link.conns f = none ∧ c.link.events f = ⟨none, none⟩ := by
    intro f hf
    rw [htouch.conns f hf, htouch.events f hf, hs.conns, hs.events, update_of_ne hf,
      update_of_ne hf]
    exact ⟨rfl, rfl⟩
  have hconns : update c.link.conns fd none = fun _ => none := by
    funext f
    by_cases hf : f = fd
    · rw [hf, update_self]
    · rw [update_of_ne hf, (hother f hf).1]
  have hevents : update c.link.events fd ⟨none, none⟩ = fun _ => ⟨none, none⟩ := by
    funext f
    by_cases hf : f = fd
    · rw [hf, update_self]
    · rw [update_of_ne hf, (hother f hf).2]
  have hopen : (c.link.conns fd).isNone = false := by
    have := htouch.isOpen
    rw [hs.conns, update_self] at this
    rw [← not_isSome, this]
    rfl
  refine ⟨.ofBare ⟨hconns, hevents, htouch.masterFd.trans hmaster⟩ (.inr rfl) ?_ ?_, ?_⟩
  · show (c.link.strayClose || (c.link.conns fd).isNone) = false
    rw [hopen, htouch.strayClose, hl.closes]
    rfl
  · intro m hm
    rcases htouch.cached with hc | hc
    · exact hl.cached m (hc.symm.trans hm)
    · cases hc.symm.trans hm
  · refine ⟨fun _ => ⟨?_, congrFun hconns fd, congrFun hevents fd, rfl⟩, ?_, ?_⟩
    · show closed (c.ops ++ [.close fd]) = [fd]
      rw [closed_append, hclean.closed]
      rfl
    · show (c.ops ++ [Op.close fd]).foldlM Op.track [] = some []
      have h := hclean.released
      rw [Released] at h
      rw [foldlM_append, h]
      rfl
    · show Op.stateMachineError ∉ c.ops ++ [Op.close fd]
      simpa using hclean.states

theorem Link.Sole.onConn (h : l.Sole fd conn ev) (f : Conn → Conn) :
    (l.onConn fd f).Sole fd (f conn) ev where
  conns := by
    show update l.conns fd ((l.conns fd).map f) = _
    rw [h.conns, update_idem, update_self]
    rfl
  events := h.events

theorem Link.Sole.arrive (h : l.Sole fd conn ev) (input : Bytes) :
    (l.arrive fd input).Sole fd ⟨conn.unread ++ input, conn.transcript⟩ ev := h.onConn _

theorem Link.Sole.record (h : l.Sole fd conn ev) (e : Exchange) :
    (l.record fd e).Sole fd ⟨conn.unread, conn.transcript ++ [e]⟩ ev := h.onConn _

theorem Link.Sole.conn_eq (h : l.Sole fd conn ev) : l.conns fd = some conn := by
  rw [h.conns, update_self]

theorem Link.Sole.heard (h : c.link.Sole fd conn ev) (inp : Input) : (c.heard inp fd).link.Sole fd
      ⟨(syncReadLine conn.unread).2, conn.transcript ++ [.answer (taken conn.unread)]⟩ ev where
  conns := by rw [heard_conns h.conn_eq, h.conns, update_idem]
  events := h.events

theorem Link.Sole.aeDeleteFileEvent (h : l.Sole fd conn ev) (readable writable : Bool) :
    (l.aeDeleteFileEvent fd readable writable).Sole fd conn
      ⟨if readable then none else ev.readable, if writable then none else ev.writable⟩ where
  conns := h.conns
  events := by
    unfold Link.aeDeleteFileEvent
    simp only [h.events, update_idem, update_self]

theorem Link.Sole.aeCreateReadable (h : l.Sole fd conn ev) (handler : Handler) :
    (l.aeCreateReadable fd handler).Sole fd conn ⟨some handler, ev.writable⟩ where
  conns := h.conns
  events := by
    unfold Link.aeCreateReadable
    simp only [h.events, update_idem, update_self]

/-- The call that an event starts. -/
def Link.call (l : Link) (fd : Fd) (inp : Input) : Call := ⟨l.arrive fd inp.arrived, [], 0⟩

theorem touches_call (inp : Input) : Touches fd l (l.call fd inp).link := touches_onConn _ _

theorem keeps_connecting (hl : l.Inv) {unread : Bytes}
    (hs : l.Sole fd ⟨unread, []⟩ ⟨some .crdtSyncWithMaster, some .crdtSyncWithMaster⟩)
    (hfd : l.replTransferS = some fd) (hmaster : l.masterFd = none) :
    Keeps fd (connecting inp fd (l.call fd inp)) := by
  unfold connecting
  split
  case isTrue => exact keeps_fail hl hs hmaster (touches_call inp) ⟨rfl, rfl, by simp [call]⟩
  case isFalse =>
    have hother : ∀ f, f ≠ fd →
        (((l.call fd inp).link.aeDeleteFileEvent fd false true).setStage .receivePong).events f =
          l.events f := fun f hf => update_of_ne hf _ _
    cases hw : inp.written with
    | false =>
      simp only [Call.write, hw, Bool.false_eq_true, if_false]
      refine keeps_fail hl hs hmaster
        ((touches_call inp).trans ⟨fun _ _ => rfl, rfl, hother, rfl, rfl, rfl, .inl rfl⟩) ?_
      exact ⟨rfl, rfl, by simp [Call.emit, Call.newString, call]⟩
    | true =>
      simp only [Call.write, hw, if_true]
      rintro c e hc
      cases hc
      let ping := sent inp.config l.peer.backstreamVc (syncCommand [ascii "PING"])
      refine ⟨⟨.handshake fd ⟨unread ++ inp.arrived, [ping]⟩ rfl ?_ hfd hmaster .ping, hl.closes,
        hl.cached⟩, (fun h => by cases h), rfl, not_mem_nil⟩
      have hsole := ((hs.arrive inp.arrived).aeDeleteFileEvent false true).record ping
      exact ⟨hsole.conns, hsole.events⟩

theorem clean_writeOps (next : Stage) :
    Clean ([.alloc 0, .read 0, .release 0] ++ next.writeOps 1) := by
  cases next <;> exact ⟨rfl, rfl, by decide⟩

theorem clean_heard : Clean ((l.call fd inp).heard inp fd).ops := by
  show Clean [.alloc 0, .read 0, .release 0]
  exact ⟨rfl, rfl, by decide⟩

/-- The text of a failed read ends the handshake where a stage does not ignore errors. -/
theorem refuses_readError {g : Stage}
    (hg : g = .receivePong ∨ g = .receiveCrdtAuth ∨ g = .receiveAuth) :
    g.refuses (cstr (c.readError inp)) = true := by
  obtain ⟨rest, hrest⟩ := exists_readError inp c
  rw [hrest]
  rcases hg with rfl | rfl | rfl
  · have hnoauth : ¬ ascii "-NOAUTH" <+: 45 :: 82 :: rest := by
      rw [show ascii "-NOAUTH" = 45 :: 78 :: ascii "OAUTH" from rfl]
      simp [cons_prefix_cons]
    have hold : ¬ ascii "-ERR operation not permitted" <+: 45 :: 82 :: rest := by
      rw [show ascii "-ERR operation not permitted" =
        45 :: 69 :: ascii "RR operation not permitted" from rfl]
      simp [cons_prefix_cons]
    simp [Stage.refuses, refusedPong, hnoauth, hold]
  · rfl
  · rfl

/-- Where a reply is not refused it is one line, and no error where that matters. -/
theorem accepted_isLine {g : Stage} {input : Bytes}
    (hg : (g.question inp.config l.gid l.peer).isSome) (hord : g.orderly inp input = true)
    (hok : g.refuses (cstr ((syncReadLine input).1.getD (c.readError inp))) = false) :
    IsLine (taken input) ∧ (g = .receiveCrdtAuth ∨ g = .receiveAuth → ¬ IsError (taken input)) := by
  have hready : lineReady input = true := by
    -- a stage that can do without a complete line refuses the text of the error
    have hstrict :
        cutOff input = false → (g = .receivePong ∨ g = .receiveCrdtAuth ∨ g = .receiveAuth) →
        lineReady input = true := by
      intro hcut hg
      by_contra hready
      rw [read_short (Bool.not_eq_true _ ▸ hready) hcut, getD_none, refuses_readError hg] at hok
      cases hok
    cases g <;> first
      | exact hord
      | exact hstrict (by simpa [Stage.orderly] using hord) (by simp)
      | exact hstrict (by simpa [Stage.orderly] using (of_decide_eq_true hord).2) (by simp)
      | cases hg
  obtain ⟨hline, text, htext, herr⟩ := taken_isLine hready
  refine ⟨hline, ?_⟩
  rintro (rfl | rfl) hbad
  all_goals
    rw [htext] at hok
    simp [Stage.refuses, refusedAuth, herr hbad] at hok

theorem keeps_blocks (hl : l.Inv) (hstate : l.peer.replState = .handshake)
    (hs : l.Sole fd conn ⟨some .crdtSyncWithMaster, none⟩) (hfd : l.replTransferS = some fd)
    (hmaster : l.masterFd = none) (htalk : Dialogue l.gid l.stage conn.transcript)
    (hg : l.stage ≠ .receivePsync)
    (hord : l.stage.orderly inp (conn.unread ++ inp.arrived) = true) :
    Keeps fd (blocks inp fd (l.call fd inp)) := by
  have hat : (l.call fd inp).isAt l.stage = true := by
    simp [Call.isAt, call, arrive, onConn, hstate]
  have hsole : (l.call fd inp).link.Sole fd ⟨conn.unread ++ inp.arrived, conn.transcript⟩
      ⟨some .crdtSyncWithMaster, none⟩ := hs.arrive inp.arrived
  obtain ⟨next, args, hq⟩ := htalk.exists_question hg inp.config l.peer
  have htouch : Touches fd l ((l.call fd inp).heard inp fd).link :=
    (touches_call inp).trans touches_heard
  cases hok : l.stage.refuses ((l.call fd inp).read inp fd).2.2 with
  | true =>
    rw [blocks_refused hat hok]
    exact keeps_fail hl hs hmaster htouch clean_heard
  | false =>
    obtain ⟨hwritten, hunwritten⟩ := blocks_sends hat hq hok
    rw [read_text hsole.conn_eq] at hok
    obtain ⟨hline, herr⟩ := accepted_isLine (by rw [hq]; rfl) hord hok
    cases hw : inp.written with
    | true =>
      have hsent :=
        (hsole.heard inp).record (.sent inp.config l.peer.backstreamVc (syncCommand args))
      have hdialogue := htalk.ask hq hline herr
      rw [hwritten hw]
      rintro c e hc
      cases hc
      refine ⟨⟨.handshake fd _ rfl ⟨hsent.conns, hsent.events⟩ hfd hmaster ?_, hl.closes, ?_⟩,
        (fun h => by cases h), clean_heard.released, clean_heard.states⟩
      · show Talked l.gid next _
        unfold Talked
        split
        case isTrue hpsync =>
          subst hpsync
          exact ⟨_, [], hdialogue, by simp⟩
        case isFalse => simpa using hdialogue
      · show ∀ c, (next.asking l.peer).cachedMaster = some c → _
        cases next <;> exact hl.cached
    | false =>
      obtain ⟨c', hfail, htouch', hops⟩ := hunwritten hw
      have hnext : next ≠ .receiveCrdtAuth := by
        rintro rfl
        -- only the answer to `PING` is followed by `CRDT.AUTH`, and then the write succeeds
        rw [receivePong_of_question hq] at hord
        simp [Stage.orderly, hw] at hord
      rw [hfail]
      refine keeps_fail hl hs hmaster (htouch.trans htouch') ?_
      rw [hops hnext]
      exact clean_writeOps next

theorem Completed.answer {gid : Int} {t : List Exchange} (h : Completed gid t) (taken : Bytes) :
    Completed gid (t ++ [.answer taken]) := by
  obtain ⟨asked, replies, hasked, rfl⟩ := h
  exact ⟨asked, replies ++ [taken], hasked, by simp⟩

/-- What the answer to `CRDT.PSYNC` makes of the peer. -/
theorem readPsync_cases {p p' : PeerMaster} {uninitialized : Bytes} {reply : PsyncReply}
    (hcached : ∀ c, p.cachedMaster = some c → c.crdtMaster = true)
    (h : p.readPsync uninitialized reply = some p') :
    match reply with
    | .fullResync _ _ => p'.replState = .transfer ∧ p'.cachedMaster = none ∧
        ∃ c, p'.master = some c ∧ c.crdtMaster = true
    | .resume _ => p'.replState = .connected ∧ p'.cachedMaster = none ∧
        ∃ c, p'.master = some c ∧ c.crdtMaster = true
    | _ => p'.cachedMaster = p.cachedMaster ∨ p'.cachedMaster = none := by
  cases reply with
  | fullResync replid offset =>
    cases h
    exact ⟨rfl, rfl, _, rfl, rfl⟩
  | resume text =>
    simp only [PeerMaster.readPsync, map_eq_some_iff] at h
    obtain ⟨c, hc, rfl⟩ := h
    exact ⟨rfl, rfl, _, rfl, hcached c hc⟩
  | tryLater =>
    cases h
    exact .inl rfl
  | other =>
    cases h
    exact .inr rfl

/-- The branch of `receivePsync` that reads a reply. -/
theorem receivePsync_eq {c : Call} (hat : c.isAt .receivePsync = true) :
    receivePsync inp fd c = (parsePsyncReply (c.read inp fd).2.2).elim
      (some (c.heard inp fd, .returned)) (takeReply inp fd (c.heard inp fd)) := by
  rw [receivePsync, if_pos hat]
  dsimp only
  cases parsePsyncReply (c.read inp fd).2.2 <;> rfl

theorem keeps_receivePsync (hl : l.Inv) (hstate : l.peer.replState = .handshake)
    (hstage : l.stage = .receivePsync)
    (hs : l.Sole fd conn ⟨some .crdtSyncWithMaster, none⟩) (hfd : l.replTransferS = some fd)
    (hmaster : l.masterFd = none) (htalk : Completed l.gid conn.transcript) :
    Keeps fd (receivePsync inp fd (l.call fd inp)) := by
  have hat : (l.call fd inp).isAt .receivePsync = true := by
    simp [Call.isAt, call, arrive, onConn, hstate, hstage]
  have hsole := Link.Sole.heard (c := l.call fd inp) (hs.arrive inp.arrived) inp
  have hdeleted := hsole.aeDeleteFileEvent true false
  have hadopted := hdeleted.aeCreateReadable .readQueryFromClient
  have htouch : Touches fd l ((l.call fd inp).heard inp fd).link :=
    (touches_call inp).trans touches_heard
  have hcompleted := htalk.answer (taken (conn.unread ++ inp.arrived))
  rw [receivePsync_eq hat]
  cases parsePsyncReply ((l.call fd inp).read inp fd).2.2 with
  | none =>
    -- an empty line keeps the connection waiting
    rintro c e hc
    cases hc
    refine ⟨⟨.handshake fd _ hstate hsole hfd hmaster ?_, hl.closes, hl.cached⟩,
      (fun h => by cases h), clean_heard.released, clean_heard.states⟩
    show Talked l.gid l.stage _
    rw [Talked, if_pos hstage]
    exact hcompleted
  | some reply =>
    cases hread : l.peer.readPsync inp.uninitialized reply with
    | none =>
      rintro c e hc
      simp only [elim_some, takeReply,
        show ((l.call fd inp).heard inp fd).link.peer = l.peer from rfl, hread] at hc
      cases hc
    | some peer =>
      have hpeer := readPsync_cases hl.cached hread
      simp only [elim_some, takeReply,
        show ((l.call fd inp).heard inp fd).link.peer = l.peer from rfl, hread]
      cases reply with
      | fullResync _ _ | resume _ =>
        obtain ⟨hs', hc', c', hm', hflag⟩ := hpeer
        rintro c e hc
        cases hc
        refine ⟨⟨.established fd _ c' ?_ ⟨hadopted.conns, hadopted.events⟩ rfl hm' hflag
          hcompleted, hl.closes, fun m hm => by cases hc'.symm.trans hm⟩,
          (fun h => by cases h), clean_heard.released, clean_heard.states⟩
        first | exact .inl ⟨hs', rfl⟩ | exact .inr hs'
      | tryLater | other =>
        refine keeps_fail hl hs hmaster (htouch.trans ⟨fun _ _ => rfl, rfl, fun f hf => ?_, rfl,
          rfl, rfl, hpeer⟩) clean_heard
        exact update_of_ne hf _ _

/-- A descriptor whose events go to `crdtSyncWithMaster` is that of a connection that is
set up. -/
theorem Link.Inv.of_listens (h : l.Inv) (hlisten : l.listens fd = true) :
    (∃ unread, l.peer.replState = .connecting ∧
      l.Sole fd ⟨unread, []⟩ ⟨some .crdtSyncWithMaster, some .crdtSyncWithMaster⟩ ∧
      l.replTransferS = some fd ∧ l.masterFd = none) ∨
    (∃ conn, l.peer.replState = .handshake ∧ l.Sole fd conn ⟨some .crdtSyncWithMaster, none⟩ ∧
      l.replTransferS = some fd ∧ l.masterFd = none ∧ Talked l.gid l.stage conn.transcript) := by
  simp only [listens, decide_eq_true_eq] at hlisten
  obtain ⟨hopen, hev⟩ := hlisten
  have hsame : ∀ {fd' conn ev}, l.Sole fd' conn ev → fd = fd' := by
    intro fd' conn ev hs
    by_contra hne
    rw [hs.conns, update_of_ne hne] at hopen
    cases hopen
  cases h.phase with
  | bare _ hb =>
    rw [hb.conns] at hopen
    cases hopen
  | connecting fd' unread hstate hs hfd hm =>
    obtain rfl := hsame hs
    exact .inl ⟨unread, hstate, hs, hfd, hm⟩
  | handshake fd' conn hstate hs hfd hm ht =>
    obtain rfl := hsame hs
    exact .inr ⟨conn, hstate, hs, hfd, hm, ht⟩
  | established fd' conn c _ hs =>
    obtain rfl := hsame hs
    rw [hs.events, update_self] at hev
    simp at hev

theorem keeps_crdtSyncWithMaster (hl : l.Inv) (hlisten : l.listens fd = true)
    (hord : inp.socketError = true ∨ l.peer.replState ≠ .handshake ∨
      l.stage.orderly inp (l.unread fd ++ inp.arrived) = true) :
    Keeps fd (crdtSyncWithMaster inp fd l) := by
  rcases hl.of_listens hlisten with ⟨unread, hstate, hs, hfd, hm⟩ | ⟨conn, hstate, hs, hfd, hm, ht⟩
  · simp only [crdtSyncWithMaster, hstate]
    split
    case isTrue => exact keeps_fail hl hs hm (touches_call inp) ⟨rfl, rfl, not_mem_nil⟩
    case isFalse => exact keeps_connecting hl hs hfd hm
  · simp only [crdtSyncWithMaster, hstate]
    split
    case isTrue => exact keeps_fail hl hs hm (touches_call inp) ⟨rfl, rfl, not_mem_nil⟩
    case isFalse hsock =>
      by_cases hg : l.stage = .receivePsync
      · rw [Talked, if_pos hg] at ht
        have hat : (l.call fd inp).isAt .receivePsync = true := by
          simp [Call.isAt, call, arrive, onConn, hstate, hg]
        show Keeps fd (blocks inp fd (l.call fd inp))
        rw [blocks_receivePsync hat]
        exact keeps_receivePsync hl hstate hg hs hfd hm ht
      · rw [Talked, if_neg hg] at ht
        have hunread : l.unread fd = conn.unread := by simp [unread, hs.conn_eq]
        have hstage : l.stage.orderly inp (conn.unread ++ inp.arrived) = true := by
          rw [← hunread]
          simpa [hsock, hstate] using hord
        exact keeps_blocks hl hstate hs hfd hm ht hg hstage

end event

/-! ## Runs -/

/-- The invariant of a run. -/
structure World.Inv (w : World) : Prop where
  link : w.link.Inv
  last : ∀ r, w.last = some r → r.Ok w.link

theorem World.Inv.quiet {l : Link} (h : l.Inv) : World.Inv ⟨l, none⟩ := ⟨h, fun r hr => by cases hr⟩

theorem inv_init {w : World} (h : handshakes.init w) : w.Inv := by
  obtain ⟨hstate, hcached, -, hmaster, hconns, hevents, hstray, hlast⟩ := h
  refine ⟨.ofBare ⟨funext hconns, funext hevents, hmaster⟩ (.inl hstate) hstray ?_, ?_⟩
  · intro c hc
    cases hcached.symm.trans hc
  · intro r hr
    cases hlast.symm.trans hr

theorem inv_cancel {w : World} (h : w.link.Inv) {w' : World} (hstep : w.next .cancel = some w') :
    w'.Inv := by
  simp only [World.next, some.injEq] at hstep
  subst hstep
  rcases h.cancelHandshake with ⟨hs, hsame⟩ | ⟨hs, hbare, hstray, hpeer, -⟩
  · have hnone : w.link.cancelled = [] := by simp [cancelled, hs]
    refine ⟨by rw [hsame]; exact h, ?_⟩
    rw [hnone]
    intro r hr
    cases hr
  · have hcached :
        ∀ c, w.link.cancelHandshake.peer.cachedMaster = some c → c.crdtMaster = true := by
      rw [hpeer, cancelHandshake_cachedMaster]
      exact h.cached
    have hstate : w.link.cancelHandshake.peer.replState = .none ∨
        w.link.cancelHandshake.peer.replState = .connect := by
      rw [hpeer, PeerMaster.cancelHandshake]
      cases hr : w.link.peer.replState <;> simp [hr] at hs ⊢
    refine ⟨.ofBare hbare hstate hstray hcached, ?_⟩
    intro r hr
    obtain ⟨fd, hfd, rfl⟩ := map_eq_some_iff.1 hr
    have hone : w.link.cancelled = [fd] ∧ w.link.peer.cancelHandshake.replState = .connect := by
      cases h.phase with
      | bare hs' => rcases hs' with hs' | hs' <;> simp [cancelled, hs'] at hfd
      | connecting fd' _ hs' _ hfd' | handshake fd' _ hs' _ hfd' =>
        simp only [cancelled, hs', hfd', toList_some, head?_cons, some.injEq] at hfd ⊢
        exact ⟨by rw [hfd], by simp [PeerMaster.cancelHandshake, hs']⟩
      | established fd' _ _ hs' _ hfd' =>
        rcases hs' with ⟨hs', hnone⟩ | hs'
        · simp only [cancelled, hs', hnone, hfd', toList_some, toList_none,
            nil_append, head?_cons, some.injEq] at hfd ⊢
          exact ⟨by rw [hfd], by simp [PeerMaster.cancelHandshake, hs']⟩
        · exact absurd hs' hs
    rw [hone.1]
    refine ⟨fun _ => ⟨rfl, congrFun hbare.conns fd, congrFun hbare.events fd, hpeer ▸ hone.2⟩,
      rfl, ?_⟩
    simp

/-- Every step that keeps to the condition keeps the invariant. -/
theorem inv_step {w w' : World} {a : Act} (h : w.Inv) (hok : orderly w a = true)
    (hstep : w.next a = some w') : w'.Inv := by
  cases a with
  | prepare =>
    obtain ⟨hs, ⟨⟩⟩ := ite_none_right_eq_some.1 hstep
    have hb : w.link.Bare := by
      cases h.link.phase with
      | bare _ hb => exact hb
      | connecting _ _ hs' | handshake _ _ hs' => rw [hs] at hs'; cases hs'
      | established _ _ _ hs' => rcases hs' with hs' | hs' <;> simp [hs] at hs'
    exact .quiet (.ofBare ⟨hb.conns, hb.events, hb.masterFd⟩ (.inr rfl) h.link.closes h.link.cached)
  | connect fd registered =>
    obtain ⟨⟨hs, -⟩, ⟨⟩⟩ := ite_none_right_eq_some.1 hstep
    exact .quiet (h.link.connect hs fd registered)
  | event fd inp =>
    obtain ⟨hlisten, hcall⟩ := ite_none_right_eq_some.1 hstep
    obtain ⟨⟨c, e⟩, hout, rfl⟩ := map_eq_some_iff.1 hcall
    have hord := of_decide_eq_true hok
    obtain ⟨hinv, hreport⟩ := keeps_crdtSyncWithMaster h.link hlisten hord c e hout
    refine ⟨hinv, ?_⟩
    intro r hr
    cases hr
    exact hreport
  | cancel => exact inv_cancel h.link hstep
  | setMaster host port =>
    cases hstep
    have hord : ¬ (w.link.underWay = true ∧ w.link.peer.master.any PeerClient.crdtMaster = true) :=
      of_decide_eq_true hok
    refine .quiet (h.link.setMaster host port fun hup => ?_)
    rw [← Bool.not_eq_true]
    exact fun hflag => hord ⟨hup, hflag⟩
  | unsetMaster uninitialized =>
    cases hstep
    exact .quiet (h.link.unsetMaster uninitialized)
  | closeMaster =>
    cases hstep
    refine .quiet (h.link.withPeer rfl (fun c hc => ?_) rfl)
    exact ⟨{ c with closing := true }, by simp [hc], rfl⟩
  | disconnect =>
    obtain ⟨hfd, ⟨⟩⟩ := ite_none_right_eq_some.1 hstep
    refine .quiet (h.link.freeMaster fun hup => ?_).1
    -- while a connection is set up the client has no descriptor
    cases h.link.phase with
    | bare _ hb => simp [hb.masterFd] at hfd
    | connecting _ _ _ _ _ hm | handshake _ _ _ _ _ hm _ => simp [hm] at hfd
    | established _ _ _ hs => rcases hs with hs | hs <;> simp [underWay, hs] at hup
  | position replid reploff =>
    cases hstep
    refine .quiet (h.link.withPeer rfl (fun c hc => ?_) rfl)
    exact ⟨{ c with replid := replid, reploff := reploff }, by simp [hc], rfl⟩
  | mergeEnd =>
    obtain ⟨hfd, ⟨⟩⟩ := ite_none_right_eq_some.1 hstep
    cases h.link.phase with
    | bare _ hb => simp [hb.masterFd] at hfd
    | connecting _ _ _ _ _ hm | handshake _ _ _ _ _ hm _ => simp [hm] at hfd
    | established fd conn c _ hs hfd' hm hflag ht =>
      exact .quiet ⟨.established fd conn c (.inr rfl) ⟨hs.conns, hs.events⟩ hfd' hm hflag ht,
        h.link.closes, h.link.cached⟩
  | setBackstream vc =>
    cases hstep
    exact .quiet (h.link.withPeer rfl (fun c hc => ⟨c, hc, rfl⟩) rfl)
  | stateReset uninitialized =>
    cases hstep
    exact .quiet (h.link.stateReset uninitialized)
  | cacheForRole =>
    cases hstep
    exact .quiet (h.link.cacheForRole (by simpa [orderly] using hok))

theorem guarantee_of_inv {w : World} (h : w.Inv) : Guarantee w where
  established := by
    intro hs
    cases h.link.phase with
    | bare hs' => rcases hs' with hs' | hs' <;> simp [hs'] at hs
    | connecting _ _ hs' | handshake _ _ hs' => simp [hs'] at hs
    | established fd conn c _ hsole hfd _ _ ht => exact ⟨fd, conn, hfd, hsole.conn_eq, ht⟩
  asked := by
    intro fd conn hconn hasked
    have hsame : ∀ {fd' conn' ev}, w.link.Sole fd' conn' ev → conn = conn' := by
      intro fd' conn' ev hs
      by_cases hne : fd = fd'
      · rw [hne, hs.conn_eq] at hconn
        exact (some.inj hconn).symm
      · rw [hs.conns, update_of_ne hne] at hconn
        cases hconn
    cases h.link.phase with
    | bare _ hb => rw [hb.conns] at hconn; cases hconn
    | connecting _ _ _ hs =>
      obtain ⟨cfg, vc, args, hmem⟩ := hasked
      rw [hsame hs] at hmem
      cases hmem
    | handshake _ conn' _ hs _ _ ht =>
      obtain rfl := hsame hs
      by_cases hg : w.link.stage = .receivePsync
      · rwa [Talked, if_pos hg] at ht
      · rw [Talked, if_neg hg] at ht
        exact absurd hasked (ht.not_askedPsync hg)
    | established _ _ _ _ hs _ _ _ ht =>
      rw [hsame hs]
      exact ht
  failure r hr := (h.last r hr).failure
  strings r hr := (h.last r hr).strings
  states r hr := (h.last r hr).states
  idle := by
    intro hs fd
    cases h.link.phase with
    | bare _ hb => exact ⟨congrFun hb.conns fd, congrFun hb.events fd⟩
    | connecting _ _ hs' | handshake _ _ hs' => simp [hs'] at hs
    | established _ _ _ hs' => rcases hs' with ⟨hs', -⟩ | hs' <;> simp [hs'] at hs
  closes := h.link.closes

/-- In every run that keeps to the condition, every state has the guarantee. -/
theorem handshake_not_skipped {w : World}
    (h : handshakes.Reachable (fun w a => orderly w a = true) w) : Guarantee w :=
  guarantee_of_inv (h.invariant (fun _ => inv_init) fun _ _ _ hi hok hstep => inv_step hi hok hstep)

/-! ## Runs with and without the condition -/

/-- A node without password and announced address. -/
def plainConfig : Config := ⟨ascii "ns", none, 0, 6379, none, VectorClock.null⟩

/-- A call that writes, with what arrives for it. -/
def hearing (text : String) : Input := ⟨plainConfig, false, true, ascii text, true, [], []⟩

/-- A peer that was just configured, or that an RDB file gave a client. -/
def newPeer (master : Option PeerClient) : World where
  link :=
    { gid := 2
      peer := { createPeerMaster [] with master := master }
      stage := .receivePong
      replTransferS := none
      masterFd := none
      conns := fun _ => none
      events := fun _ => ⟨none, none⟩
      strayClose := false }
  last := none

theorem newPeer_init (master : Option PeerClient) : handshakes.init (newPeer master) :=
  ⟨rfl, rfl, rfl, rfl, fun _ => rfl, fun _ => rfl, rfl, rfl⟩

/-- A handshake that ends in a full sync. -/
def fullHandshake : List Act :=
  [.prepare, .connect 3 true, .event 3 (hearing ""), .event 3 (hearing "+PONG\r\n"),
    .event 3 (hearing "+OK\r\n"), .event 3 (hearing "+OK\r\n"), .event 3 (hearing "-ERR\r\n"),
    .event 3 (hearing "+OK\n"), .event 3 (hearing "\n"), .event 3 (hearing "+FULLRESYNC x 1\r\n")]

theorem handshake_not_skipped_transfer : ∃ w,
    handshakes.Reachable (fun w a => orderly w a = true) w ∧ w.link.peer.replState = .transfer ∧
      Guarantee w := by
  have hrun :
      (handshakes.runMeeting (fun w a => orderly w a = true) (newPeer none) fullHandshake).any
      (fun w => w.link.peer.replState = .transfer) = true := by decide +kernel
  obtain ⟨w, hw, hstate⟩ := (Option.any_eq_true _ _).1 hrun
  have hreach := Lib.System.reachable_of_runMeeting (.init (newPeer_init none)) hw
  exact ⟨w, hreach, of_decide_eq_true hstate, handshake_not_skipped hreach⟩

def Exchange.isSent : Exchange → Bool
  | .sent _ _ _ => true
  | .answer _ => false

/-- A command that starts with a word. -/
def Exchange.uses (word : Bytes) : Exchange → Bool
  | .sent _ _ command => word <+: command
  | .answer _ => false

theorem Dialogue.answer_isLine {gid : Int} {g : Stage} {t : List Exchange} (h : Dialogue gid g t)
    {x : Bytes} (hx : .answer x ∈ t) : IsLine x := by
  induction h with
  | ping => simp at hx
  | crdtAuth _ hline ih | auth _ hline _ _ ih | port _ hline _ _ ih | portAfterAuth _ hline _ ih
  | ip _ hline _ ih | capa _ hline _ ih | capaAfterIp _ hline ih | minVc _ hline ih
  | backstream _ hline _ ih | psync _ hline _ ih | psyncAfterBackstream _ hline ih =>
    simp only [mem_append, mem_cons, answer.injEq, reduceCtorEq, not_mem_nil,
      or_false] at hx
    rcases hx with hx | rfl
    · exact ih hx
    · exact hline

/-- In a whole dialogue, what was read before a command is a line. -/
theorem Completed.isLine {gid : Int} {t : List Exchange} (h : Completed gid t) {i : Nat} {x : Bytes}
    (hi : t[i]? = some (.answer x)) (hlater : (t.drop (i + 1)).any isSent = true) :
    IsLine x := by
  obtain ⟨asked, replies, hasked, rfl⟩ := h
  by_cases hlt : i < asked.length
  · rw [getElem?_append_left hlt] at hi
    exact hasked.answer_isLine (mem_of_getElem? hi)
  · -- nothing was sent after the dialogue
    rw [drop_append, drop_of_length_le (by omega), nil_append, List.any_eq_true] at hlater
    obtain ⟨e, he, hsent⟩ := hlater
    obtain ⟨y, -, rfl⟩ := mem_map.1 (mem_of_mem_drop he)
    cases hsent

/-- In a whole dialogue `CRDT.AUTH` was sent. -/
theorem Dialogue.sent_crdtAuth {gid : Int} {g : Stage} {t : List Exchange} (h : Dialogue gid g t)
    (hg : g ≠ .receivePong) : ∃ cfg vc args,
      sent cfg vc (syncCommand (ascii "CRDT.AUTH" :: args)) ∈ t := by
  induction h with
  | ping => exact absurd rfl hg
  | crdtAuth h _ _ =>
    exact ⟨_, _, _, mem_append_right _ (mem_cons_of_mem _ mem_cons_self)⟩
  | auth _ _ _ _ ih | port _ _ _ _ ih | portAfterAuth _ _ _ ih | ip _ _ _ ih | capa _ _ _ ih
  | capaAfterIp _ _ ih | minVc _ _ ih | backstream _ _ _ ih | psync _ _ _ ih
  | psyncAfterBackstream _ _ ih =>
    obtain ⟨cfg, vc, args, hmem⟩ := ih (by decide)
    exact ⟨cfg, vc, args, mem_append_left _ hmem⟩

/-- The write of `CRDT.AUTH` fails. -/
def failedWrite : List Act :=
  [.prepare, .connect 3 true, .event 3 (hearing ""),
    .event 3 { hearing "+PONG\r\n" with written := false }]

/-- The replies to `CRDT.REPLCONF` do not come. -/
def missingReplies : List Act :=
  [.prepare, .connect 3 true, .event 3 (hearing ""), .event 3 (hearing "+PONG\r\n"),
    .event 3 (hearing "+OK\r\n"), .event 3 (hearing "+"), .event 3 (hearing "+"),
    .event 3 (hearing "+"), .event 3 (hearing "+FULLRESYNC x 1\r\n")]

/-- `PEEROF` with another address during the handshake of a peer that an RDB file gave
a client. -/
def changedAddress : List Act :=
  [.prepare, .connect 3 true, .event 3 (hearing ""), .setMaster [] 1, .connect 4 true,
    .event 3 (hearing "+PONG\r\n"), .event 3 (hearing ""), .event 3 (hearing "+PONG\r\n"),
    .event 4 (hearing ""), .event 4 (hearing ""), .event 4 (hearing "")]

/-- Outside of the condition: a string is used after its release; a link transfers
without the replies; `CRDT.PSYNC` is sent on a connection on which `CRDT.AUTH` was not. -/
theorem handshake_skipped :
    (¬ ∀ w, handshakes.Reachable Lib.System.anyStep w → ∀ r, w.last = some r → Released r.ops) ∧
    (¬ ∀ w, handshakes.Reachable Lib.System.anyStep w →
      (w.link.peer.replState = .transfer ∨ w.link.peer.replState = .connected) →
      ∃ fd conn, w.link.masterFd = some fd ∧ w.link.conns fd = some conn ∧
        Completed w.link.gid conn.transcript) ∧
    (¬ ∀ w, handshakes.Reachable Lib.System.anyStep w → ∀ fd conn, w.link.conns fd = some conn →
      AskedPsync conn.transcript → Completed w.link.gid conn.transcript) := by
  refine ⟨fun hall => ?_, fun hall => ?_, fun hall => ?_⟩
  · have hrun : (handshakes.run (newPeer none) failedWrite).any
        (fun w => w.last.any fun r => ¬ Released r.ops) = true := by decide +kernel
    obtain ⟨w, hw, hlast⟩ := (Option.any_eq_true _ _).1 hrun
    obtain ⟨r, hr, hbad⟩ := (Option.any_eq_true _ _).1 hlast
    exact of_decide_eq_true hbad
      (hall w (Lib.System.reachable_of_run (.init (newPeer_init none)) hw) r hr)
  · have hrun : (handshakes.run (newPeer none) missingReplies).any
        (fun w => w.link.peer.replState = .transfer ∧ w.link.masterFd = some 3 ∧
          (w.link.conns 3).all fun c => c.transcript[5]? = some (.answer [43]) ∧
            (c.transcript.drop 6).any isSent) = true := by decide +kernel
    obtain ⟨w, hw, hfacts⟩ := (Option.any_eq_true _ _).1 hrun
    obtain ⟨hstate, hfd, hconns⟩ := of_decide_eq_true hfacts
    obtain ⟨fd, conn, hfd', hconn, hcompleted⟩ :=
      hall w (Lib.System.reachable_of_run (.init (newPeer_init none)) hw) (.inl hstate)
    obtain rfl : fd = 3 := some.inj (hfd'.symm.trans hfd)
    rw [hconn, all_some] at hconns
    obtain ⟨hanswer, hlater⟩ := of_decide_eq_true hconns
    obtain ⟨t, ht, -⟩ := hcompleted.isLine hanswer hlater
    cases t with
    | nil => simp at ht
    | cons b t => simp at ht
  · have hrun : (handshakes.run (newPeer (some (createFakeClient []))) changedAddress).any
        (fun w => (w.link.conns 4).any fun c =>
          sent plainConfig VectorClock.null
            (syncCommand [ascii "CRDT.PSYNC", [], ascii "1"]) ∈ c.transcript ∧
          c.transcript.any (uses (ascii "CRDT.AUTH")) = false) = true := by decide +kernel
    obtain ⟨w, hw, hfacts⟩ := (Option.any_eq_true _ _).1 hrun
    obtain ⟨conn, hconn, hfacts⟩ := (Option.any_eq_true _ _).1 hfacts
    obtain ⟨hpsync, hauth⟩ := of_decide_eq_true hfacts
    obtain ⟨asked, replies, hasked, ht⟩ := hall w
      (Lib.System.reachable_of_run (.init (newPeer_init _)) hw) 4 conn hconn ⟨_, _, _, hpsync⟩
    obtain ⟨cfg, vc, args, hmem⟩ := hasked.sent_crdtAuth (by decide)
    rw [List.any_eq_false] at hauth
    refine hauth _ (ht ▸ mem_append_left _ hmem) ?_
    exact decide_eq_true (prefix_syncCommand (ascii "CRDT.AUTH") args)

end XredisCrdt.Handshake
