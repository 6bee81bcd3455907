import XredisCrdt.Peer.FullSync

/-!
# PEEROF

`PEEROF gid host port [backstream vcu] [proxy-type t] [proxy-servers l] [proxy-params p]`
attaches the node to a peer, `PEEROF gid no one` detaches it. The handler sets
`crdtServer.loading` while it is still reading options and takes the new peer back
when the configuration file cannot be written.
-/

namespace XredisCrdt.Peer

open Clock Function Trace VectorClock

/-- What a command answers; an error without its `-ERR `. -/
inductive Reply
  | status (text : Bytes)
  | error (text : Bytes)
  deriving DecidableEq, Repr

/-! ## Proxies -/

/-- `parsePoint`. -/
def parsePoint (str : Bytes) : Option Point :=
  match sdssplitlen str 58 with
  | [host, port] => do
    let port ← string2ll port
    some { host := host, port := toInt port, type := .none }
  | [proto, host, port] =>
    if cstr proto = ascii "PROXYTCP" then do
      let port ← string2ll port
      some { host := host.drop 2, port := toInt port, type := .tcp }
    else none
  | _ => none

/-- `parseServers`. -/
def parseServers (str : Bytes) : Option (List Point) := (sdssplitlen str 44).mapM parsePoint

/-- The loop of `parseXpipeProxyByArray` over the words after the port; servers
that cannot be read are passed over. -/
def parseProxyWords (servers : List Point) (params : Option Bytes) :
    List Bytes → Trace (List Point × Option Bytes)
  | [] => pure (servers, params)
  | [word] =>
    if strcaseeq word (ascii "proxy-servers") || strcaseeq word (ascii "proxy-params") then
      Trace.fail .missingArg
    else pure (servers, params)
  | word :: value :: rest =>
    if strcaseeq word (ascii "proxy-servers") then
      parseProxyWords ((parseServers value).getD servers) params rest
    else if strcaseeq word (ascii "proxy-params") then
      parseProxyWords servers (some (cstr value)) rest
    else parseProxyWords servers params (value :: rest)

/-- `parseXpipeProxyByArray`. -/
def parseXpipeProxyByArray (words : List Bytes) : Trace (Option XpipeProxy) := do
  let (servers, params) ← parseProxyWords [] none words
  if h : 0 < servers.length then
    pure (some { servers := servers, serversIndex := 0, params := params, inRange := h })
  else pure none

/-- `eqPoint`. -/
def eqPoint (p q : Point) : Bool := p.host == q.host && p.port == q.port

/-- `eqXpipeProxy`. -/
def eqXpipeProxy (p q : XpipeProxy) : Bool :=
  p.params == q.params && p.servers.length == q.servers.length &&
    p.servers.all fun x => q.servers.any (eqPoint x)

/-- `eqProxy`, for proxies of equal type. -/
def eqProxy : Option XpipeProxy → Option XpipeProxy → Bool
  | none, none => true
  | some p, some q => eqXpipeProxy p q
  | _, _ => false

/-- `xpipeProxyIsKeepConnected`: the new proxy, pointed to the server of the
current one, if it has that server. -/
def xpipeProxyIsKeepConnected (current proxy : XpipeProxy) : Option XpipeProxy :=
  if proxy.params = current.params then
    let point := current.servers.get ⟨current.serversIndex, current.inRange⟩
    if h : proxy.servers.findIdx (eqPoint point) < proxy.servers.length then
      some { proxy with
        serversIndex := proxy.servers.findIdx (eqPoint point)
        inRange := h }
    else none
  else none

/-! ## The command -/

/-- `"value is not an integer or out of range"`. -/
def notInteger : Bytes := ascii "value is not an integer or out of range"

/-- What the option loop sets; `loading` is `crdtServer.loading`. -/
structure PeerofOptions where
  loading : Bool
  backstreamVc : VectorClock
  proxy : Option XpipeProxy

/-- The option loop. It ends with the text of an error or without one; `words` are
all words after the port. -/
def peerofOptions (own : Gid) (words : List Bytes) (o : PeerofOptions) :
    List Bytes → Trace (Option Bytes × PeerofOptions)
  | [] => pure (none, o)
  | [word] =>
    if strcaseeq word (ascii "backstream") || strcaseeq word (ascii "proxy-type") then
      Trace.fail .missingArg
    else pure (none, o)
  | word :: value :: rest =>
    if strcaseeq word (ascii "backstream") then
      match string2ll value with
      | none => pure (some notInteger, o)
      | some vcu =>
        peerofOptions own words
          { o with loading := true, backstreamVc := o.backstreamVc.add own vcu } rest
    else if strcaseeq word (ascii "proxy-type") then
      if strcaseeq value (ascii "xpipe-proxy") then do
        match ← parseXpipeProxyByArray words with
        | none => pure (some (ascii "proxy params error"), o)
        | some proxy => peerofOptions own words { o with proxy := some proxy } rest
      else pure (some (ascii "proxy unknow type"), o)
    else peerofOptions own words o (value :: rest)

/-- The environment of a `PEEROF`: `rewriteError` is the reason for which
`rewriteConfig` failed, `none` also without a configuration file. -/
structure PeerofEnv where
  clusterEnabled : Bool
  rewriteError : Option Bytes
  uninitialized : Bytes

/-- `PEEROF gid no one`. -/
def peerofNoOne (s : CrdtServer) (gid : Int) : Trace (Reply × CrdtServer) := do
  let i ← slot gid
  let s := crdtReplicationUnsetMaster s i
  pure (.status (ascii "OK"), { s with dirty := s.dirty + 1 })

/-- The proxy with which a connected peer goes on. -/
def keepConnected (p : PeerMaster) (proxy : Option XpipeProxy) : Option XpipeProxy :=
  match p.proxy, proxy with
  | some current, some proxy =>
    if p.replState = .connected then xpipeProxyIsKeepConnected current proxy else none
  | _, _ => none

/-- The peer is attached to that master. -/
def PeerMaster.sameMaster (p : PeerMaster) (host : Bytes) (port : Int) : Bool :=
  strcaseeq p.masterhost host && p.masterport == port

/-- The exits for a peer that is attached to that master already. -/
def alreadyAttached (s : CrdtServer) (i : Fin 16) (host : Bytes) (port : Int)
    (o : PeerofOptions) : Option (Reply × CrdtServer) :=
  match s.crdtMasters i with
  | none => none
  | some p =>
    if p.sameMaster host port then
      match keepConnected p o.proxy with
      | some proxy =>
        some (.status (ascii "OK"),
          { s.setPeer i (some { p with proxy := some proxy }) with dirty := s.dirty + 1 })
      | none =>
        if p.backstreamVc = o.backstreamVc ∧ eqProxy o.proxy p.proxy then
          if p.lazyTime then
            some (.status (ascii "OK Clean lazy_time"),
              s.setPeer i (some { p with lazyTime := false }))
          else some (.status (ascii "OK Already connected to specified master"), s)
        else none
    else none

/-- The peer with the options of the command. -/
def PeerMaster.withOptions (p : PeerMaster) (o : PeerofOptions) : PeerMaster :=
  { p with
    backstreamVc := if o.backstreamVc.units = [] then p.backstreamVc else o.backstreamVc
    proxy := o.proxy }

/-- The peer is set up. -/
def attachPeer (env : PeerofEnv) (s : CrdtServer) (i : Fin 16) (host : Bytes) (port : Int)
    (o : PeerofOptions) : CrdtServer :=
  let s := crdtReplicationSetMaster s i host port env.uninitialized
  { s with
    crdtMasters := update s.crdtMasters i ((s.crdtMasters i).map (·.withOptions o)) }

/-- `PEEROF` after its options are read. -/
def peerofAttach (env : PeerofEnv) (s : CrdtServer) (gid : Int) (host : Bytes) (port : Int)
    (o : PeerofOptions) : Trace (Reply × CrdtServer) := do
  let i ← slot gid
  match alreadyAttached s i host port o with
  | some r => pure r
  | none =>
    let s := attachPeer env s i host port o
    match env.rewriteError with
    | some reason =>
      pure (.error (ascii "Rewriting config file: " ++ reason), crdtReplicationUnsetMaster s i)
    | none => pure (.status (ascii "OK"), { addPeerSet s i with dirty := s.dirty + 1 })

def isNoOne (host portText : Bytes) : Bool :=
  strcaseeq host (ascii "no") && strcaseeq portText (ascii "one")

def peerofCommand (env : PeerofEnv) (s : CrdtServer) : List Bytes → Trace (Reply × CrdtServer)
  | _ :: gidText :: host :: portText :: words =>
    if env.clusterEnabled then pure (.error (ascii "PEEROF not allowed in cluster mode."), s)
    else
      match string2ll gidText with
      | none => pure (.error notInteger, s)
      | some gid =>
        if gid = (s.crdtGid : Nat) then pure (.error (ascii "invalid gid"), s)
        else if isNoOne host portText then peerofNoOne s gid
        else
          match string2ll portText with
          | none => pure (.error notInteger, s)
          | some port => do
            let (e, o) ← peerofOptions s.crdtGid words ⟨s.loading, VectorClock.null, none⟩ words
            let s := { s with loading := o.loading }
            match e with
            | some text => pure (.error text, s)
            | none => peerofAttach env s gid host port o
  | _ => Trace.fail .missingArg

/-! ## What the parts leave -/

/-- The peer is attached to that master, and the options ask for nothing else. -/
def PeerMaster.upToDate (p : PeerMaster) (host : Bytes) (port : Int) (o : PeerofOptions) : Bool :=
  p.sameMaster host port &&
    ((keepConnected p o.proxy).isSome ||
      (p.backstreamVc == o.backstreamVc && eqProxy o.proxy p.proxy))

/-- The peer after an exit for one that is attached already. -/
def PeerMaster.reattached (p : PeerMaster) (o : PeerofOptions) : PeerMaster :=
  match keepConnected p o.proxy with
  | some proxy => { p with proxy := some proxy }
  | none => { p with lazyTime := false }

variable (env : PeerofEnv) (s : CrdtServer) (i : Fin 16) (l : Bool) (host : Bytes) (port : Int)
  (o : PeerofOptions)

/-- A peer that is up to date is answered with a status, and only its proxy or its
lazy time may change. -/
theorem alreadyAttached_spec :
    (∃ p text d, s.crdtMasters i = some p ∧ p.upToDate host port o = true ∧
      alreadyAttached s i host port o =
        some (.status text, { s.setPeer i (some (p.reattached o)) with dirty := d })) ∨
    (((s.crdtMasters i).any fun p => p.upToDate host port o) = false ∧
      alreadyAttached s i host port o = none) := by
  unfold alreadyAttached
  cases hp : s.crdtMasters i with
  | none => exact .inr ⟨rfl, rfl⟩
  | some p =>
    simp only [Option.any_some, PeerMaster.upToDate, PeerMaster.reattached]
    by_cases hsame : p.sameMaster host port = true
    · rw [if_pos hsame]
      cases hkeep : keepConnected p o.proxy with
      | some proxy =>
        exact .inl ⟨p, ascii "OK", s.dirty + 1, rfl, by simp [hsame, hkeep], by simp only [hkeep]⟩
      | none =>
        by_cases heq : p.backstreamVc = o.backstreamVc ∧ eqProxy o.proxy p.proxy = true
        · refine .inl ?_
          by_cases hlazy : p.lazyTime = true
          · refine ⟨p, ascii "OK Clean lazy_time", s.dirty, rfl, by simp [hsame, heq], ?_⟩
            simp only [hkeep, if_pos heq, if_pos hlazy]
            rfl
          · have hpeer : ({ p with lazyTime := false } : PeerMaster) = p := by
              rw [← Bool.eq_false_iff.2 hlazy]
            refine ⟨p, ascii "OK Already connected to specified master", s.dirty, rfl,
              by simp [hsame, heq], ?_⟩
            simp only [hkeep, if_pos heq, if_neg hlazy, hpeer, CrdtServer.setPeer, ← hp,
              update_eq_self]
        · refine .inr ⟨?_, by simp only [if_neg heq]⟩
          simpa [hsame] using heq
    · rw [if_neg hsame]
      exact .inr ⟨by simp [hsame], rfl⟩

/-- The loading flag passes through the option loop. -/
def PeerofOptions.orLoading (o : PeerofOptions) (l : Bool) : PeerofOptions :=
  { o with loading := l || o.loading }

theorem peerofOptions_orLoading (own : Gid) (words : List Bytes) (l : Bool) (o : PeerofOptions)
    (ws : List Bytes) :
    (peerofOptions own words (o.orLoading l) ws).result =
      (peerofOptions own words o ws).result.map fun r => (r.1, r.2.orLoading l) := by
  fun_induction peerofOptions own words o ws with
  | case1 o => rfl
  | case2 o word h => simp [peerofOptions, h, Except.map]
  | case3 o word h => simp [peerofOptions, h, Except.map]
  | case4 o word value rest h hv => simp [peerofOptions, h, hv, Except.map]
  | case5 o word value rest h vcu hv ih =>
    rw [← ih]
    simp [peerofOptions, h, hv, PeerofOptions.orLoading]
  | case6 o word value rest h ht hv ih =>
    simp only [peerofOptions, h, ht, hv, if_true, if_false, Bool.false_eq_true]
    cases hr : (parseXpipeProxyByArray words).result with
    | error e => simp only [bind_of_error hr, Except.map]
    | ok proxy =>
      rw [bind_of_ok hr, bind_of_ok hr]
      cases proxy with
      | none => rfl
      | some proxy => exact ih proxy
  | case7 o word value rest h ht hv => simp [peerofOptions, h, ht, hv, Except.map]
  | case8 o word value rest h ht ih =>
    rw [← ih]
    simp [peerofOptions, h, ht]

/-- What the options say, read on their own: with `loading`, one of them was a
`backstream`. -/
def optionsOf (own : Gid) (words : List Bytes) : Except Fault (Option Bytes × PeerofOptions) :=
  (peerofOptions own words ⟨false, VectorClock.null, none⟩ words).result

/-- The loop, started with the flag of the server. -/
theorem peerofOptions_server (words : List Bytes) :
    (peerofOptions s.crdtGid words ⟨s.loading, null, none⟩ words).result =
      (optionsOf s.crdtGid words).map fun r => (r.1, r.2.orLoading s.loading) := by
  have h := peerofOptions_orLoading s.crdtGid words s.loading ⟨false, null, none⟩ words
  simpa only [optionsOf, PeerofOptions.orLoading, Bool.or_false] using h

/-- How `PEEROF` goes on after the options, from the state `s` that they left. -/
def AttachOutcome (env : PeerofEnv) (s : CrdtServer) (gid : Int) (host : Bytes) (port : Int)
    (o : PeerofOptions) (s' : CrdtServer) : Prop :=
  ∃ i, (slot gid).result = .ok i ∧
    ((∃ p d, s.crdtMasters i = some p ∧ p.upToDate host port o = true ∧
      s' = { s.setPeer i (some (p.reattached o)) with dirty := d }) ∨
    (((s.crdtMasters i).any fun p => p.upToDate host port o) = false ∧
      (s' = crdtReplicationUnsetMaster (attachPeer env s i host port o) i ∨
        ∃ d, s' = { addPeerSet (attachPeer env s i host port o) i with dirty := d })))

theorem peerofAttach_ok {env : PeerofEnv} {s s' : CrdtServer} {gid : Int} {host : Bytes}
    {port : Int} {o : PeerofOptions} {reply : Reply}
    (h : (peerofAttach env s gid host port o).result = .ok (reply, s')) :
    AttachOutcome env s gid host port o s' := by
  unfold peerofAttach at h
  obtain ⟨i, hi, h⟩ := bind_result_ok.1 h
  refine ⟨i, hi, ?_⟩
  rcases alreadyAttached_spec s i host port o with ⟨p, text, d, hp, hup, heq⟩ | ⟨hup, heq⟩
  · rw [heq] at h
    cases h
    exact .inl ⟨p, d, hp, hup, rfl⟩
  · rw [heq] at h
    refine .inr ⟨hup, ?_⟩
    cases hr : env.rewriteError with
    | some reason =>
      simp only [hr, pure_result, Except.ok.injEq, Prod.mk.injEq] at h
      exact .inl h.2.symm
    | none =>
      simp only [hr, pure_result, Except.ok.injEq, Prod.mk.injEq] at h
      exact .inr ⟨_, h.2.symm⟩

/-- What a `PEEROF` that comes to its end does. -/
theorem peerofCommand_ok {env : PeerofEnv} {s s' : CrdtServer} {argv : Argv} {reply : Reply}
    (h : (peerofCommand env s argv).result = .ok (reply, s')) :
    s' = s ∨ (∃ i d, s' = { crdtReplicationUnsetMaster s i with dirty := d }) ∨
    ∃ cmd gidText host portText words gid port e o,
      argv = cmd :: gidText :: host :: portText :: words ∧ isNoOne host portText = false ∧
      string2ll gidText = some gid ∧ string2ll portText = some port ∧
      optionsOf s.crdtGid words = .ok (e, o) ∧
      ((e.isSome ∧ s' = { s with loading := s.loading || o.loading }) ∨ (e = none ∧
          AttachOutcome env { s with loading := s.loading || o.loading } gid host port o s')) := by
  match argv with
  | [] | [_] | [_, _] | [_, _, _] => simp [peerofCommand] at h
  | cmd :: gidText :: host :: portText :: words =>
    simp only [peerofCommand] at h
    split at h
    · cases h
      exact .inl rfl
    cases hgid : string2ll gidText with
    | none =>
      simp only [hgid] at h
      cases h
      exact .inl rfl
    | some gid =>
      simp only [hgid] at h
      split at h
      · cases h
        exact .inl rfl
      split at h
      · obtain ⟨i, -, h⟩ := bind_result_ok.1 h
        cases h
        exact .inr (.inl ⟨i, _, rfl⟩)
      rename_i hnoone
      cases hport : string2ll portText with
      | none =>
        simp only [hport] at h
        cases h
        exact .inl rfl
      | some port =>
        simp only [hport] at h
        obtain ⟨⟨e, o'⟩, ho, h⟩ := bind_result_ok.1 h
        rw [peerofOptions_server] at ho
        cases hread : optionsOf s.crdtGid words with
        | error f => simp [hread, Except.map] at ho
        | ok r =>
          obtain ⟨e', o⟩ := r
          simp only [hread, Except.map, Except.ok.injEq, Prod.mk.injEq] at ho
          obtain ⟨rfl, rfl⟩ := ho
          refine .inr (.inr ⟨cmd, gidText, host, portText, words, gid, port, e', o, rfl,
            Bool.eq_false_iff.2 hnoone, hgid, hport, hread, ?_⟩)
          cases e' with
          | some text =>
            cases h
            exact .inl ⟨rfl, rfl⟩
          | none => exact .inr ⟨rfl, peerofAttach_ok h⟩

/-! ## Failing cleanly -/

/-- The options with a value. -/
def isOptionName (word : Bytes) : Bool :=
  strcaseeq word (ascii "backstream") || strcaseeq word (ascii "proxy-type") ||
    strcaseeq word (ascii "proxy-servers") || strcaseeq word (ascii "proxy-params")

/-- The last option has no value. -/
def lacksValue : List Bytes → Bool
  | [] => false
  | [word] => isOptionName word
  | word :: value :: rest =>
    if isOptionName word then lacksValue rest else lacksValue (value :: rest)

/-- An error reply comes with the state unchanged, and it comes if a value is
lacking. -/
def CleanResult (s : CrdtServer) (lacks : Bool) (r : Except Fault (Reply × CrdtServer)) : Prop :=
  (∀ text s', r = .ok (.error text, s') → s' = s) ∧
    (lacks = true → ∃ text s', r = .ok (.error text, s'))

def FailsCleanly (env : PeerofEnv) (s : CrdtServer) (argv : Argv) : Prop :=
  CleanResult s (lacksValue (argv.drop 4)) (peerofCommand env s argv).result

section results

variable {s : CrdtServer} {lacks : Bool}

theorem cleanResult_fault {e : Fault} : CleanResult s lacks (.error e) ↔ lacks = false := by
  simp [CleanResult]

theorem cleanResult_status {text : Bytes} {s' : CrdtServer} :
    CleanResult s lacks (.ok (.status text, s')) ↔ lacks = false := by
  simp [CleanResult]

theorem cleanResult_error {text : Bytes} {s' : CrdtServer} :
    CleanResult s lacks (.ok (.error text, s')) ↔ s' = s := by
  constructor
  · exact fun h => h.1 text s' rfl
  · rintro rfl
    exact ⟨fun _ _ h => by cases h; rfl, fun _ => ⟨text, s', rfl⟩⟩

end results

/-- To add a peer in the slot and to take it back leaves nothing behind: there was
none before, its gid was known, and `loading` does not end up different. -/
def TakenBack (s : CrdtServer) (i : Fin 16) (loads : Bool) : Prop :=
  s.crdtMasters i = none ∧ ((i : Nat) = s.crdtGid ∨ s.peerSet i = true) ∧
    if s.recovering then loads = true → s.loading = true else s.loading = false

/-- When a `PEEROF` that got as far as its options fails cleanly. A value that is
lacking has to be noticed by an error; an error in the options must not come after
a `backstream`, unless the node was loading anyway; a failing rewrite must find
the node as `TakenBack` says. -/
def AttachCleanWhen (env : PeerofEnv) (s : CrdtServer) (gid : Int) (host : Bytes) (port : Int)
    (words : List Bytes) : Prop :=
  match optionsOf s.crdtGid words with
  | .error _ => lacksValue words = false
  | .ok (some _, o) => o.loading = true → s.loading = true
  | .ok (none, o) =>
    match (slot gid).result, env.rewriteError with
    | .ok i, some _ =>
      if ((s.crdtMasters i).any fun p => p.upToDate host port o) then lacksValue words = false
      else TakenBack s i o.loading
    | _, _ => lacksValue words = false

/-- When a `PEEROF` fails cleanly. -/
def CleanWhen (env : PeerofEnv) (s : CrdtServer) : List Bytes → Prop
  | _ :: gidText :: host :: portText :: words =>
    if env.clusterEnabled then True
    else
      match string2ll gidText with
      | none => True
      | some gid =>
        if gid = (s.crdtGid : Nat) then True
        else if isNoOne host portText then lacksValue words = false
        else
          match string2ll portText with
          | none => True
          | some port => AttachCleanWhen env s gid host port words
  | _ => True

theorem crdtReplicationUnsetMaster_attachPeer :
    crdtReplicationUnsetMaster (attachPeer env s i host port o) i = tryCleanCrdtServerLoading
        ((if s.crdtMasters i = none then addPeerSet s i else s).setPeer i none) := by
  unfold crdtReplicationUnsetMaster attachPeer crdtReplicationSetMaster CrdtServer.setPeer
  cases hp : s.crdtMasters i with
  | none => simp [update_idem]
  | some p => simp [update_idem]

@[simp] theorem addPeerSet_crdtMasters : (addPeerSet s i).crdtMasters = s.crdtMasters := by
  unfold addPeerSet
  split <;> rfl

@[simp] theorem addPeerSet_loading : (addPeerSet s i).loading = s.loading := by
  unfold addPeerSet
  split <;> rfl

theorem addPeerSet_iAmMaster : (addPeerSet s i).iAmMaster = s.iAmMaster := by
  unfold addPeerSet
  split <;> rfl

theorem addPeerSet_crdtGid : (addPeerSet s i).crdtGid = s.crdtGid := by
  unfold addPeerSet
  split <;> rfl

theorem addPeerSet_eq_self {s : CrdtServer} {i : Fin 16}
    (h : (i : Nat) = s.crdtGid ∨ s.peerSet i = true) : addPeerSet s i = s := by
  unfold addPeerSet
  split
  · rfl
  · rename_i hne
    have hi : s.peerSet i = true := h.resolve_left hne
    rw [← hi, update_eq_self]

theorem setPeer_eq_self {s : CrdtServer} {i : Fin 16} {p : Option PeerMaster}
    (h : s.crdtMasters i = p) : s.setPeer i p = s := by
  rw [CrdtServer.setPeer, ← h, update_eq_self]

theorem orLoading_eq_self_iff :
    { s with loading := s.loading || l } = s ↔ (l = true → s.loading = true) := by
  constructor
  · intro h hl
    rw [← congrArg CrdtServer.loading h, hl, Bool.or_true]
  · intro h
    ext : 1 <;> try rfl
    cases hl : l with
    | false => simp
    | true => simp [h hl]

/-- What is left of a peer that was attached and taken back. -/
theorem takenBack_iff (loads : Bool) : crdtReplicationUnsetMaster
        (attachPeer env { s with loading := s.loading || loads } i host port o) i = s ↔
      TakenBack s i loads := by
  rw [crdtReplicationUnsetMaster_attachPeer, tryClean_eq]
  constructor
  · intro h
    have hmasters := congrArg CrdtServer.crdtMasters h
    have hnone : s.crdtMasters i = none := by
      have hi := congrFun hmasters i
      simpa [CrdtServer.setPeer] using hi.symm
    rw [if_pos hnone] at h hmasters
    refine ⟨hnone, ?_, ?_⟩
    · by_cases hi : (i : Nat) = s.crdtGid
      · exact .inl hi
      · right
        have hset := congrFun (congrArg CrdtServer.peerSet h) i
        simpa [addPeerSet, hi, CrdtServer.setPeer] using hset.symm
    · have hload := congrArg CrdtServer.loading h
      dsimp only at hload hmasters
      rw [CrdtServer.recovering_congr hmasters] at hload
      rw [CrdtServer.setPeer, addPeerSet_loading] at hload
      cases hr : s.recovering <;> cases hs : s.loading <;> simp_all
  · rintro ⟨hnone, hset, hload⟩
    have hadd : addPeerSet { s with loading := s.loading || loads } i =
        { s with loading := s.loading || loads } := addPeerSet_eq_self hset
    have hpeer : ({ s with loading := s.loading || loads } : CrdtServer).setPeer i none =
        { s with loading := s.loading || loads } := setPeer_eq_self hnone
    have hrec : ({ s with loading := s.loading || loads } : CrdtServer).recovering = s.recovering :=
      CrdtServer.recovering_congr rfl
    rw [if_pos hnone, hadd, hpeer, hrec]
    ext : 1 <;> try rfl
    dsimp only
    cases hr : s.recovering <;> cases hs : s.loading <;> simp_all

theorem peerofNoOne_cleanResult {s : CrdtServer} {lacks : Bool} (gid : Int) :
    CleanResult s lacks (peerofNoOne s gid).result ↔ lacks = false := by
  unfold peerofNoOne
  cases hi : (slot gid).result with
  | error e =>
    rw [bind_of_error hi]
    exact cleanResult_fault
  | ok i =>
    rw [bind_of_ok hi]
    exact cleanResult_status

/-- After the options, with `loading` as they left it. -/
theorem peerofAttach_cleanResult {s : CrdtServer} {lacks : Bool} (gid : Int) (host : Bytes)
    (port : Int) (o : PeerofOptions) (l : Bool) :
    CleanResult s lacks (peerofAttach env { s with loading := s.loading || o.loading } gid host port
          (o.orLoading l)).result ↔
      match (slot gid).result, env.rewriteError with
      | .ok i, some _ =>
        if ((s.crdtMasters i).any fun p => p.upToDate host port o) then lacks = false
        else TakenBack s i o.loading
      | _, _ => lacks = false := by
  unfold peerofAttach
  cases hi : (slot gid).result with
  | error e =>
    rw [bind_of_error hi]
    exact cleanResult_fault
  | ok i =>
    rw [bind_of_ok hi]
    rcases alreadyAttached_spec { s with loading := s.loading || o.loading } i host port
      (o.orLoading l) with ⟨p, text, d, hp, hup, heq⟩ | ⟨hup, heq⟩
    · rw [heq]
      cases env.rewriteError with
      | none => exact cleanResult_status
      | some reason =>
        have hp' : s.crdtMasters i = some p := hp
        have hup' : p.upToDate host port o = true := hup
        simp only [hp', Option.any_some]
        simp only [hup', if_true]
        exact cleanResult_status
    · rw [heq]
      cases env.rewriteError with
      | none => exact cleanResult_status
      | some reason =>
        have hup' : ((s.crdtMasters i).any fun p => p.upToDate host port o) = false := hup
        simp only [hup', Bool.false_eq_true, if_false]
        exact cleanResult_error.trans (takenBack_iff env s i host port _ o.loading)

/-- A failed `PEEROF` changes nothing, and a `PEEROF` that lacks the value of its
last option fails, exactly if the arguments and the state are as `CleanWhen` says. -/
theorem peerof_fails_cleanly_iff (env : PeerofEnv) (s : CrdtServer) (argv : Argv) :
    FailsCleanly env s argv ↔ CleanWhen env s argv := by
  match argv with
  | [] | [_] | [_, _] | [_, _, _] =>
    simp [FailsCleanly, CleanResult, CleanWhen, peerofCommand, lacksValue]
  | cmd :: gidText :: host :: portText :: words =>
    simp only [FailsCleanly, CleanWhen, List.drop_succ_cons, List.drop_zero, peerofCommand]
    split
    · simpa using cleanResult_error.2 rfl
    cases hgid : string2ll gidText with
    | none => simpa using cleanResult_error.2 rfl
    | some gid =>
      dsimp only
      split
      · simpa using cleanResult_error.2 rfl
      split
      · exact peerofNoOne_cleanResult gid
      cases hport : string2ll portText with
      | none => simpa using cleanResult_error.2 rfl
      | some port =>
        have hloop := peerofOptions_server s words
        unfold AttachCleanWhen
        cases hread : optionsOf s.crdtGid words with
        | error e =>
          rw [hread] at hloop
          rw [bind_of_error hloop]
          exact cleanResult_fault
        | ok r =>
          obtain ⟨e, o⟩ := r
          rw [hread] at hloop
          dsimp only
          rw [bind_of_ok hloop]
          cases e with
          | some text =>
            exact cleanResult_error.trans (orLoading_eq_self_iff s o.loading)
          | none => exact peerofAttach_cleanResult env gid host port o s.loading

/-- A node of gid 1 without peers. -/
def loneNode : CrdtServer where
  crdtGid := gidOne
  iAmMaster := true
  vectorClock := VectorClock.null.add gidOne 0
  vectorClockCache := VectorClock.null
  gcVectorClock := VectorClock.null
  crdtMasters := fun _ => none
  peerSet := fun _ => false
  loading := false
  dirty := 0

/-- `PEEROF 2 10.0.0.2 6379 backstream 5 proxy-type socks` replies that the type is
unknown and leaves the node closed for writes. -/
theorem peerof_error_leaves_loading : ¬ ∀ env s argv, FailsCleanly env s argv := by
  intro h
  have hclean := h ⟨false, none, []⟩ loneNode
    [ascii "PEEROF", ascii "2", ascii "10.0.0.2", ascii "6379", ascii "backstream", ascii "5",
      ascii "proxy-type", ascii "socks"]
  have hsame := hclean.1 (ascii "proxy unknow type") { loneNode with loading := true } rfl
  exact absurd (congrArg CrdtServer.loading hsame) (by decide)

end XredisCrdt.Peer
