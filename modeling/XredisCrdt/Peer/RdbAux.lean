import XredisCrdt.Clock.Text
import XredisCrdt.Peer.Link
import XredisCrdt.Peer.OfflineCache

/-!
# The replication state in an RDB file

`rdbSaveInfoAuxFields` writes the replication state as a flat sequence of fields, each
a key and a text; the fields about a peer follow the field with its gid.
`rdbLoadCrdtInfoAuxFields` reads them one by one and keeps a pointer to the peer that
the last gid named.

Reading and writing keys and texts themselves, the other users of the fields
(`repl-stream-db`, `repl-id`, `repl-offset`) and the rewrite of the configuration are
left out.
-/

namespace XredisCrdt.Peer

open Clock Function List Option

/-! ## Texts of proxies -/

/-- `getPointInfo`. -/
def getPointInfo (p : Point) : Bytes :=
  (match p.type with
    | .none => []
    | .tcp => ascii "PROXYTCP://") ++ cstr p.host ++ 58 :: ll2string p.port

/-- `getProxyServersInfo`. -/
def getProxyServersInfo (servers : List Point) : Bytes :=
  [44].intercalate (servers.map getPointInfo)

/-- `xpipeProxy2str`: the number of parts after it, the servers, and the parameters if
there are any. -/
def xpipeProxy2str (p : XpipeProxy) : Bytes :=
  ll2string (if p.params.isSome then 2 else 1) ++ 124 :: getProxyServersInfo p.servers ++
    match p.params with
    | none => []
    | some params => 124 :: cstr params

/-- `str2XpipeProxy`. The number is read and not used; only a text of three parts has
parameters. A proxy without servers, by whose number the next connect divides, is taken
for an error. -/
def str2XpipeProxy (str : Bytes) : Option XpipeProxy :=
  match sdssplitlen str 124 with
  | length :: servers :: rest => do
    let _ ← string2ll length
    let servers ← parseServers servers
    if h : 0 < servers.length then
      some
        { servers := servers
          serversIndex := 0
          params := match rest with
            | [params] => some params
            | _ => none
          inRange := h }
    else none
  | _ => none

/-! ## Fields -/

/-- The keys of the fields, without those of Lua scripts. -/
inductive AuxKey
  | redisVer
  | redisBits
  | ctime
  | usedMem
  | replStreamDb
  | replId
  | replOffset
  | vclock
  | crdtReplId
  | crdtReplOffset
  | peerMasterGid
  | peerMasterHost
  | peerMasterPort
  | peerMasterDbid
  | peerMasterReplId
  | peerMasterReplOffset
  | peerProxyType
  | peerProxy
  | crdtOfflineGid
  | aofPreamble
  deriving DecidableEq, Repr

namespace AuxKey

def text : AuxKey → Bytes
  | redisVer => ascii "redis-ver"
  | redisBits => ascii "redis-bits"
  | ctime => ascii "ctime"
  | usedMem => ascii "used-mem"
  | replStreamDb => ascii "repl-stream-db"
  | replId => ascii "repl-id"
  | replOffset => ascii "repl-offset"
  | vclock => ascii "vclock"
  | crdtReplId => ascii "crdt-repl-id"
  | crdtReplOffset => ascii "crdt-repl-offset"
  | peerMasterGid => ascii "peer-master-gid"
  | peerMasterHost => ascii "peer-master-host"
  | peerMasterPort => ascii "peer-master-port"
  | peerMasterDbid => ascii "peer-master-dbid"
  | peerMasterReplId => ascii "peer-master-repl-id"
  | peerMasterReplOffset => ascii "peer-master-repl-offset"
  | peerProxyType => ascii "peer-proxy-type"
  | peerProxy => ascii "peer-proxy"
  | crdtOfflineGid => ascii "crdt-offline-gid"
  | aofPreamble => ascii "aof-preamble"

/-- The keys that the reader knows, in the order in which it compares. -/
def known : List AuxKey :=
  [replStreamDb, replId, replOffset, vclock, crdtReplId, crdtReplOffset, peerMasterGid,
    peerMasterDbid, peerMasterHost, peerMasterPort, peerMasterReplId, peerMasterReplOffset,
    peerProxyType, peerProxy, crdtOfflineGid]

/-- The key with this text; it is compared without regard to case. -/
def ofText? (t : Bytes) : Option AuxKey := known.find? fun k => strcaseeq t k.text

theorem ofText?_text (k : AuxKey) : ofText? k.text = if k ∈ known then some k else none := by
  cases k <;> decide +kernel

end AuxKey

structure AuxField where
  key : Bytes
  val : Bytes
  deriving DecidableEq, Repr

/-- `rdbSaveAuxFieldStrStr`: the text ends at a zero byte. -/
def rdbSaveAuxFieldStrStr (key : AuxKey) (val : Bytes) : AuxField := ⟨key.text, cstr val⟩

/-- `rdbSaveAuxFieldStrInt`. -/
def rdbSaveAuxFieldStrInt (key : AuxKey) (val : Int) : AuxField := ⟨key.text, ll2string val⟩

/-! ## Writing -/

/-- The replication state of a node, as far as an RDB file holds it. -/
structure RdbNode extends OfflineNode where
  replid : Bytes
  masterReplOffset : Int

/-- What else `rdbSaveInfoAuxFields` writes; `rsi` has the database that is selected
in the stream to slaves. -/
structure SaveInfo where
  version : Bytes
  redisBits : Int
  ctime : Int
  usedMem : Int
  rsi : Option Int
  replid : Bytes
  replOffset : Int
  aofPreamble : Bool

/-- The database in the fields about a peer. -/
def PeerMaster.savedDb (p : PeerMaster) : Int := (p.master.map PeerClient.db).getD p.dbid

/-- The round of `rdbSaveAuxFieldCrdt` for the peer with this gid. -/
def rdbSavePeer (gid : Fin 16) (p : PeerMaster) : List AuxField :=
  [ rdbSaveAuxFieldStrInt .peerMasterGid gid.val,
    rdbSaveAuxFieldStrStr .peerMasterHost p.masterhost,
    rdbSaveAuxFieldStrInt .peerMasterPort p.masterport,
    rdbSaveAuxFieldStrInt .peerMasterDbid p.savedDb,
    rdbSaveAuxFieldStrStr .peerMasterReplId p.savedPosition.1,
    rdbSaveAuxFieldStrInt .peerMasterReplOffset p.savedPosition.2 ] ++
  match p.proxy with
  | none => []
  | some proxy =>
    [ rdbSaveAuxFieldStrInt .peerProxyType 1,
      rdbSaveAuxFieldStrStr .peerProxy (xpipeProxy2str proxy) ]

/-- `rdbSaveAuxFieldCrdt`, for the peers with the gids in `gids`. -/
def rdbSavePeers (s : CrdtServer) (gids : List (Fin 16)) : List AuxField :=
  gids.flatMap fun gid => ((s.crdtMasters gid).map (rdbSavePeer gid)).getD []

/-- `rdbSaveCrdtInfoAuxFields`; the set of offline gids is an `int`. -/
def rdbSaveCrdtInfoAuxFields (n : RdbNode) : List AuxField :=
  [ rdbSaveAuxFieldStrStr .vclock (vectorClockToSds n.server.vectorClock.units),
    rdbSaveAuxFieldStrStr .crdtReplId n.replid,
    rdbSaveAuxFieldStrInt .crdtReplOffset n.masterReplOffset ] ++
  rdbSavePeers n.server (List.finRange 16) ++
  [ rdbSaveAuxFieldStrInt .crdtOfflineGid (toInt n.offlinePeerSet) ]

def rdbSaveInfoAuxFields (i : SaveInfo) (n : RdbNode) : List AuxField :=
  [ rdbSaveAuxFieldStrStr .redisVer i.version,
    rdbSaveAuxFieldStrInt .redisBits i.redisBits,
    rdbSaveAuxFieldStrInt .ctime i.ctime,
    rdbSaveAuxFieldStrInt .usedMem i.usedMem ] ++
  (match i.rsi with
    | none => []
    | some db =>
      [ rdbSaveAuxFieldStrInt .replStreamDb db,
        rdbSaveAuxFieldStrStr .replId i.replid,
        rdbSaveAuxFieldStrInt .replOffset i.replOffset ]) ++
  rdbSaveCrdtInfoAuxFields n ++
  [ rdbSaveAuxFieldStrInt .aofPreamble (if i.aofPreamble then 1 else 0) ]

/-! ## Reading -/

/-- The reader: `current` is the slot of `currentMasterInstance`, and `proxyType` the
`proxy_type` of that peer. -/
structure AuxReader where
  node : RdbNode
  current : Option (Fin 16)
  proxyType : Int

namespace AuxReader

def withServer (r : AuxReader) (s : CrdtServer) : AuxReader :=
  { r with node := { r.node with server := s } }

/-- Change the current peer, if there is one. -/
def onPeer (r : AuxReader) (f : PeerMaster → PeerMaster) : AuxReader :=
  match r.current with
  | none => r
  | some i => r.withServer (r.node.server.setPeer i ((r.node.server.crdtMasters i).map f))

/-- Change the client of the current peer. -/
def onMaster (r : AuxReader) (f : PeerClient → PeerClient) : AuxReader :=
  r.onPeer fun p => { p with master := p.master.map f }

/-- The field `peer-master-gid`, for a gid in its range: a new peer, or in a slave the one
it has. A master passes over the peers that its configuration gave it. -/
def enterSlot (r : AuxReader) (uninitialized : Bytes) (i : Fin 16) : AuxReader :=
  match r.node.server.crdtMasters i with
  | none =>
    { r.withServer ((addPeerSet r.node.server i).setPeer i
        (some { createPeerMaster uninitialized with
          master := some (createFakeClient uninitialized) })) with
      current := some i
      proxyType := 0 }
  | some p =>
    if r.node.server.iAmMaster then { r with current := none }
    else
      { r.withServer (r.node.server.setPeer i
          (some { p with master := some (createFakeClient uninitialized) })) with
        current := some i
        proxyType := if p.proxy.isSome then 1 else 0 }

/-- The field `peer-master-gid`. A gid that `check_gid` refuses ends the process. -/
def enterPeer (r : AuxReader) (uninitialized : Bytes) (gid : Int) : Option AuxReader :=
  (asGid gid).map fun g => r.enterSlot uninitialized ⟨g.1, g.2.2⟩

/-- The field `peer-proxy`. -/
def enterProxy (r : AuxReader) (text : Bytes) : Option AuxReader :=
  match r.current with
  | none => some r
  | some _ =>
    if r.proxyType = 1 then
      (str2XpipeProxy text).map fun proxy => r.onPeer fun p => { p with proxy := some proxy }
    else none

/-- `rdbLoadCrdtInfoAuxFields`; `none` is the end of the process. -/
def rdbLoadCrdtInfoAuxFields (dbnum : Nat) (uninitialized : Bytes) (r : AuxReader) (val : Bytes) :
    AuxKey → Option AuxReader
  | .vclock =>
    (parseClock val).result.toOption.map fun vclock =>
      r.withServer (loadVclock r.node.server vclock)
  | .crdtReplId =>
    some (if val.length = 40 then { r with node := { r.node with replid := val ++ [0] } } else r)
  | .crdtReplOffset => some { r with node := { r.node with masterReplOffset := strtoll val } }
  | .peerMasterGid => r.enterPeer uninitialized (atoi val)
  | .peerMasterDbid =>
    let db := atoi val
    some ((r.onMaster fun c => if 0 ≤ db ∧ db < dbnum then { c with db := db } else c).onPeer
      fun p => { p with dbid := db })
  | .peerMasterHost => some (r.onPeer fun p => { p with masterhost := val })
  | .peerMasterPort => some (r.onPeer fun p => { p with masterport := atoi val })
  | .peerMasterReplId =>
    some (r.onMaster fun c => if val.length = 40 then { c with replid := val ++ [0] } else c)
  | .peerMasterReplOffset => some (r.onMaster fun c => { c with reploff := strtoll val })
  | .peerProxyType => some (if r.current.isSome then { r with proxyType := atoi val } else r)
  | .peerProxy => r.enterProxy val
  | .crdtOfflineGid =>
    some { r with node := { r.node with
      toOfflineNode := setOfflinePeerSet r.node.toOfflineNode (atoi val % 2 ^ 32).toNat } }
  | _ => some r

/-- A field with a key that is not known is passed over. -/
def read (dbnum : Nat) (uninitialized : Bytes) (r : AuxReader) (f : AuxField) :
    Option AuxReader :=
  match AuxKey.ofText? f.key with
  | none => some r
  | some key => r.rdbLoadCrdtInfoAuxFields dbnum uninitialized f.val key

theorem read_text (dbnum : Nat) (uninitialized : Bytes) (r : AuxReader) (key : AuxKey)
    (val : Bytes) :
    r.read dbnum uninitialized ⟨key.text, val⟩ =
      r.rdbLoadCrdtInfoAuxFields dbnum uninitialized val key := by
  rw [read, AuxKey.ofText?_text]
  cases key <;> rfl

end AuxReader

/-- The part of `rdbLoadRio` that reads the fields. -/
def rdbLoadAux (dbnum : Nat) (uninitialized : Bytes) (n : RdbNode) (fields : List AuxField) :
    Option RdbNode :=
  (fields.foldlM (AuxReader.read dbnum uninitialized) ⟨n, none, 0⟩).map AuxReader.node

/-! ## Proxies -/

/-- A host and a port as `parseServers` yields them. -/
structure Point.Typed (p : Point) : Prop where
  colon : (58 : UInt8) ∉ p.host
  comma : (44 : UInt8) ∉ p.host
  port : -(2 ^ 31) ≤ p.port ∧ p.port < 2 ^ 31

theorem toInt_range (n : Int) : -(2 ^ 31) ≤ toInt n ∧ toInt n < 2 ^ 31 := by
  unfold toInt
  omega

/-- An `int` comes through its decimal text. -/
theorem atoi_bits {set : Nat} (h : set < 2 ^ 32) :
    (atoi (ll2string (toInt set)) % 2 ^ 32).toNat = set := by
  have hrange := toInt_range set
  rw [atoi_ll2string hrange.1 hrange.2]
  unfold toInt
  omega

namespace Point

/-- The host as it is printed. -/
def printed (p : Point) : Point := { p with host := cstr p.host }

theorem getPointInfo_printed (p : Point) : getPointInfo p.printed = getPointInfo p := by
  simp only [getPointInfo, printed, cstr_cstr]

variable {p : Point}

/-- A byte that neither a port nor the type of a point can have stands in the host. -/
theorem mem_info {b : UInt8}
    (h : b ≠ 45 ∧ ¬ Lib.Decimal.IsDigit b ∧ b ≠ 58 ∧ b ∉ ascii "PROXYTCP://") :
    b ∈ getPointInfo p ↔ b ∈ cstr p.host := by
  have hport : b ∉ ll2string p.port := not_mem_ll2string h.1 h.2.1
  cases htype : p.type <;> simp [getPointInfo, htype, hport, h.2.2]

theorem Typed.comma_info (hp : p.Typed) : (44 : UInt8) ∉ getPointInfo p := by
  rw [mem_info (by decide)]
  exact fun h => hp.comma (takeWhile_subset _ h)

theorem Typed.parse_info (hp : p.Typed) : parsePoint (getPointInfo p) = some p.printed := by
  have hmax : (llongMax : Int) = 9223372036854775807 := by decide
  obtain ⟨hlo, hhi⟩ := hp.port
  have hhost : (58 : UInt8) ∉ cstr p.host := fun h => hp.colon (takeWhile_subset _ h)
  have hport : (58 : UInt8) ∉ ll2string p.port := not_mem_ll2string (by decide) (by decide)
  have hread : string2ll (ll2string p.port) = some p.port :=
    string2ll_ll2string (by omega) (by omega)
  have hint : toInt p.port = p.port := toInt_of_int hlo hhi
  cases htype : p.type with
  | none =>
    have hsplit : sdssplitlen (getPointInfo p) 58 = [cstr p.host, ll2string p.port] := by
      rw [getPointInfo, htype, nil_append, sdssplitlen_cons hhost, splitOn_eq_singleton hport]
    simp only [parsePoint, hsplit, hread, bind_eq_bind, bind_some, hint, printed, htype]
  | tcp =>
    have hslashes : (58 : UInt8) ∉ 47 :: 47 :: cstr p.host := by simpa using hhost
    have hsplit : sdssplitlen (getPointInfo p) 58 =
        [ascii "PROXYTCP", 47 :: 47 :: cstr p.host, ll2string p.port] := by
      have hinfo : getPointInfo p =
          ascii "PROXYTCP" ++ 58 :: (47 :: 47 :: cstr p.host ++ 58 :: ll2string p.port) := by
        rw [getPointInfo, htype]
        rfl
      rw [hinfo, sdssplitlen_cons (by decide), splitOn_append_cons_self_of_not_mem hslashes,
        splitOn_eq_singleton hport]
    have hproto : cstr (ascii "PROXYTCP") = ascii "PROXYTCP" := by decide
    simp only [parsePoint, hsplit, hproto, if_true, hread, bind_eq_bind, bind_some,
      hint, printed, htype]
    rfl

/-- What stands before a bar in the text of a point is not the text of a point. -/
theorem Typed.parse_cut (hp : p.Typed) {a b : Bytes} (h : getPointInfo p = a ++ 124 :: b)
    (ha : (124 : UInt8) ∉ a) : parsePoint a = none := by
  have hport : (124 : UInt8) ∉ 58 :: ll2string p.port := by
    simpa using not_mem_ll2string (b := 124) (by decide) (by decide)
  have hhost : (58 : UInt8) ∉ cstr p.host := fun h => hp.colon (takeWhile_subset _ h)
  -- the bar stands in the host
  have hcut : ∀ q host : Bytes, (124 : UInt8) ∉ q → (58 : UInt8) ∉ host →
      q ++ host ++ 58 :: ll2string p.port = a ++ 124 :: b →
      ∃ c, a = q ++ c ∧ (58 : UInt8) ∉ c := by
    intro q host hq hcolon heq
    rw [append_assoc] at heq
    rcases append_eq_append_iff.1 heq with ⟨c, hac, hc⟩ | ⟨c, hqc, hc⟩
    · refine ⟨c, hac, fun hmem => ?_⟩
      rcases append_eq_append_iff.1 hc with ⟨d, hd, hd'⟩ | ⟨d, hd, -⟩
      · exact hport (by rw [hd']; simp)
      · exact hcolon (by rw [hd]; simp [hmem])
    · rcases append_eq_cons_iff.1 hc.symm with ⟨hnil, -⟩ | ⟨d, hd, -⟩
      · refine ⟨[], ?_, by simp⟩
        rw [hqc, hnil]
        simp
      · exact absurd (by rw [hqc, hd]; simp) hq
  cases htype : p.type with
  | none =>
    rw [getPointInfo, htype] at h
    obtain ⟨c, hac, hc⟩ := hcut [] (cstr p.host) (by simp) hhost h
    obtain rfl : a = c := hac
    by_cases hnil : a = []
    · rw [hnil]
      rfl
    · rw [parsePoint, sdssplitlen_eq_splitOn _ hnil, splitOn_eq_singleton hc]
  | tcp =>
    rw [getPointInfo, htype] at h
    obtain ⟨c, rfl, hc⟩ := hcut (ascii "PROXYTCP://") (cstr p.host) (by decide) hhost h
    have hsplit :
        sdssplitlen (ascii "PROXYTCP://" ++ c) 58 = [ascii "PROXYTCP", 47 :: 47 :: c] := by
      show sdssplitlen (ascii "PROXYTCP" ++ 58 :: (47 :: 47 :: c)) 58 = _
      rw [sdssplitlen_cons (by decide), splitOn_eq_singleton (by simpa using hc)]
    -- the two slashes stand where the port should
    have hslash : string2ll (47 :: 47 :: c) = none := rfl
    simp only [parsePoint, hsplit, hslash, bind_eq_bind, bind_none]

end Point

section texts

variable {ps : List Point}

theorem parseServers_info (hps : ∀ p ∈ ps, p.Typed) (hne : ps ≠ []) :
    parseServers (getProxyServersInfo ps) = some (ps.map Point.printed) := by
  have hsplit : sdssplitlen (getProxyServersInfo ps) 44 = ps.map getPointInfo := by
    refine sdssplitlen_intercalate ?_ ?_
    · intro t ht
      obtain ⟨p, hp, rfl⟩ := mem_map.1 ht
      exact (hps p hp).comma_info
    · obtain ⟨p, ps, rfl⟩ := exists_cons_of_ne_nil hne
      rw [map_cons, intercalate_cons]
      simp [getPointInfo]
  rw [parseServers, hsplit]
  clear hsplit hne
  induction ps with
  | nil => rfl
  | cons p ps ih =>
    rw [map_cons, mapM_cons, (hps p (by simp)).parse_info,
      ih fun q hq => hps q (by simp [hq])]
    rfl

/-- What stands before the first bar in the text of some servers is empty or not the text
of servers. -/
theorem parseServers_cut (hps : ∀ p ∈ ps, p.Typed) {a b : Bytes}
    (h : getProxyServersInfo ps = a ++ 124 :: b) (ha : (124 : UInt8) ∉ a) :
    a = [] ∨ parseServers a = none := by
  induction ps generalizing a with
  | nil => simp [getProxyServersInfo] at h
  | cons p ps ih =>
    have hp := hps p (by simp)
    rw [getProxyServersInfo, map_cons, intercalate_cons] at h
    rcases append_eq_append_iff.1 h with ⟨c, hac, hc⟩ | ⟨c, hpc, hc⟩
    · -- the bar stands in a later point
      cases ps with
      | nil => simp at hc
      | cons q ps =>
        rw [map_cons, flatMap_cons, cons_append] at hc
        cases c with
        | nil => simp at hc
        | cons comma c =>
          obtain ⟨rfl, htail⟩ := List.cons.inj hc
          have hc' : getProxyServersInfo (q :: ps) = c ++ 124 :: b := by
            rw [getProxyServersInfo, map_cons, intercalate_cons]
            exact htail
          have hbar : (124 : UInt8) ∉ c := fun hmem => ha (by rw [hac]; simp [hmem])
          right
          rw [parseServers, hac, sdssplitlen_cons hp.comma_info, mapM_cons, hp.parse_info]
          by_cases hnil : c = []
          · rw [hnil]
            rfl
          · have hrest := (ih (fun x hx => hps x (by simp [hx])) hc' hbar).resolve_left hnil
            rw [parseServers, sdssplitlen_eq_splitOn _ hnil] at hrest
            rw [hrest]
            rfl
    · -- the bar stands in this one
      cases c with
      | nil =>
        -- between the point and the next comes a comma
        cases ps with
        | nil => simp at hc
        | cons q ps => simp at hc
      | cons bar c =>
        obtain ⟨rfl, -⟩ := List.cons.inj hc
        have hcut := hp.parse_cut hpc ha
        by_cases hnil : a = []
        · exact .inl hnil
        · have hcomma : (44 : UInt8) ∉ a := fun hmem => hp.comma_info (by rw [hpc]; simp [hmem])
          right
          rw [parseServers, sdssplitlen_eq_splitOn _ hnil, splitOn_eq_singleton hcomma,
            mapM_cons, hcut]
          rfl

/-- No bar in a host or in the parameters. -/
def XpipeProxy.BarFree (x : XpipeProxy) : Prop :=
  (∀ p ∈ x.servers, (124 : UInt8) ∉ cstr p.host) ∧
    ∀ params, x.params = some params → (124 : UInt8) ∉ cstr params

theorem mem_serversInfo {b : UInt8} (h : b ≠ 45 ∧ ¬ Lib.Decimal.IsDigit b ∧ b ≠ 58 ∧
    b ∉ ascii "PROXYTCP://") (hcomma : b ≠ 44) :
    b ∈ getProxyServersInfo ps ↔ ∃ p ∈ ps, b ∈ cstr p.host := by
  cases ps with
  | nil => simp [getProxyServersInfo]
  | cons p ps =>
    rw [getProxyServersInfo, map_cons, intercalate_cons]
    simp [Point.mem_info h, hcomma]

variable {x : XpipeProxy}

theorem zero_not_mem_proxy2str (x : XpipeProxy) : (0 : UInt8) ∉ xpipeProxy2str x := by
  have hnumber : ∀ n : Int, (0 : UInt8) ∉ ll2string n := fun n =>
    not_mem_ll2string (by decide) (by decide)
  have hservers : (0 : UInt8) ∉ getProxyServersInfo x.servers := by
    rw [mem_serversInfo (by decide) (by decide)]
    exact fun ⟨p, _, hmem⟩ => no_zero_cstr p.host hmem
  cases hparams : x.params <;> simp [xpipeProxy2str, hparams, hnumber, hservers, no_zero_cstr]

/-- A proxy is read back with its text exactly if no bar stands in a host or in the
parameters. -/
theorem str2XpipeProxy_text_iff (hx : ∀ p ∈ x.servers, p.Typed) :
    (∃ y, str2XpipeProxy (xpipeProxy2str x) = some y ∧ xpipeProxy2str y = xpipeProxy2str x) ↔
      x.BarFree := by
  have hnumber : ∀ n : Int, (124 : UInt8) ∉ ll2string n := fun n =>
    not_mem_ll2string (by decide) (by decide)
  have hpos : 0 < x.servers.length := Nat.lt_of_le_of_lt (Nat.zero_le _) x.inRange
  have hread :
      ∀ b : Bool, string2ll (ll2string (if b then 2 else 1)) = some (if b then 2 else 1) := by
    decide
  -- the parts of the text after the number
  have hsplit : sdssplitlen (xpipeProxy2str x) 124 = ll2string (if x.params.isSome then 2 else 1) ::
        (getProxyServersInfo x.servers ++ match x.params with
          | none => []
          | some params => 124 :: cstr params).splitOn 124 := by
    rw [xpipeProxy2str, append_assoc, cons_append, sdssplitlen_cons (hnumber _)]
  by_cases hbar : (124 : UInt8) ∈ getProxyServersInfo x.servers
  · -- the second part ends inside of the servers
    obtain ⟨a, b, hab, ha⟩ := eq_append_cons_of_mem hbar
    refine iff_of_false ?_ ?_
    · rintro ⟨y, hy, -⟩
      rw [str2XpipeProxy, hsplit, hab, append_assoc, cons_append,
        splitOn_append_cons_self_of_not_mem ha] at hy
      simp only [hread, bind_eq_bind, bind_some] at hy
      obtain ⟨servers, hservers, hy⟩ := bind_eq_some_iff.1 hy
      rcases parseServers_cut hx hab ha with rfl | hnone
      · obtain rfl : [] = servers := some.inj hservers
        simp at hy
      · rw [hnone] at hservers
        cases hservers
    · rintro ⟨hhosts, -⟩
      obtain ⟨p, hp, hmem⟩ := (mem_serversInfo (by decide) (by decide)).1 hbar
      exact hhosts p hp hmem
  · have hhosts : ∀ p ∈ x.servers, (124 : UInt8) ∉ cstr p.host := fun p hp hmem =>
      hbar ((mem_serversInfo (by decide) (by decide)).2 ⟨p, hp, hmem⟩)
    have hservers := parseServers_info hx (ne_nil_of_length_pos hpos)
    have hprinted : getProxyServersInfo (x.servers.map Point.printed) =
        getProxyServersInfo x.servers := by
      simp only [getProxyServersInfo, List.map_map, comp_def, Point.getPointInfo_printed]
    have hlength : 0 < (x.servers.map Point.printed).length := by simpa using hpos
    cases hparams : x.params with
    | none =>
      simp only [hparams, append_nil, splitOn_eq_singleton hbar] at hsplit
      refine iff_of_true ⟨⟨x.servers.map Point.printed, 0, none, hlength⟩, ?_, ?_⟩
        ⟨hhosts, by simp [hparams]⟩
      · simp only [str2XpipeProxy, hsplit, hread, hservers, bind_eq_bind, bind_some,
          dif_pos hlength]
      · simp only [xpipeProxy2str, hprinted, hparams]
    | some params =>
      simp only [hparams, splitOn_append_cons_self_of_not_mem hbar] at hsplit
      by_cases hfree : (124 : UInt8) ∈ cstr params
      · -- more than three parts: the parameters are lost, and with them the number 2
        obtain ⟨a, b, hab, ha⟩ := eq_append_cons_of_mem hfree
        rw [hab, splitOn_append_cons_self_of_not_mem ha] at hsplit
        refine iff_of_false ?_ fun h => h.2 params hparams hfree
        rintro ⟨y, hy, htext⟩
        obtain ⟨c, cs, hcs⟩ := exists_cons_of_ne_nil (splitOn_ne_nil 124 b)
        simp only [str2XpipeProxy, hsplit, hcs, hread, hservers, bind_eq_bind,
          bind_some, dif_pos hlength, some.injEq] at hy
        obtain rfl := hy
        have hone : ll2string 1 = [49] := by decide
        have htwo : ll2string 2 = [50] := by decide
        rw [xpipeProxy2str, xpipeProxy2str, hparams] at htext
        simp [hone, htwo] at htext
      · rw [splitOn_eq_singleton hfree] at hsplit
        refine iff_of_true ⟨⟨x.servers.map Point.printed, 0, some (cstr params), hlength⟩, ?_, ?_⟩
          ⟨hhosts, fun p hp => by rw [hparams] at hp; cases hp; exact hfree⟩
        · simp only [str2XpipeProxy, hsplit, hread, hservers, bind_eq_bind,
            bind_some, dif_pos hlength]
        · simp only [xpipeProxy2str, hprinted, hparams, cstr_cstr, isSome_some]

end texts

/-! ## One peer -/

/-- What the loaded proxy is, if loading it does not end the process. -/
def reloadedProxy : Option XpipeProxy → Option (Option XpipeProxy)
  | none => some none
  | some proxy => (str2XpipeProxy (cstr (xpipeProxy2str proxy))).map some

/-- A peer after its fields were read into an empty slot. -/
def PeerMaster.reloaded (p : PeerMaster) (dbnum : Nat) (uninitialized : Bytes)
    (proxy : Option XpipeProxy) : PeerMaster :=
  { createPeerMaster uninitialized with
    masterhost := cstr p.masterhost
    masterport := p.masterport
    dbid := p.savedDb
    proxy := proxy
    master := some
      { createFakeClient uninitialized with
        db := if 0 ≤ p.savedDb ∧ p.savedDb < dbnum then p.savedDb else 0
        replid :=
          if p.savedPosition.1.length = 40 then p.savedPosition.1 ++ [0] else uninitialized
        reploff := p.savedPosition.2 } }

/-- Values of `int` and `long long` in a peer, and a proxy as it was parsed. -/
structure PeerMaster.Typed (p : PeerMaster) : Prop where
  port : -(2 ^ 31) ≤ p.masterport ∧ p.masterport < 2 ^ 31
  db : -(2 ^ 31) ≤ p.savedDb ∧ p.savedDb < 2 ^ 31
  offset : -(2 ^ 63) ≤ p.savedPosition.2 ∧ p.savedPosition.2 < 2 ^ 63
  proxy : ∀ proxy, p.proxy = some proxy → ∀ point ∈ proxy.servers, point.Typed

namespace AuxReader

/-- The reader with `p` as its current peer, in a slot that was empty before. -/
def entered (r : AuxReader) (i : Fin 16) (p : PeerMaster) (proxyType : Int) : AuxReader :=
  { r.withServer ((addPeerSet r.node.server i).setPeer i (some p)) with
    current := some i
    proxyType := proxyType }

variable {r : AuxReader} {i : Fin 16} {p : PeerMaster} {t : Int}

theorem entered_onPeer (f : PeerMaster → PeerMaster) :
    (r.entered i p t).onPeer f = r.entered i (f p) t := by
  simp [entered, onPeer, withServer, CrdtServer.setPeer]

theorem entered_onMaster (f : PeerClient → PeerClient) :
    (r.entered i p t).onMaster f = r.entered i { p with master := p.master.map f } t :=
  entered_onPeer _

theorem asGid_val (hi : i.val ≠ 0) : asGid i.val = some ⟨i.val, by omega, i.2⟩ := by
  have hint : toInt i.val = i.val := toInt_of_small (by omega) (by omega)
  have hcheck : ∀ x : Int, x = i.val →
      (if h : 0 < x ∧ x < 16 then some (⟨x.toNat, by omega⟩ : Gid) else none) =
        some ⟨i.val, by omega, i.2⟩ := by
    rintro x rfl
    rw [dif_pos (by omega)]
    rfl
  exact hcheck _ hint

theorem enterPeer_empty {uninitialized : Bytes} (hi : i.val ≠ 0)
    (hempty : r.node.server.crdtMasters i = none) :
    r.enterPeer uninitialized i.val = some (r.entered i { createPeerMaster uninitialized with
        master := some (createFakeClient uninitialized) } 0) := by
  rw [enterPeer, asGid_val hi, map_some]
  show some (r.enterSlot uninitialized i) = _
  rw [enterSlot, hempty]
  rfl

/-- The two fields about a proxy. -/
theorem read_proxy {dbnum : Nat} {uninitialized : Bytes} (text : Bytes) :
    [ rdbSaveAuxFieldStrInt .peerProxyType 1,
      rdbSaveAuxFieldStrStr .peerProxy text ].foldlM (read dbnum uninitialized) (r.entered i p 0) =
    (str2XpipeProxy (cstr text)).map fun proxy => r.entered i { p with proxy := some proxy } 1 := by
  have htype : atoi (ll2string 1) = 1 := atoi_ll2string (by omega) (by omega)
  have hfirst :
      read dbnum uninitialized (r.entered i p 0) (rdbSaveAuxFieldStrInt .peerProxyType 1) =
      some (r.entered i p 1) := by
    rw [rdbSaveAuxFieldStrInt, read_text, rdbLoadCrdtInfoAuxFields, htype]
    rfl
  have hsecond :
      read dbnum uninitialized (r.entered i p 1) (rdbSaveAuxFieldStrStr .peerProxy text) =
      (r.entered i p 1).enterProxy (cstr text) := by
    rw [rdbSaveAuxFieldStrStr, read_text, rdbLoadCrdtInfoAuxFields]
  have henter : (r.entered i p 1).enterProxy (cstr text) =
      (str2XpipeProxy (cstr text)).map fun proxy =>
        (r.entered i p 1).onPeer fun p => { p with proxy := some proxy } := rfl
  rw [foldlM_cons, hfirst, bind_eq_bind, bind_some, foldlM_cons, hsecond, henter]
  simp only [entered_onPeer, foldlM_nil, Option.pure_def, bind_eq_bind, bind_fun_some]

/-- The fields about a peer, read into an empty slot, fill that slot. The file ends the
process only with its proxy. -/
theorem rdbSavePeer_load {dbnum : Nat} {uninitialized : Bytes} (hp : p.Typed) (hi : i.val ≠ 0)
    (hempty : r.node.server.crdtMasters i = none) :
    (rdbSavePeer i p).foldlM (read dbnum uninitialized) r = (reloadedProxy p.proxy).map fun proxy =>
        r.entered i (p.reloaded dbnum uninitialized proxy) (if p.proxy.isSome then 1 else 0) := by
  have hmax : (llongMax : Int) = 9223372036854775807 := by decide
  have hgid : atoi (ll2string i.val) = i.val := atoi_ll2string (by omega) (by omega)
  have hport : atoi (ll2string p.masterport) = p.masterport := atoi_ll2string hp.port.1 hp.port.2
  have hdb : atoi (ll2string p.savedDb) = p.savedDb := atoi_ll2string hp.db.1 hp.db.2
  have hoffset : strtoll (ll2string p.savedPosition.2) = p.savedPosition.2 := by
    have := hp.offset
    exact strtoll_ll2string (by omega) (by omega)
  have hreplid : cstr p.savedPosition.1 = p.savedPosition.1 := by
    unfold PeerMaster.savedPosition
    split <;> exact cstr_cstr _
  -- the six fields that every peer has
  have hsix : ∀ rest : List AuxField, (rdbSaveAuxFieldStrInt .peerMasterGid i.val ::
        rdbSaveAuxFieldStrStr .peerMasterHost p.masterhost ::
        rdbSaveAuxFieldStrInt .peerMasterPort p.masterport ::
        rdbSaveAuxFieldStrInt .peerMasterDbid p.savedDb ::
        rdbSaveAuxFieldStrStr .peerMasterReplId p.savedPosition.1 ::
        rdbSaveAuxFieldStrInt .peerMasterReplOffset p.savedPosition.2 :: rest).foldlM
          (read dbnum uninitialized) r =
      rest.foldlM (read dbnum uninitialized)
        (r.entered i (p.reloaded dbnum uninitialized none) 0) := by
    intro rest
    simp only [rdbSaveAuxFieldStrInt, rdbSaveAuxFieldStrStr, foldlM_cons, read_text,
      rdbLoadCrdtInfoAuxFields, hgid, enterPeer_empty hi hempty, bind_eq_bind,
      bind_some, entered_onPeer, entered_onMaster, hport, hdb, hoffset, hreplid,
      map_some]
    congr 3
    split <;> split <;> rfl
  unfold rdbSavePeer
  cases hproxy : p.proxy with
  | none =>
    rw [append_nil, hsix]
    rfl
  | some proxy =>
    simp only [cons_append, nil_append]
    rw [hsix, read_proxy, reloadedProxy, Option.map_map]
    rfl

end AuxReader

/-! ## All peers -/

namespace AuxReader

variable {r r' : AuxReader} {dbnum : Nat} {uninitialized : Bytes}

/-- A peer with gid 0 ends the process. -/
theorem rdbSavePeer_zero {i : Fin 16} {p : PeerMaster} (hi : i.val = 0) :
    (rdbSavePeer i p).foldlM (read dbnum uninitialized) r = none := by
  have hgid : read dbnum uninitialized r (rdbSaveAuxFieldStrInt .peerMasterGid i.val) = none := by
    rw [rdbSaveAuxFieldStrInt, read_text, rdbLoadCrdtInfoAuxFields, hi]
    rfl
  rw [rdbSavePeer, cons_append, foldlM_cons, hgid]
  rfl

/-- What the fields about peers leave alone. -/
structure SameServer (r r' : AuxReader) : Prop where
  clock : r'.node.server.vectorClock = r.node.server.vectorClock
  offset : r'.node.masterReplOffset = r.node.masterReplOffset

theorem SameServer.refl (r : AuxReader) : SameServer r r := ⟨rfl, rfl⟩

theorem SameServer.trans {r'' : AuxReader} (h : SameServer r r') (h' : SameServer r' r'') :
    SameServer r r'' := ⟨h'.clock.trans h.clock, h'.offset.trans h.offset⟩

theorem sameServer_entered (r : AuxReader) (i : Fin 16) (p : PeerMaster) (t : Int) :
    SameServer r (r.entered i p t) := by
  refine ⟨?_, rfl⟩
  show (addPeerSet r.node.server i).vectorClock = _
  unfold addPeerSet
  split <;> rfl

theorem entered_crdtMasters (r : AuxReader) (i : Fin 16) (p : PeerMaster) (t : Int) :
    (r.entered i p t).node.server.crdtMasters = update r.node.server.crdtMasters i (some p) := by
  show update (addPeerSet r.node.server i).crdtMasters i (some p) = _
  unfold addPeerSet
  split <;> rfl

/-- The slot `i` of the reader after the peers of `s` were read. -/
def slotAfter (s : CrdtServer) (dbnum : Nat) (uninitialized : Bytes) (r' : AuxReader) (i : Fin 16) :
    Prop :=
  ∀ p, s.crdtMasters i = some p → i.val ≠ 0 ∧ ∃ proxy, reloadedProxy p.proxy = some proxy ∧
    r'.node.server.crdtMasters i = some (p.reloaded dbnum uninitialized proxy)

variable {s : CrdtServer} (htyped : ∀ i p, s.crdtMasters i = some p → p.Typed)

include htyped

/-- What reading the peers does, if it does not end the process: every peer is in its slot,
and the other slots are as they were. -/
theorem rdbSavePeers_load {gids : List (Fin 16)} (hnodup : gids.Nodup)
    (hempty : ∀ i ∈ gids, r.node.server.crdtMasters i = none)
    (h : (rdbSavePeers s gids).foldlM (read dbnum uninitialized) r = some r') :
    (∀ i ∈ gids, slotAfter s dbnum uninitialized r' i) ∧ (∀ i, i ∉ gids ∨ s.crdtMasters i = none →
        r'.node.server.crdtMasters i = r.node.server.crdtMasters i) ∧
      SameServer r r' := by
  induction gids generalizing r with
  | nil =>
    obtain rfl : r = r' := some.inj h
    exact ⟨by simp, fun _ _ => rfl, .refl r⟩
  | cons gid gids ih =>
    obtain ⟨hgid, hnodup⟩ := nodup_cons.1 hnodup
    rw [rdbSavePeers, flatMap_cons, foldlM_append] at h
    cases hp : s.crdtMasters gid with
    | none =>
      -- the slot is empty in the file
      rw [hp] at h
      obtain ⟨hslots, hothers, hsame⟩ := ih hnodup (fun i hi => hempty i (by simp [hi])) h
      refine ⟨?_, ?_, hsame⟩
      · intro i hi
        rcases mem_cons.1 hi with rfl | hi
        · intro p hsome
          rw [hp] at hsome
          cases hsome
        · exact hslots i hi
      · intro i hi
        by_cases heq : i = gid
        · exact hothers i (.inr (heq ▸ hp))
        · exact hothers i (hi.imp_left fun hi hmem => hi (by simp [hmem]))
    | some p =>
      rw [hp, map_some, getD_some] at h
      have hi : gid.val ≠ 0 := by
        intro hzero
        rw [rdbSavePeer_zero hzero] at h
        cases h
      rw [rdbSavePeer_load (htyped gid p hp) hi (hempty gid (by simp))] at h
      obtain ⟨r₁, hr₁, hrest⟩ := bind_eq_some_iff.1 h
      obtain ⟨proxy, hproxy, rfl⟩ := map_eq_some_iff.1 hr₁
      have hempty₁ : ∀ i ∈ gids, (r.entered gid (p.reloaded dbnum uninitialized proxy)
          (if p.proxy.isSome then 1 else 0)).node.server.crdtMasters i = none := by
        intro i hi
        have hne : i ≠ gid := fun h => hgid (h ▸ hi)
        rw [entered_crdtMasters, update_of_ne hne]
        exact hempty i (by simp [hi])
      obtain ⟨hslots, hothers, hsame⟩ := ih hnodup hempty₁ hrest
      refine ⟨?_, ?_, (sameServer_entered r gid _ _).trans hsame⟩
      · intro i hmem
        rcases mem_cons.1 hmem with rfl | hmem
        · intro q hq
          obtain rfl : p = q := some.inj (hp.symm.trans hq)
          refine ⟨hi, proxy, hproxy, ?_⟩
          rw [hothers i (.inl hgid), entered_crdtMasters, update_self]
        · exact hslots i hmem
      · intro i hi
        have hne : i ≠ gid := by
          rintro rfl
          rcases hi with hi | hi
          · exact hi (by simp)
          · rw [hp] at hi
            cases hi
        rw [hothers i (hi.imp_left fun hi hmem => hi (by simp [hmem])), entered_crdtMasters,
          update_of_ne hne]

/-- Reading the peers comes to its end if no gid is 0 and every proxy can be read. -/
theorem rdbSavePeers_some {gids : List (Fin 16)} (hnodup : gids.Nodup)
    (hempty : ∀ i ∈ gids, r.node.server.crdtMasters i = none)
    (hgood : ∀ i p, s.crdtMasters i = some p → i.val ≠ 0 ∧ (reloadedProxy p.proxy).isSome) :
    ∃ r', (rdbSavePeers s gids).foldlM (read dbnum uninitialized) r = some r' := by
  induction gids generalizing r with
  | nil => exact ⟨r, rfl⟩
  | cons gid gids ih =>
    obtain ⟨hgid, hnodup⟩ := nodup_cons.1 hnodup
    rw [rdbSavePeers, flatMap_cons, foldlM_append]
    cases hp : s.crdtMasters gid with
    | none => exact ih hnodup fun i hi => hempty i (by simp [hi])
    | some p =>
      obtain ⟨hi, hproxy⟩ := hgood gid p hp
      obtain ⟨proxy, hproxy⟩ := isSome_iff_exists.1 hproxy
      rw [map_some, getD_some, rdbSavePeer_load (htyped gid p hp) hi (hempty gid (by simp)), hproxy]
      refine ih hnodup fun i hi => ?_
      have hne : i ≠ gid := fun h => hgid (h ▸ hi)
      rw [entered_crdtMasters, update_of_ne hne]
      exact hempty i (by simp [hi])

end AuxReader

/-! ## The whole file -/

theorem parseClock_vectorClockToSds (v : VectorClock) :
    (parseClock (cstr (vectorClockToSds v.units))).result = .ok v := by
  have hzero : (0 : UInt8) ∉ vectorClockToSds v.units := by
    have hunit : ∀ u, (0 : UInt8) ∉ unitText u := fun u => by
      simp [unitText, not_mem_ll2string (b := 0) (by decide) (by decide)]
    cases hus : v.units with
    | nil => simp [vectorClockToSds]
    | cons u us =>
      rw [vectorClockToSds, map_cons, intercalate_cons]
      simp [hunit]
  have hclock : IsClock v.units := ⟨v.distinct, v.bits⟩
  simp only [parseClock, cstr_of_no_zero hzero, sdsToVectorClock_vectorClockToSds, dif_pos hclock]
  rfl

@[simp] theorem setOfflinePeerSet_offlinePeerSet (n : OfflineNode) (gids : Nat) :
    (setOfflinePeerSet n gids).offlinePeerSet = gids := by
  unfold setOfflinePeerSet
  split
  · assumption
  · rfl

@[simp] theorem setOfflinePeerSet_crdtMasters (n : OfflineNode) (gids : Nat) :
    (setOfflinePeerSet n gids).server.crdtMasters = n.server.crdtMasters := by
  unfold setOfflinePeerSet
  split <;> rfl

@[simp] theorem setOfflinePeerSet_vectorClock (n : OfflineNode) (gids : Nat) :
    (setOfflinePeerSet n gids).server.vectorClock = n.server.vectorClock := by
  unfold setOfflinePeerSet
  split <;> rfl

/-- Values of `int` and `long long`, and peers with such. Hosts, ids and the texts of proxies
are below 2 GB: the error of a longer field is not looked at (`rdbSaveInfoAuxFields`). -/
structure RdbNode.Typed (n : RdbNode) : Prop where
  offset : -(2 ^ 63) ≤ n.masterReplOffset ∧ n.masterReplOffset < 2 ^ 63
  offline : n.offlinePeerSet < 2 ^ 32
  peers : ∀ i p, n.server.crdtMasters i = some p → p.Typed

/-- A slave that has no peers yet. -/
structure RdbNode.FreshSlave (n : RdbNode) : Prop where
  slave : n.server.iAmMaster = false
  noPeers : ∀ i, n.server.crdtMasters i = none

section file

variable {n m : RdbNode} {dbnum : Nat} {uninitialized : Bytes}

/-- The reader when it comes to the fields about peers. -/
def AuxReader.beforePeers (n m : RdbNode) : AuxReader where
  node :=
    { m with
      server := loadVclock m.server n.server.vectorClock
      replid := if (cstr n.replid).length = 40 then cstr n.replid ++ [0] else m.replid
      masterReplOffset := n.masterReplOffset }
  current := none
  proxyType := 0

open AuxReader

/-- All that is not about peers in a file. -/
theorem rdbLoadAux_save (hn : n.Typed) (i : SaveInfo) :
    rdbLoadAux dbnum uninitialized m (rdbSaveInfoAuxFields i n) =
      ((rdbSavePeers n.server (List.finRange 16)).foldlM (read dbnum uninitialized)
        (beforePeers n m)).map fun r =>
          { r.node with
            toOfflineNode := setOfflinePeerSet r.node.toOfflineNode n.offlinePeerSet } := by
  have hmax : (llongMax : Int) = 9223372036854775807 := by decide
  have hoffset : strtoll (ll2string n.masterReplOffset) = n.masterReplOffset := by
    have := hn.offset
    exact strtoll_ll2string (by omega) (by omega)
  have hoffline := atoi_bits hn.offline
  -- the fields before those of the replication state concern other parts of the server
  have hbefore : ∀ (r : AuxReader) (rest : List AuxField),
      ([ rdbSaveAuxFieldStrStr .redisVer i.version, rdbSaveAuxFieldStrInt .redisBits i.redisBits,
        rdbSaveAuxFieldStrInt .ctime i.ctime,
        rdbSaveAuxFieldStrInt .usedMem i.usedMem ] ++
      (match i.rsi with
        | none => []
        | some db =>
          [ rdbSaveAuxFieldStrInt .replStreamDb db, rdbSaveAuxFieldStrStr .replId i.replid,
            rdbSaveAuxFieldStrInt .replOffset i.replOffset ]) ++ rest).foldlM
        (read dbnum uninitialized) r =
      rest.foldlM (read dbnum uninitialized) r := by
    intro r rest
    cases i.rsi <;> simp only [cons_append, nil_append, foldlM_cons, rdbSaveAuxFieldStrStr,
        rdbSaveAuxFieldStrInt, read_text, rdbLoadCrdtInfoAuxFields,
        bind_eq_bind, bind_some]
  have hstart : ∀ rest : List AuxField,
      (rdbSaveAuxFieldStrStr .vclock (vectorClockToSds n.server.vectorClock.units) ::
        rdbSaveAuxFieldStrStr .crdtReplId n.replid ::
        rdbSaveAuxFieldStrInt .crdtReplOffset n.masterReplOffset :: rest).foldlM
        (read dbnum uninitialized) ⟨m, none, 0⟩ =
      rest.foldlM (read dbnum uninitialized) (beforePeers n m) := by
    intro rest
    simp only [foldlM_cons, rdbSaveAuxFieldStrStr, rdbSaveAuxFieldStrInt,
      read_text, rdbLoadCrdtInfoAuxFields, parseClock_vectorClockToSds,
      Except.toOption, map_some, bind_eq_bind, bind_some, hoffset]
    refine congrArg (fun r => rest.foldlM (read dbnum uninitialized) r) ?_
    unfold beforePeers withServer
    split <;> rfl
  have hend : ∀ r : AuxReader, [ rdbSaveAuxFieldStrInt .crdtOfflineGid (toInt n.offlinePeerSet),
        rdbSaveAuxFieldStrInt .aofPreamble (if i.aofPreamble then 1 else 0) ].foldlM
        (read dbnum uninitialized) r =
      some { r with node := { r.node with
        toOfflineNode := setOfflinePeerSet r.node.toOfflineNode n.offlinePeerSet } } := by
    intro r
    rw [foldlM_cons, rdbSaveAuxFieldStrInt, read_text,
      rdbLoadCrdtInfoAuxFields, hoffline, bind_eq_bind, bind_some,
      foldlM_cons, rdbSaveAuxFieldStrInt, read_text]
    rfl
  rw [rdbLoadAux, rdbSaveInfoAuxFields, append_assoc (_ ++ _), hbefore, rdbSaveCrdtInfoAuxFields]
  simp only [append_assoc, cons_append, nil_append]
  rw [hstart, foldlM_append]
  cases (rdbSavePeers n.server (List.finRange 16)).foldlM (read dbnum uninitialized)
      (beforePeers n m) with
  | none => rfl
  | some r =>
    rw [bind_eq_bind, bind_some, hend]
    rfl

/-- What a file is to restore of a peer; the database is the one that its client has
selected. -/
structure PeerReplication where
  host : Bytes
  port : Int
  db : Int
  replid : Bytes
  offset : Int
  proxy : Option Bytes
  deriving DecidableEq

namespace PeerMaster

def selectedDb (p : PeerMaster) : Int :=
  ((p.master.or p.cachedMaster).map PeerClient.db).getD p.dbid

def replication (p : PeerMaster) : PeerReplication where
  host := cstr p.masterhost
  port := p.masterport
  db := p.selectedDb
  replid := p.savedPosition.1
  offset := p.savedPosition.2
  proxy := p.proxy.map xpipeProxy2str

/-- The peer has a replication id, the database it has selected is the one it writes (or 0
for one that a slave with `dbnum` databases does not have), and its proxy has no bar too
many. -/
structure Keeps (p : PeerMaster) (dbnum : Nat) : Prop where
  replid : p.savedPosition.1.length = 40
  db : p.selectedDb = if 0 ≤ p.savedDb ∧ p.savedDb < dbnum then p.savedDb else 0
  proxy : ∀ x, p.proxy = some x → x.BarFree

end PeerMaster

/-- The state of `n` stands in `m`; `m` may list its own gid with time 0 in addition. -/
structure RdbNode.Restores (n m : RdbNode) : Prop where
  clock : ∀ g, m.server.vectorClock.time g = n.server.vectorClock.time g
  listed : ∀ g t, n.server.vectorClock.listed g = some t → m.server.vectorClock.listed g = some t
  offset : m.masterReplOffset = n.masterReplOffset
  offline : m.offlinePeerSet = n.offlinePeerSet
  peers : ∀ i, (m.server.crdtMasters i).map PeerMaster.replication =
    (n.server.crdtMasters i).map PeerMaster.replication

theorem loadVclock_listed (s : CrdtServer) (v : VectorClock) {g t : Nat}
    (h : v.listed g = some t) : (loadVclock s v).vectorClock.listed g = some t := by
  unfold loadVclock
  split
  · rename_i hzero
    show (v.add s.crdtGid 0).listed g = some t
    rw [VectorClock.add_listed]
    split
    · rename_i hg
      rw [← hg, VectorClock.time, h] at hzero
      rw [show t = 0 from hzero]
      rfl
    · exact h
  · exact h

theorem loadVclock_time (s : CrdtServer) (v : VectorClock) (g : Nat) :
    (loadVclock s v).vectorClock.time g = v.time g := by
  unfold loadVclock
  split
  · rename_i hzero
    show (v.add s.crdtGid 0).time g = v.time g
    rw [VectorClock.time, VectorClock.add_listed]
    split
    · rename_i hg
      rw [hg, hzero]
      rfl
    · rfl
  · rfl

namespace PeerMaster

variable {p : PeerMaster} {proxy : Option XpipeProxy}

theorem zero_not_mem_savedPosition (p : PeerMaster) : (0 : UInt8) ∉ p.savedPosition.1 := by
  unfold savedPosition
  split <;> exact no_zero_cstr _

theorem reloaded_savedPosition : (p.reloaded dbnum uninitialized proxy).savedPosition =
      (if p.savedPosition.1.length = 40 then p.savedPosition.1 else cstr uninitialized,
        p.savedPosition.2) := by
  show (cstr (if _ then _ else _), _) = _
  congr 1
  split
  · -- the byte after the id ends it
    unfold cstr
    rw [takeWhile_append_of_pos]
    · simp
    · intro b hb
      exact decide_eq_true fun h0 => p.zero_not_mem_savedPosition (h0 ▸ hb)
  · rfl

/-- Some content of the uninitialized buffer is not the id. -/
theorem exists_other_replid (id : Bytes) : ∃ buf : Bytes, buf.length = 41 ∧ cstr buf ≠ id := by
  by_cases hid : id = []
  · exact ⟨List.replicate 41 1, by simp, by rw [hid]; decide⟩
  · exact ⟨List.replicate 41 0, by simp, fun h => hid (h ▸ by decide)⟩

/-- The peer is restored from every content of the uninitialized buffer exactly if it
`Keeps` what it has. -/
theorem reloaded_iff (hp : p.Typed) :
    (∀ buf : Bytes, buf.length = 41 → ∃ proxy, reloadedProxy p.proxy = some proxy ∧
      (p.reloaded dbnum buf proxy).replication = p.replication) ↔ p.Keeps dbnum := by
  have hproxy_iff : (∃ proxy, reloadedProxy p.proxy = some proxy ∧
      proxy.map xpipeProxy2str = p.proxy.map xpipeProxy2str) ↔
        ∀ x, p.proxy = some x → x.BarFree := by
    cases hproxy : p.proxy with
    | none => simp [reloadedProxy]
    | some x =>
      rw [reloadedProxy, cstr_of_no_zero (zero_not_mem_proxy2str x)]
      simp [← str2XpipeProxy_text_iff (hp.proxy x hproxy)]
  have hreplication : ∀ buf proxy, (p.reloaded dbnum buf proxy).replication = p.replication ↔
      (if p.savedPosition.1.length = 40 then p.savedPosition.1 else cstr buf) = p.savedPosition.1 ∧
      (if 0 ≤ p.savedDb ∧ p.savedDb < dbnum then p.savedDb else 0) = p.selectedDb ∧
      proxy.map xpipeProxy2str = p.proxy.map xpipeProxy2str := by
    intro buf proxy
    have hdb : (p.reloaded dbnum buf proxy).selectedDb =
        if 0 ≤ p.savedDb ∧ p.savedDb < dbnum then p.savedDb else 0 := rfl
    have hhost : cstr (p.reloaded dbnum buf proxy).masterhost = cstr p.masterhost := cstr_cstr _
    unfold replication
    rw [PeerReplication.mk.injEq, reloaded_savedPosition, hdb, hhost]
    constructor
    · rintro ⟨-, -, hdb, hid, -, hproxy⟩
      exact ⟨hid, hdb, hproxy⟩
    · rintro ⟨hid, hdb, hproxy⟩
      exact ⟨rfl, rfl, hdb, hid, rfl, hproxy⟩
  constructor
  · intro h
    obtain ⟨buf, hbuf, hother⟩ := exists_other_replid p.savedPosition.1
    obtain ⟨proxy, hreload, hrep⟩ := h buf hbuf
    obtain ⟨hid, hdb, htext⟩ := (hreplication buf proxy).1 hrep
    refine ⟨?_, hdb.symm, hproxy_iff.1 ⟨proxy, hreload, htext⟩⟩
    by_contra hlength
    rw [if_neg hlength] at hid
    exact hother hid
  · intro h buf hbuf
    obtain ⟨proxy, hreload, htext⟩ := hproxy_iff.2 h.proxy
    exact ⟨proxy, hreload, (hreplication buf proxy).2 ⟨if_pos h.replid, h.db.symm, htext⟩⟩

end PeerMaster

/-- The state that the loaded peers leave in the node. -/
theorem rdbLoadAux_some {r : AuxReader} (hn : n.Typed) (hm : m.FreshSlave)
    (h : (rdbSavePeers n.server (List.finRange 16)).foldlM (read dbnum uninitialized)
      (beforePeers n m) = some r) :
    (∀ i, slotAfter n.server dbnum uninitialized r i) ∧
      (∀ i, n.server.crdtMasters i = none → r.node.server.crdtMasters i = none) ∧
      AuxReader.SameServer (beforePeers n m) r := by
  obtain ⟨hslots, hothers, hsame⟩ := rdbSavePeers_load hn.peers
    (nodup_finRange 16) (fun i _ => hm.noPeers i) h
  refine ⟨fun i => hslots i (mem_finRange i), fun i hi => ?_, hsame⟩
  rw [hothers i (.inr hi)]
  exact hm.noPeers i

/-- A fresh slave restores the replication state from the file exactly if no peer has the
gid 0 and each peer `Keeps` what it has. -/
theorem rdbLoadAux_restores_iff (i : SaveInfo) (hn : n.Typed) (hm : m.FreshSlave) (dbnum : Nat) :
    (∀ uninitialized : Bytes, uninitialized.length = 41 →
      ∃ m', rdbLoadAux dbnum uninitialized m (rdbSaveInfoAuxFields i n) = some m' ∧ n.Restores m') ↔
    ∀ gid p, n.server.crdtMasters gid = some p → gid.val ≠ 0 ∧ p.Keeps dbnum := by
  constructor
  · intro h gid p hp
    -- for each buffer the slot holds the reloaded peer
    have hslot : ∀ buf : Bytes, buf.length = 41 → gid.val ≠ 0 ∧
        ∃ proxy, reloadedProxy p.proxy = some proxy ∧
          (p.reloaded dbnum buf proxy).replication = p.replication := by
      intro buf hbuf
      obtain ⟨m', hload, hrestores⟩ := h buf hbuf
      rw [rdbLoadAux_save hn] at hload
      obtain ⟨r, hr, rfl⟩ := map_eq_some_iff.1 hload
      obtain ⟨hslots, -, -⟩ := rdbLoadAux_some hn hm hr
      obtain ⟨hgid, proxy, hproxy, hmaster⟩ := hslots gid p hp
      refine ⟨hgid, proxy, hproxy, ?_⟩
      have hpeer := hrestores.peers gid
      rw [setOfflinePeerSet_crdtMasters, hmaster, hp] at hpeer
      exact some.inj hpeer
    have hzero := (hslot (List.replicate 41 0) (by simp)).1
    exact ⟨hzero,
      (PeerMaster.reloaded_iff (hn.peers gid p hp)).1 fun buf hbuf => (hslot buf hbuf).2⟩
  · intro h buf hbuf
    have hproxy : ∀ gid p, n.server.crdtMasters gid = some p →
        ∃ proxy, reloadedProxy p.proxy = some proxy ∧
          (p.reloaded dbnum buf proxy).replication = p.replication := fun gid p hp =>
      (PeerMaster.reloaded_iff (hn.peers gid p hp)).2 (h gid p hp).2 buf hbuf
    have hgood : ∀ gid p, n.server.crdtMasters gid = some p →
        gid.val ≠ 0 ∧ (reloadedProxy p.proxy).isSome := by
      intro gid p hp
      obtain ⟨proxy, hreload, -⟩ := hproxy gid p hp
      exact ⟨(h gid p hp).1, by rw [hreload]; rfl⟩
    obtain ⟨r, hr⟩ : ∃ r, (rdbSavePeers n.server (List.finRange 16)).foldlM
        (read dbnum buf) (beforePeers n m) = some r :=
      rdbSavePeers_some hn.peers (nodup_finRange 16) (fun i _ => hm.noPeers i) hgood
    obtain ⟨hslots, hothers, hsame⟩ := rdbLoadAux_some hn hm hr
    refine ⟨_, by rw [rdbLoadAux_save hn, hr, map_some], ?_⟩
    constructor
    · intro g
      rw [setOfflinePeerSet_vectorClock, hsame.clock]
      exact loadVclock_time _ _ g
    · intro g t ht
      rw [setOfflinePeerSet_vectorClock, hsame.clock]
      exact loadVclock_listed _ _ ht
    · exact hsame.offset
    · exact setOfflinePeerSet_offlinePeerSet _ _
    · intro gid
      rw [setOfflinePeerSet_crdtMasters]
      cases hp : n.server.crdtMasters gid with
      | none => rw [hothers gid hp]
      | some p =>
        obtain ⟨-, proxy, hreload, hmaster⟩ := hslots gid p hp
        obtain ⟨proxy', hreload', hrep⟩ := hproxy gid p hp
        obtain rfl : proxy = proxy' := some.inj (hreload.symm.trans hreload')
        rw [hmaster, map_some, map_some, hrep]

end file

/-- A master with one peer, which it reaches through a proxy with these parameters. -/
def proxiedNode (params : String) : RdbNode where
  server := loneNode.setPeer slotTwo
    (some { createPeerMaster [] with
      masterhost := ascii "10.0.0.2"
      masterport := 6379
      replState := .connected
      master := some { createFakeClient (List.replicate 40 97 ++ [0]) with reploff := 100, db := 3 }
      proxy := some
        { servers := [⟨ascii "10.0.0.9", 80, .tcp⟩]
          serversIndex := 0
          params := some (ascii params)
          inRange := Nat.one_pos } })
  offlinePeerSet := 0
  replid := List.replicate 40 98 ++ [0]
  masterReplOffset := 7

/-- Its slave, before it has loaded anything. -/
def unloadedNode : RdbNode where
  server := { loneNode with iAmMaster := false }
  offlinePeerSet := 0
  replid := List.replicate 40 99 ++ [0]
  masterReplOffset := 0

def someSaveInfo : SaveInfo where
  version := ascii "4.0.8"
  redisBits := 64
  ctime := 0
  usedMem := 0
  rsi := none
  replid := List.replicate 40 98 ++ [0]
  replOffset := 7
  aofPreamble := false

theorem unloadedNode_freshSlave : unloadedNode.FreshSlave := ⟨rfl, fun _ => rfl⟩

theorem proxiedNode_peer {params : String} {gid : Fin 16} {p : PeerMaster}
    (h : (proxiedNode params).server.crdtMasters gid = some p) :
    gid = slotTwo ∧ (proxiedNode params).server.crdtMasters slotTwo = some p := by
  by_cases hgid : gid = slotTwo
  · exact ⟨hgid, hgid ▸ h⟩
  · have hnone : (proxiedNode params).server.crdtMasters gid = none := update_of_ne hgid _ _
    rw [hnone] at h
    cases h

theorem proxiedNode_typed (params : String) : (proxiedNode params).Typed := by
  refine ⟨(by decide : -(2 ^ 63) ≤ (7 : Int) ∧ (7 : Int) < 2 ^ 63), (by decide : 0 < 2 ^ 32),
    fun gid p hp => ?_⟩
  obtain ⟨-, hp⟩ := proxiedNode_peer hp
  obtain rfl := some.inj hp
  refine ⟨(by decide : -(2 ^ 31) ≤ (6379 : Int) ∧ (6379 : Int) < 2 ^ 31),
    (by decide : -(2 ^ 31) ≤ (3 : Int) ∧ (3 : Int) < 2 ^ 31),
    (by decide : -(2 ^ 63) ≤ (100 : Int) ∧ (100 : Int) < 2 ^ 63), fun x hx point hpoint => ?_⟩
  obtain rfl := some.inj hx
  obtain rfl := mem_singleton.1 hpoint
  exact ⟨by decide, by decide, by decide⟩

theorem rdbLoadAux_restores_route : (proxiedNode "ROUTE").Typed ∧ unloadedNode.FreshSlave ∧
      ∀ uninitialized : Bytes, uninitialized.length = 41 →
        ∃ m', rdbLoadAux 16 uninitialized unloadedNode
          (rdbSaveInfoAuxFields someSaveInfo (proxiedNode "ROUTE")) = some m' ∧
            (proxiedNode "ROUTE").Restores m' := by
  refine ⟨proxiedNode_typed _, unloadedNode_freshSlave, ?_⟩
  refine (rdbLoadAux_restores_iff someSaveInfo (proxiedNode_typed _)
    unloadedNode_freshSlave 16).2 ?_
  intro gid p hp
  obtain ⟨rfl, hp⟩ := proxiedNode_peer hp
  obtain rfl := some.inj hp
  refine ⟨by decide, by decide, by decide, fun x hx => ?_⟩
  obtain rfl := some.inj hx
  refine ⟨by decide, fun t ht => ?_⟩
  obtain rfl := some.inj ht
  decide

/-- The parameters `ROUTE|a` are lost: the text of the proxy has one part more than the
reader expects. -/
theorem rdbLoadAux_loses_params : ¬ ∀ (i : SaveInfo) (n m : RdbNode), n.Typed → m.FreshSlave →
      (∀ gid p, n.server.crdtMasters gid = some p → gid.val ≠ 0) →
      ∀ uninitialized : Bytes, uninitialized.length = 41 →
        ∃ m', rdbLoadAux 16 uninitialized m (rdbSaveInfoAuxFields i n) = some m' ∧
          n.Restores m' := by
  intro h
  obtain ⟨m', hload, hrestores⟩ := h someSaveInfo (proxiedNode "ROUTE|a") unloadedNode
    (proxiedNode_typed _) unloadedNode_freshSlave
    (fun gid p hp => by rw [(proxiedNode_peer hp).1]; decide) (List.replicate 41 0) (by decide)
  have hpeer := hrestores.peers slotTwo
  have hread : ((rdbLoadAux 16 (List.replicate 41 0) unloadedNode
      (rdbSaveInfoAuxFields someSaveInfo (proxiedNode "ROUTE|a"))).bind fun m =>
        m.server.crdtMasters slotTwo).bind (fun p => p.replication.proxy) =
      some (ascii "1|PROXYTCP://10.0.0.9:80") := by
    decide +kernel
  rw [hload, bind_some] at hread
  obtain ⟨p, hp, htext⟩ := bind_eq_some_iff.1 hread
  rw [hp] at hpeer
  have hrep := some.inj hpeer
  rw [hrep] at htext
  revert htext
  decide

end XredisCrdt.Peer
