import XredisCrdt.Merge.Converge
import Mathlib.Data.List.Perm.Basic

/-!
# The merge stream of a full sync

`crdtRdbSaveRio` writes for every database that is not empty a `SELECT`, then for each
value and each tombstone what the filter of the module leaves of it, in one or more
`CRDT.Merge` and `CRDT.Merge_Del`. The peer executes these commands one by one, with the
client of the link.
-/

namespace XredisCrdt.Merge

open Peer Function List

variable {Obj : Type}

/-! ## Execution -/

/-- The server that merges: `selected` is the database of the executing client. -/
structure Receiver (Obj : Type) where
  server : CrdtServer
  dbs : Nat → Db Obj
  selected : Nat

/-- `selectCommand`; with an error the database stays selected. -/
def selectCommand (dbnum : Nat) (r : Receiver Obj) (argv : Argv) : Trace (Receiver Obj) := do
  match string2ll (← arg argv 1) with
  | none => pure r
  | some id => if 0 ≤ id ∧ id < dbnum then pure { r with selected := id.toNat } else pure r

/-- The selected database and the server, as a merge leaves them. -/
def Receiver.merged (r : Receiver Obj) (m : Merged Obj) : Receiver Obj :=
  { r with server := m.server, dbs := update r.dbs r.selected m.db }

/-- One command of the stream. -/
def execute (M : Module Obj) (dbnum : Nat) (env : MergeEnv) (r : Receiver Obj)
    (argv : Argv) : Trace (Receiver Obj) := do
  let name ← arg argv 0
  if strcaseeq name (ascii "select") then selectCommand dbnum r argv
  else if strcaseeq name (ascii "crdt.merge") then
    return r.merged (← mergeCrdtObjectCommand M env r.server (r.dbs r.selected) argv)
  else if strcaseeq name (ascii "crdt.merge_del") then
    return r.merged (← crdtMergeTomstoneCommand M r.server (r.dbs r.selected) argv)
  else pure r

/-- The commands one after the other, each at its own time. -/
def executeAll (M : Module Obj) (dbnum : Nat) :
    (Nat → MergeEnv) → Receiver Obj → List Argv → Trace (Receiver Obj)
  | _, r, [] => pure r
  | env, r, argv :: rest => do
    let r ← execute M dbnum (env 0) r argv
    executeAll M dbnum (fun n => env (n + 1)) r rest

/-! ## Nothing but the key is changed -/

/-- The slots of the other keys are the same. -/
def Only (key : Bytes) (db db' : Db Obj) : Prop := ∀ k, k ≠ key → db'.slot k = db.slot k

namespace Only

variable {key : Bytes} {db db' db'' : Db Obj}

theorem refl (db : Db Obj) : Only key db db := fun _ _ => rfl

theorem trans (h : Only key db db') (h' : Only key db' db'') : Only key db db'' :=
  fun k hk => (h' k hk).trans (h k hk)

theorem delete (db : Db Obj) : Only key db (db.delete key) := by
  intro k hk
  simp [Db.slot, Db.delete, hk]

theorem add (db : Db Obj) (val : Obj) : Only key db (db.add key val) := by
  intro k hk
  simp [Db.slot, Db.add, hk]

theorem setTombstone (db : Db Obj) (tom : Option Obj) : Only key db (db.setTombstone key tom) := by
  intro k hk
  simp [Db.slot, Db.setTombstone, hk]

theorem putValue (db : Db Obj) (val : Option Obj) (expireTime : Int) :
    Only key db (Merge.putValue db key val expireTime) := by
  cases val with
  | none => exact refl db
  | some val =>
    rw [Merge.putValue]
    split
    · exact add db val
    · exact (add db val).trans fun k _ => rfl

end Only

/-- What later messages depend on is the same. -/
structure SameLinks (s s' : CrdtServer) : Prop where
  crdtMasters : s'.crdtMasters = s.crdtMasters
  iAmMaster : s'.iAmMaster = s.iAmMaster

/-- The merge has changed nothing but the key. -/
structure Merged.Local (key : Bytes) (s : CrdtServer) (db : Db Obj) (m : Merged Obj) : Prop where
  only : Only key db m.db
  links : SameLinks s m.server

section Local

variable {M : Module Obj} {env : MergeEnv} {s : CrdtServer} {db db' : Db Obj} {key : Bytes}

theorem local_finish (h : Only key db db') (signalled : List Bytes) :
    (finish s db' signalled).Local key s db := ⟨h, rfl, rfl⟩

theorem local_refuse (h : Only key db db') : (refuse s db').Local key s db := ⟨h, rfl, rfl⟩

theorem local_storeMerged (h : Only key db db') (gidText : Bytes) (val : Obj) (expireTime : Int) :
    (storeMerged M s db' gidText key val expireTime).Local key s db := by
  rw [storeMerged]
  split
  · exact local_finish (h.trans (.putValue _ _ _)) _
  · split
    · split
      · exact local_finish ((h.trans (.setTombstone _ _)).trans (.putValue _ _ _)) _
      · exact local_refuse h
    · exact local_finish (h.trans (.putValue _ _ _)) _

theorem only_expireIfNeeded (M : Module Obj) (env : MergeEnv) (iAmMaster : Bool) (db : Db Obj) :
    Only key db (expireIfNeeded M env iAmMaster db key) := by
  rw [expireIfNeeded, deleteExpired]
  split
  · split
    · exact .refl db
    · exact (Only.setTombstone _ _).trans (.delete _)
  · exact .refl db

theorem local_mergeObject (gidText : Bytes) (obj : Obj) (expireTime : Int) :
    (mergeObject M env s db gidText key obj expireTime).Local key s db := by
  have h : Only key db (expireIfNeeded M env s.iAmMaster db key) := only_expireIfNeeded _ _ _ _
  rw [mergeObject]
  split
  · split
    · split
      · exact local_storeMerged (h.trans (.delete _)) _ _ _
      · exact local_refuse h
    · exact local_storeMerged h _ _ _
  · exact local_refuse h

theorem local_purgeValue (h : Only key db db') (tombstone : Obj) :
    (purgeValue M s db' key tombstone).Local key s db := by
  rw [purgeValue]
  split
  · exact local_finish h _
  · split
    · split
      · split
        · exact local_finish ((h.trans (.setTombstone _ _)).trans (.delete _)) _
        · exact local_finish ((h.trans (.add _ _)).trans (.setTombstone _ _)) _
        · exact local_finish ((h.trans (.add _ _)).trans (.setTombstone _ _)) _
      · exact local_refuse h
    · exact local_finish h _

theorem local_mergeTombstoneObject (obj : Obj) :
    (mergeTombstoneObject M s db key obj).Local key s db := by
  rw [mergeTombstoneObject]
  split
  · split
    · split
      · exact local_purgeValue (.setTombstone _ _) _
      · exact local_refuse (.refl db)
    · exact local_refuse (.refl db)
  · exact local_purgeValue (.setTombstone _ _) _

end Local

/-! ## What the commands of the stream say -/

/-- A command of the stream: `SELECT`, or an object for a key. -/
inductive Item (Obj : Type)
  | select (id : Nat)
  | message (key : Bytes) (m : Incoming Obj)

/-- The command has this name. -/
def Named (name : String) (argv : Argv) : Prop :=
  ∃ text, argv[0]? = some text ∧ strcaseeq text (ascii name) = true

/-- The command brings the object to the key, from a configured peer. -/
def Carries (M : Module Obj) (s : CrdtServer) (argv : Argv) (key : Bytes) :
    Incoming Obj → Prop
  | .value x => Named "crdt.merge" argv ∧ ∃ gidText time, MergeAccepted M s argv gidText key x time
  | .tombstone y => Named "crdt.merge_del" argv ∧ MergeDelAccepted M s argv key y

def Means (M : Module Obj) (dbnum : Nat) (s : CrdtServer) (argv : Argv) : Item Obj → Prop
  | .select id => Named "select" argv ∧ argv[1]?.bind string2ll = some (id : Int) ∧ id < dbnum
  | .message key m => Carries M s argv key m

/-- The messages for one key of one database, where `selected` is selected at first. -/
def addressed (db : Nat) (key : Bytes) : Nat → List (Item Obj) → List (Incoming Obj)
  | _, [] => []
  | _, .select id :: rest => addressed db key id rest
  | selected, .message k m :: rest =>
    if selected = db ∧ k = key then m :: addressed db key selected rest
    else addressed db key selected rest

/-- The executing client is the link of a peer, or the node is a slave: values that have
expired are not for it to delete. -/
def KeepsExpired (s : CrdtServer) (env : MergeEnv) : Prop :=
  env.peerLink = true ∨ s.iAmMaster = false

section Execute

variable {M : Module Obj} {dbnum : Nat} {env : MergeEnv} {r : Receiver Obj} {argv : Argv}
  {key : Bytes}

theorem expiresNow_false {s : CrdtServer} (h : KeepsExpired s env) (db : Db Obj) (key : Bytes) :
    expiresNow env s.iAmMaster db key = false := by
  rcases h with h | h
  · simp [expiresNow, h]
  · simp [expiresNow, h]

/-- A text is the name of one command only. -/
theorem strcaseeq_false {text a b : Bytes} (h : strcaseeq text a = true)
    (hne : strcaseeq a b = false) : strcaseeq text b = false := by
  rw [strcaseeq, beq_iff_eq] at h
  rw [strcaseeq, h]
  exact hne

/-- A message is absorbed by its key in the selected database. -/
structure Absorbed (M : Module Obj) (r : Receiver Obj) (key : Bytes) (m : Incoming Obj)
    (r' : Receiver Obj) : Prop where
  selected : r'.selected = r.selected
  links : SameLinks r.server r'.server
  others : ∀ j, j ≠ r.selected → r'.dbs j = r.dbs j
  only : Only key (r.dbs r.selected) (r'.dbs r.selected)
  live : Live (r'.dbs r.selected)
  slot : (r'.dbs r.selected).slot key = absorb M ((r.dbs r.selected).slot key) m

theorem absorbed_merged {m : Incoming Obj} {d : Merged Obj}
    (hlocal : d.Local key r.server (r.dbs r.selected)) (hlive : Live d.db)
    (hslot : d.db.slot key = absorb M ((r.dbs r.selected).slot key) m) :
    Absorbed M r key m (r.merged d) where
  selected := rfl
  links := hlocal.links
  others := fun j hj => update_of_ne hj _ _
  only := by
    show Only key _ (update r.dbs r.selected d.db r.selected)
    rw [update_self]
    exact hlocal.only
  live := by
    show Live (update r.dbs r.selected d.db r.selected)
    rw [update_self]
    exact hlive
  slot := by
    show (update r.dbs r.selected d.db r.selected).slot key = _
    rw [update_self]
    exact hslot

theorem execute_carries {m : Incoming Obj} (henv : KeepsExpired r.server env)
    (hlive : Live (r.dbs r.selected)) (h : Carries M r.server argv key m) :
    ∃ r', (execute M dbnum env r argv).result = .ok r' ∧ Absorbed M r key m r' := by
  cases m with
  | value x =>
    obtain ⟨⟨text, htext, hname⟩, gidText, time, hacc⟩ := h
    refine ⟨_, ?_, absorbed_merged (local_mergeObject gidText x time)
      (hlive.mergeObject env r.server gidText key x time)
      (mergeObject_slot (expiresNow_false henv _ _) gidText x time)⟩
    rw [execute, Trace.bind_of_ok (arg_ok.2 htext), strcaseeq_false hname (by decide), hname]
    exact Trace.bind_of_ok
      (mergeCrdtObjectCommand_of_accepted hacc (getExpireAsserts_of_live hlive key)) _
  | tombstone y =>
    obtain ⟨⟨text, htext, hname⟩, hacc⟩ := h
    refine ⟨_, ?_, absorbed_merged (local_mergeTombstoneObject y)
      (hlive.mergeTombstoneObject r.server key y) (mergeTombstoneObject_slot y)⟩
    rw [execute, Trace.bind_of_ok (arg_ok.2 htext), strcaseeq_false hname (by decide),
      strcaseeq_false hname (by decide), hname]
    exact Trace.bind_of_ok (crdtMergeTomstoneCommand_of_accepted hacc) _

theorem execute_select {id : Nat} (h : Means M dbnum r.server argv (.select id)) :
    (execute M dbnum env r argv).result = .ok { r with selected := id } := by
  obtain ⟨⟨text, htext, hname⟩, hid, hlt⟩ := h
  obtain ⟨idText, hidText, hid⟩ := Option.bind_eq_some_iff.1 hid
  rw [execute, Trace.bind_of_ok (arg_ok.2 htext), hname]
  show (selectCommand dbnum r argv).result = _
  rw [selectCommand, Trace.bind_of_ok (arg_ok.2 hidText)]
  simp only [hid]
  rw [if_pos ⟨Int.natCast_nonneg id, by exact_mod_cast hlt⟩, Int.toNat_natCast]
  rfl

/-- What a command says depends on the links of the server only. -/
theorem Means.of_sameLinks {s s' : CrdtServer} (hs : SameLinks s s') {item : Item Obj}
    (h : Means M dbnum s argv item) : Means M dbnum s' argv item := by
  have hpeer : ∀ gid, peerAt s' gid = peerAt s gid := by
    intro gid
    rw [peerAt, peerAt, hs.crdtMasters]
  cases item with
  | select id => exact h
  | message key m =>
    cases m with
    | value x =>
      obtain ⟨hname, gidText, time, h₁, h₂, h₄, h₃, gid, hgid, hyes, hsome⟩ := h
      refine ⟨hname, gidText, time, h₁, h₂, h₄, h₃, gid, hgid, hyes, ?_⟩
      rw [hpeer]
      exact hsome
    | tombstone y =>
      obtain ⟨hname, h₂, h₃, gid, hgid, hsome⟩ := h
      refine ⟨hname, h₂, h₃, gid, hgid, ?_⟩
      rw [hpeer]
      exact hsome

/-- At the end of the stream every key of every database has absorbed the messages that
were addressed to it. -/
theorem executeAll_slot {env : Nat → MergeEnv} {argvs : List Argv}
    {items : List (Item Obj)} (henv : ∀ n, KeepsExpired r.server (env n))
    (hlive : ∀ j, Live (r.dbs j)) (h : List.Forall₂ (Means M dbnum r.server) argvs items) :
    ∃ r', (executeAll M dbnum env r argvs).result = .ok r' ∧ ∀ j k, (r'.dbs j).slot k =
        (addressed j k r.selected items).foldl (absorb M) ((r.dbs j).slot k) := by
  induction argvs generalizing r items env with
  | nil =>
    cases h
    exact ⟨r, rfl, fun _ _ => rfl⟩
  | cons argv argvs ih =>
    obtain _ | ⟨hitem, hrest⟩ := h
    rename_i item items
    cases item with
    | select id =>
      obtain ⟨r', hr', hslots⟩ := @ih { r with selected := id } (fun n => env (n + 1)) items
        (fun n => henv (n + 1)) hlive hrest
      refine ⟨r', ?_, hslots⟩
      rw [executeAll, Trace.bind_of_ok (execute_select hitem)]
      exact hr'
    | message key m =>
      obtain ⟨r₁, hr₁, hstep⟩ : ∃ r₁, (execute M dbnum (env 0) r argv).result = .ok r₁ ∧
          Absorbed M r key m r₁ := execute_carries (henv 0) (hlive _) hitem
      have hrest₁ : List.Forall₂ (Means M dbnum r₁.server) argvs items :=
        hrest.imp fun _ _ hmeans => hmeans.of_sameLinks hstep.links
      have henv₁ : ∀ n, KeepsExpired r₁.server (env (n + 1)) := by
        intro n
        rw [KeepsExpired, hstep.links.iAmMaster]
        exact henv (n + 1)
      have hlive₁ : ∀ j, Live (r₁.dbs j) := by
        intro j
        by_cases hj : j = r.selected
        · rw [hj]
          exact hstep.live
        · rw [hstep.others j hj]
          exact hlive j
      obtain ⟨r', hr', hslots⟩ := ih henv₁ hlive₁ hrest₁
      refine ⟨r', ?_, fun j k => ?_⟩
      · rw [executeAll, Trace.bind_of_ok hr₁]
        exact hr'
      · rw [hslots, hstep.selected, addressed]
        -- The message is for this key of this database, or it leaves the slot alone.
        by_cases hj : r.selected = j
        · subst hj
          by_cases hk : key = k
          · subst hk
            rw [if_pos ⟨rfl, rfl⟩, foldl_cons, hstep.slot]
          · rw [if_neg (fun h => hk h.2), hstep.only k (Ne.symm hk)]
        · rw [if_neg (fun h => hj h.1), hstep.others j (Ne.symm hj)]

end Execute

/-! ## The sender -/

/-- What a filter of the module leaves of an object for the peer. -/
inductive Filtered (Obj : Type)
  | tooBig
  | nothing
  | pieces (ps : List Obj)

/-- A `redisDb` in the order of its iterators; `none` is an object that is not one of the
module. -/
structure SenderDb (Obj : Type) where
  dict : List (Bytes × Option Obj)
  expires : Bytes → Option Int
  deletedKeys : List (Bytes × Option Obj)

def SenderDb.getExpire (db : SenderDb Obj) (key : Bytes) : Int := (db.expires key).getD (-1)

/-- The server that saves. The filters have their gid, clock and size limit. -/
structure Sender (Obj : Type) where
  crdtGid : Int
  dbs : List (SenderDb Obj)
  dataFilter2 : Obj → Filtered Obj
  tombstoneFilter2 : Obj → Filtered Obj
  createDumpPayload : Obj → Bytes

variable (S : Sender Obj)

/-- The five words of a merge request. -/
def mergeRequest (cmdname : String) (key : Bytes) (expire : Int) (piece : Obj) : Argv :=
  [ascii cmdname, ll2string S.crdtGid, key, S.createDumpPayload piece, ll2string expire]

/-- `crdtSendMergeRequest2`; `none` is `C_ERR`. -/
def crdtSendMergeRequest2 (cmdname : String) (filterFun : Obj → Filtered Obj)
    (getExpire : Bytes → Int) : List (Bytes × Option Obj) → Option (List Argv)
  | [] => some []
  | (_, none) :: rest => crdtSendMergeRequest2 cmdname filterFun getExpire rest
  | (key, some object) :: rest =>
    match filterFun object with
    | .tooBig => none
    | .nothing => crdtSendMergeRequest2 cmdname filterFun getExpire rest
    | .pieces ps => do
      let requests ← crdtSendMergeRequest2 cmdname filterFun getExpire rest
      some (ps.map (mergeRequest S cmdname key (getExpire key)) ++ requests)

/-- The databases from the `j`th on. -/
def saveDbs : Nat → List (SenderDb Obj) → Option (List Argv)
  | _, [] => some []
  | j, db :: rest =>
    if db.dict.isEmpty && db.deletedKeys.isEmpty then saveDbs (j + 1) rest
    else do
      let values ← crdtSendMergeRequest2 S "CRDT.Merge" S.dataFilter2 db.getExpire db.dict
      let tombstones ←
        crdtSendMergeRequest2 S "CRDT.Merge_Del" S.tombstoneFilter2 (fun _ => -1) db.deletedKeys
      let others ← saveDbs (j + 1) rest
      some ([ascii "SELECT", ll2string j] :: (values ++ tombstones) ++ others)

/-- `crdtRdbSaveRio`: the commands that it writes. -/
def crdtRdbSaveRio : Option (List Argv) := saveDbs S 0 S.dbs

/-! ## What is sent -/

/-- What the filter leaves of an entry. -/
def kept (filterFun : Obj → Filtered Obj) : Option Obj → List Obj
  | none => []
  | some object =>
    match filterFun object with
    | .tooBig => []
    | .nothing => []
    | .pieces ps => ps

/-- What the filter leaves under a key. -/
def pieces (filterFun : Obj → Filtered Obj) (entries : List (Bytes × Option Obj)) (key : Bytes) :
    List Obj :=
  (entries.filter (·.1 = key)).flatMap fun e => kept filterFun e.2

def sentOf (db : SenderDb Obj) (key : Bytes) : List (Incoming Obj) :=
  (pieces S.dataFilter2 db.dict key).map .value ++
    (pieces S.tombstoneFilter2 db.deletedKeys key).map .tombstone

/-- The filtered state of the sender under a key of a database. -/
def sent (j : Nat) (key : Bytes) : List (Incoming Obj) :=
  (S.dbs[j]?).elim [] fun db => sentOf S db key

/-- The messages of one dictionary. -/
def requestItems (mk : Obj → Incoming Obj) (filterFun : Obj → Filtered Obj)
    (entries : List (Bytes × Option Obj)) : List (Item Obj) :=
  entries.flatMap fun e => (kept filterFun e.2).map fun piece => .message e.1 (mk piece)

/-- The commands of the databases from the `j`th on. -/
def dbItems : Nat → List (SenderDb Obj) → List (Item Obj)
  | _, [] => []
  | j, db :: rest =>
    if db.dict.isEmpty && db.deletedKeys.isEmpty then dbItems (j + 1) rest
    else .select j :: (requestItems .value S.dataFilter2 db.dict ++
      requestItems .tombstone S.tombstoneFilter2 db.deletedKeys) ++ dbItems (j + 1) rest

variable (j : Nat) (k : Bytes) (selected : Nat)

theorem addressed_messages (key : Bytes) (ms : List (Incoming Obj)) (rest : List (Item Obj)) :
    addressed j k selected (ms.map (.message key) ++ rest) =
      (if selected = j ∧ key = k then ms else []) ++ addressed j k selected rest := by
  induction ms with
  | nil => simp
  | cons m ms ih =>
    rw [map_cons, cons_append, addressed, ih]
    split
    · rfl
    · rfl

theorem addressed_requestItems (mk : Obj → Incoming Obj) (filterFun : Obj → Filtered Obj)
    (entries : List (Bytes × Option Obj)) (rest : List (Item Obj)) :
    addressed j k selected (requestItems mk filterFun entries ++ rest) =
      (if selected = j then (pieces filterFun entries k).map mk else []) ++
        addressed j k selected rest := by
  induction entries with
  | nil => simp [requestItems, pieces]
  | cons e entries ih =>
    have hmap : (kept filterFun e.2).map (fun piece => Item.message e.1 (mk piece)) =
        ((kept filterFun e.2).map mk).map (.message e.1) := by
      rw [map_map]
      rfl
    rw [requestItems, flatMap_cons, append_assoc, hmap, addressed_messages]
    show _ ++ addressed j k selected (requestItems mk filterFun entries ++ rest) = _
    rw [ih, ← append_assoc]
    congr 1
    by_cases hj : selected = j
    · by_cases hk : e.1 = k
      · simp [hj, hk, pieces]
      · simp [hj, hk, pieces]
    · simp [hj]

theorem addressed_dbItems (i : Nat) (dbs : List (SenderDb Obj)) :
    addressed j k selected (dbItems S i dbs) =
      if i ≤ j then (dbs[j - i]?).elim [] fun db => sentOf S db k else [] := by
  induction dbs generalizing i selected with
  | nil =>
    rw [dbItems]
    split <;> rfl
  | cons db dbs ih =>
    have hrest : ∀ selected, addressed j k selected (dbItems S (i + 1) dbs) =
        if i + 1 ≤ j then ((db :: dbs)[j - i]?).elim [] fun db => sentOf S db k else [] := by
      intro selected
      rw [ih]
      split
      · rename_i hij
        rw [show j - i = j - (i + 1) + 1 by omega, getElem?_cons_succ]
      · rfl
    rw [dbItems]
    split
    · rename_i hempty
      rw [Bool.and_eq_true, List.isEmpty_iff, List.isEmpty_iff] at hempty
      rw [hrest]
      by_cases hij : i = j
      · subst hij
        simp [sentOf, pieces, hempty.1, hempty.2]
      · grind
    · show addressed j k i (_ ++ _ ++ _) = _
      rw [append_assoc, addressed_requestItems, addressed_requestItems, hrest]
      by_cases hij : i = j
      · subst hij
        simp [sentOf]
      · grind

theorem addressed_sent : addressed j k selected (dbItems S 0 S.dbs) = sent S j k := by
  rw [addressed_dbItems]
  rfl

theorem mem_pieces {filterFun : Obj → Filtered Obj} {entries : List (Bytes × Option Obj)}
    {key : Bytes} {piece : Obj} (h : piece ∈ pieces filterFun entries key) :
    ∃ e ∈ entries, piece ∈ kept filterFun e.2 := by
  obtain ⟨e, he, hpiece⟩ := mem_flatMap.1 h
  exact ⟨e, (mem_filter.1 he).1, hpiece⟩

/-- All that is sent is of the type if all that the filters leave is. -/
theorem sent_brings {S : Sender Obj} {M : Module Obj} {τ : Tags}
    (hvalue : ∀ db ∈ S.dbs, ∀ e ∈ db.dict, ∀ o ∈ kept S.dataFilter2 e.2, τ.IsValue M o)
    (htombstone : ∀ db ∈ S.dbs, ∀ e ∈ db.deletedKeys,
      ∀ o ∈ kept S.tombstoneFilter2 e.2, τ.IsTombstone M o) (j : Nat) (k : Bytes) :
    ∀ m ∈ sent S j k, τ.Brings M m := by
  intro m hm
  rw [sent] at hm
  cases hdb : S.dbs[j]? with
  | none =>
    rw [hdb] at hm
    cases hm
  | some db =>
    have hmem := mem_of_getElem? hdb
    rw [hdb] at hm
    rcases mem_append.1 hm with h | h
    · obtain ⟨o, ho, rfl⟩ := mem_map.1 h
      obtain ⟨e, he, hkept⟩ := mem_pieces ho
      exact hvalue db hmem e he o hkept
    · obtain ⟨o, ho, rfl⟩ := mem_map.1 h
      obtain ⟨e, he, hkept⟩ := mem_pieces ho
      exact htombstone db hmem e he o hkept

/-! ## The stream is understood -/

/-- The receiver knows the sender, and payloads are read as they were written. -/
structure Connected (M : Module Obj) (dbnum : Nat) (s : CrdtServer) : Prop where
  gid : 1 ≤ S.crdtGid ∧ S.crdtGid ≤ 15
  peer : (peerAt s S.crdtGid).isSome
  load : ∀ o, M.load (S.createDumpPayload o) = .object o
  -- The C types of expire times and of the number of databases.
  expires : ∀ db ∈ S.dbs, ∀ key time, db.expires key = some time →
    -(llongMax + 1 : Int) ≤ time ∧ time ≤ llongMax
  dbnum : dbnum ≤ llongMax

/-- The receiver has every database from which something is sent. -/
def HasDbs (dbnum : Nat) : Prop :=
  ∀ j db, S.dbs[j]? = some db → db.dict ≠ [] ∨ db.deletedKeys ≠ [] → j < dbnum

section Means

variable {S} {M : Module Obj} {dbnum : Nat} {s : CrdtServer}

theorem Connected.string2ll_gid (h : Connected S M dbnum s) :
    string2ll (ll2string S.crdtGid) = some S.crdtGid := by
  have hgid := h.gid
  have hmax : (15 : Int) ≤ llongMax := by decide
  exact string2ll_ll2string (by omega) (by omega)

theorem Connected.checkGid (h : Connected S M dbnum s) : checkGid S.crdtGid = true := by
  have hgid := h.gid
  rw [checkGid_iff, toInt_of_small (by omega) (by omega)]
  exact hgid

theorem Connected.getExpire (h : Connected S M dbnum s) {db : SenderDb Obj} (hdb : db ∈ S.dbs)
    (key : Bytes) :
    -(llongMax + 1 : Int) ≤ db.getExpire key ∧ db.getExpire key ≤ llongMax := by
  rw [SenderDb.getExpire]
  cases htime : db.expires key with
  | none => exact ⟨by decide, by decide⟩
  | some time => exact h.expires db hdb key time htime

theorem Connected.means_value (h : Connected S M dbnum s) (key : Bytes) {time : Int}
    (htime : -(llongMax + 1 : Int) ≤ time ∧ time ≤ llongMax) (piece : Obj) :
    Means M dbnum s (mergeRequest S "CRDT.Merge" key time piece) (.message key (.value piece)) :=
  ⟨⟨_, rfl, by decide⟩, _, time, rfl, rfl, string2ll_ll2string htime.1 htime.2,
    ⟨_, rfl, h.load piece⟩, S.crdtGid, h.string2ll_gid, h.checkGid, h.peer⟩

theorem Connected.means_tombstone (h : Connected S M dbnum s) (key : Bytes) (time : Int)
    (piece : Obj) :
    Means M dbnum s (mergeRequest S "CRDT.Merge_Del" key time piece)
      (.message key (.tombstone piece)) :=
  ⟨⟨_, rfl, by decide⟩, rfl, ⟨_, rfl, h.load piece⟩, S.crdtGid, h.string2ll_gid, h.peer⟩

/-- The requests of one dictionary. -/
theorem means_requests {cmdname : String} {filterFun : Obj → Filtered Obj}
    {getExpire : Bytes → Int} {mk : Obj → Incoming Obj}
    (hmeans : ∀ key piece,
      Means M dbnum s (mergeRequest S cmdname key (getExpire key) piece) (.message key (mk
      piece))) {entries : List (Bytes × Option Obj)} {argvs : List Argv}
    (h : crdtSendMergeRequest2 S cmdname filterFun getExpire entries = some argvs) :
    List.Forall₂ (Means M dbnum s) argvs (requestItems mk filterFun entries) := by
  induction entries generalizing argvs with
  | nil =>
    cases h
    exact .nil
  | cons e entries ih =>
    obtain ⟨key, object⟩ := e
    rw [requestItems, flatMap_cons]
    cases object with
    | none => exact ih h
    | some object =>
      rw [crdtSendMergeRequest2] at h
      rw [kept]
      cases hf : filterFun object with
      | tooBig =>
        rw [hf] at h
        cases h
      | nothing =>
        rw [hf] at h
        exact ih h
      | pieces ps =>
        rw [hf] at h
        obtain ⟨requests, hrequests, h⟩ := Option.bind_eq_some_iff.1 h
        cases h
        refine rel_append ?_ (ih hrequests)
        rw [forall₂_map_left_iff, forall₂_map_right_iff]
        exact forall₂_same.2 fun piece _ => hmeans key piece

/-- The commands of the databases from the `j`th on. -/
theorem means_saveDbs (hconn : Connected S M dbnum s) {dbs : List (SenderDb Obj)} {j : Nat}
    (hmem : ∀ db ∈ dbs, db ∈ S.dbs)
    (hdbs : ∀ i db, dbs[i]? = some db → db.dict ≠ [] ∨ db.deletedKeys ≠ [] → j + i < dbnum)
    {argvs : List Argv} (h : saveDbs S j dbs = some argvs) :
    List.Forall₂ (Means M dbnum s) argvs (dbItems S j dbs) := by
  induction dbs generalizing j argvs with
  | nil =>
    cases h
    exact .nil
  | cons db dbs ih =>
    have hrest : ∀ {argvs}, saveDbs S (j + 1) dbs = some argvs →
        List.Forall₂ (Means M dbnum s) argvs (dbItems S (j + 1) dbs) := by
      refine ih (fun db hdb => hmem db (mem_cons_of_mem _ hdb)) fun i db hi hne => ?_
      have := hdbs (i + 1) db (by rw [getElem?_cons_succ]; exact hi) hne
      omega
    rw [saveDbs] at h
    rw [dbItems]
    split at h
    · rename_i hempty
      rw [if_pos hempty]
      exact hrest h
    · rename_i hne
      rw [if_neg hne]
      obtain ⟨values, hvalues, h⟩ := Option.bind_eq_some_iff.1 h
      obtain ⟨tombstones, htombstones, h⟩ := Option.bind_eq_some_iff.1 h
      obtain ⟨others, hothers, h⟩ := Option.bind_eq_some_iff.1 h
      cases h
      have hj : j < dbnum := by
        refine hdbs 0 db rfl ?_
        rw [Bool.and_eq_true, List.isEmpty_iff, List.isEmpty_iff] at hne
        exact Classical.not_and_iff_not_or_not.1 hne
      refine .cons ⟨⟨_, rfl, by decide⟩, ?_, hj⟩
        (rel_append (rel_append ?_ ?_) (hrest hothers))
      · have := hconn.dbnum
        exact string2ll_ll2string (by omega) (by omega)
      · exact means_requests (fun key => hconn.means_value key
          (hconn.getExpire (hmem db mem_cons_self) key)) hvalues
      · exact means_requests (fun key => hconn.means_tombstone key _) htombstones

end Means

/-! ## Convergence -/

section Converges

variable {S} {M : Module Obj} {dbnum : Nat} {r : Receiver Obj}

variable {argvs : List Argv} {env : Nat → MergeEnv} {key : Bytes}

/-- Messages of one type for one key of the selected database. -/
theorem executeAll_messages {ms : List (Incoming Obj)} (henv : ∀ n, KeepsExpired r.server (env n))
    (hlive : ∀ j, Live (r.dbs j))
    (h : List.Forall₂ (fun argv m => Carries M r.server argv key m) argvs ms) :
    ∃ r', (executeAll M dbnum env r argvs).result = .ok r' ∧
      (r'.dbs r.selected).slot key = ms.foldl (absorb M) ((r.dbs r.selected).slot key) := by
  have hmeans : List.Forall₂ (Means M dbnum r.server) argvs (ms.map (.message key)) := by
    rw [forall₂_map_right_iff]
    exact h
  obtain ⟨r', hr', hslots⟩ := executeAll_slot henv hlive hmeans
  refine ⟨r', hr', ?_⟩
  have hms := addressed_messages r.selected key r.selected key ms []
  rw [append_nil, if_pos ⟨rfl, rfl⟩, addressed, append_nil] at hms
  rw [hslots, hms]

theorem exists_forall₂ {α β : Type} {R : α → β → Prop} {as : List α} (h : ∀ a ∈ as, ∃ b, R a b) :
    ∃ bs, List.Forall₂ R as bs := by
  induction as with
  | nil => exact ⟨[], .nil⟩
  | cons a as ih =>
    obtain ⟨b, hb⟩ := h a mem_cons_self
    obtain ⟨bs, hbs⟩ := ih fun a ha => h a (mem_cons_of_mem _ ha)
    exact ⟨b :: bs, .cons hb hbs⟩

end Converges

/-- The messages of one type for a key leave the same under it in every order, and, if they
change anything, nothing for a purge to do; the stream of a sender whose databases the
receiver has leaves under every key the join of what was there and of what was sent. At
first expires belong to keys, without which `getExpire` ends the process. -/
theorem full_sync_converges (M : Module Obj) (dbnum : Nat) (r : Receiver Obj)
    (hlive : ∀ j, Live (r.dbs j)) :
    (∀ (T : CrdtType M) (key : Bytes) (argvs argvs' : List Argv) (env env' : Nat → MergeEnv),
      (∀ n, KeepsExpired r.server (env n)) → (∀ n, KeepsExpired r.server (env' n)) →
      (∀ argv ∈ argvs, ∃ m, T.Brings M m ∧ Carries M r.server argv key m) →
      argvs.Perm argvs' →
      ∃ r₁ r₂, (executeAll M dbnum env r argvs).result = .ok r₁ ∧
        (executeAll M dbnum env' r argvs').result = .ok r₂ ∧
        (r₁.dbs r.selected).slot key = (r₂.dbs r.selected).slot key ∧
        ((r₁.dbs r.selected).slot key = (r.dbs r.selected).slot key ∨
          ((r₁.dbs r.selected).slot key).Stable M) ∧
        (T.Typed M ((r.dbs r.selected).slot key) → argvs ≠ [] →
          ((r₁.dbs r.selected).slot key).Stable M)) ∧
    ∀ (S : Sender Obj) (T : Nat → Bytes → CrdtType M) (env : Nat → MergeEnv)
      (stream : List Argv), Connected S M dbnum r.server → HasDbs S dbnum →
      (∀ n, KeepsExpired r.server (env n)) →
      (∀ j k, (T j k).Typed M ((r.dbs j).slot k)) →
      (∀ j k, ∀ m ∈ sent S j k, (T j k).Brings M m) →
      crdtRdbSaveRio S = some stream →
      ∃ r', (executeAll M dbnum env r stream).result = .ok r' ∧ ∀ j k,
        (T j k).join ((r'.dbs j).slot k) =
          (T j k).join ((r.dbs j).slot k) ⊔ (T j k).ofAll (sent S j k) ∧
        (r'.dbs j).slot k = if sent S j k = [] then (r.dbs j).slot k
          else (T j k).part ((T j k).join ((r.dbs j).slot k) ⊔ (T j k).ofAll (sent S j k)) := by
  constructor
  · intro T key argvs argvs' env env' henv henv' hcarry hperm
    obtain ⟨ms, hms⟩ := exists_forall₂ hcarry
    obtain ⟨ms', hms', hperm'⟩ := perm_comp_forall₂ hperm.symm hms
    have hbrings : ∀ m ∈ ms, T.Brings M m := ((forall₂_and_left _ _).1 hms.flip).1
    obtain ⟨r₁, hr₁, hslot₁⟩ := executeAll_messages henv hlive (hms.imp fun _ _ h => h.2)
    obtain ⟨r₂, hr₂, hslot₂⟩ := executeAll_messages henv' hlive (hms'.imp fun _ _ h => h.2)
    refine ⟨r₁, r₂, hr₁, hr₂, ?_, ?_, ?_⟩
    · rw [hslot₁, hslot₂]
      exact (CrdtType.foldl_absorb_perm hbrings hperm'.symm _)
    · rw [hslot₁]
      exact CrdtType.foldl_absorb_stable hbrings _
    · intro htyped hne
      rw [hslot₁]
      refine (CrdtType.foldl_absorb_typed hbrings ?_ htyped).stable
      rintro rfl
      exact hne (forall₂_nil_right_iff.1 hms)
  · intro S T env stream hconn hdbs henv htyped hsent hsave
    have hmeans := means_saveDbs hconn (fun _ h => h)
      (fun i db hi hne => (Nat.zero_add i).symm ▸ hdbs i db hi hne) hsave
    obtain ⟨r', hr', hslots⟩ := executeAll_slot henv hlive hmeans
    refine ⟨r', hr', fun j k => ?_⟩
    rw [hslots, addressed_sent]
    by_cases hnil : sent S j k = []
    · rw [hnil, if_pos rfl]
      exact ⟨(sup_bot_eq _).symm, rfl⟩
    · have h := CrdtType.foldl_absorb_typed (hsent j k) hnil (htyped j k)
      rw [if_neg hnil]
      exact ⟨h.join_eq, h.eq_part⟩

/-! ## A register -/

/-- An object is the time of a write, which is odd, or that of a deletion, which is even. The
last one wins. -/
def registers : Module Nat where
  load payload := .object payload.length
  type o := o % 2
  getDataType _ := 0
  isData o := o % 2 == 1
  isTombstone o := o % 2 == 0
  objectMethod _ := true
  tombstoneMethod _ := true
  merge current x := max (current.getD x) x
  mergeTombstone y t := max y t
  purge t v := if t < v then (.tombstone, t, v) else (.value, t, v)
  propagateDel _ t := t

def registerTags : Tags := ⟨1, 0, 0⟩

theorem isValue_register {o : Nat} : registerTags.IsValue registers o ↔ o % 2 = 1 := by
  simp [Tags.IsValue, registers, registerTags]

theorem isTombstone_register {o : Nat} : registerTags.IsTombstone registers o ↔ o % 2 = 0 := by
  simp [Tags.IsTombstone, registers, registerTags]

/-- The write or the deletion at a time. -/
def lastRegister (time : Nat) : Slot Nat :=
  if time % 2 = 1 then ⟨some time, none⟩ else ⟨none, some time⟩

theorem lastRegister_write {time : Nat} (h : registerTags.IsValue registers time) :
    lastRegister time = ⟨some time, none⟩ := if_pos (isValue_register.1 h)

theorem lastRegister_delete {time : Nat} (h : registerTags.IsTombstone registers time) :
    lastRegister time = ⟨none, some time⟩ := by
  rw [isTombstone_register] at h
  exact if_neg (by omega)

/-- Writes and deletions in the order of their times. -/
def registerType : CrdtType registers where
  toTags := registerTags
  Elem := Nat
  lattice := @Lattice.toSemilatticeSup Nat (@DistribLattice.toLattice Nat instDistribLatticeNat)
  ofValue v := v
  ofTombstone t := t
  part := lastRegister
  isTombstone_of_type t ht := by simpa [registers, registerTags] using ht
  getDataType_value v hv := by simpa [registers, registerTags] using hv
  getDataType_tombstone t ht := by simpa [registers, registerTags] using ht
  objectMethod := fun _ _ => rfl
  tombstoneMethod := fun _ _ => rfl
  merge_none x _ := max_self x
  merge_isValue := by
    intro v x hv hx
    show registerTags.IsValue registers (max v x)
    rcases max_choice v x with h | h <;> rwa [h]
  ofValue_merge := fun _ _ _ _ => rfl
  mergeTombstone_isTombstone := by
    intro y t hy ht
    show registerTags.IsTombstone registers (max y t)
    rcases max_choice y t with h | h <;> rwa [h]
  ofTombstone_merge := fun _ _ _ _ => rfl
  part_ofValue := fun _ => lastRegister_write
  part_ofTombstone := fun _ => lastRegister_delete
  part_typed := by
    intro t v ht hv
    rcases max_choice t v with h | h
    · rw [h, lastRegister_delete ht]
      exact ⟨by rintro _ ⟨⟩, by rintro _ ⟨⟩; exact ht⟩
    · rw [h, lastRegister_write hv]
      exact ⟨by rintro _ ⟨⟩; exact hv, by rintro _ ⟨⟩⟩
  join_part := by
    intro t v ht hv
    rcases max_choice t v with h | h
    · rw [h, lastRegister_delete ht]
      exact sup_bot_eq _
    · rw [h, lastRegister_write hv]
      exact bot_sup_eq _
  purge := by
    intro t v ht hv
    show purged (if t < v then _ else _) = _
    split
    · rename_i hlt
      rw [max_eq_right hlt.le, lastRegister_write hv]
      rfl
    · rename_i hge
      rw [max_eq_left (Nat.le_of_not_lt hge), lastRegister_delete ht]
      rfl

/-- Node 2 has written `a` in database 0 and later in database 1, and has deleted `b`. -/
def twoDbs : Sender Nat where
  crdtGid := 2
  dbs :=
    [⟨[(ascii "a", some 5)], fun _ => none, [(ascii "b", some 2)]⟩,
      ⟨[(ascii "a", some 9)], fun _ => none, []⟩]
  dataFilter2 o := .pieces [o]
  tombstoneFilter2 o := .pieces [o]
  createDumpPayload o := List.replicate o 0

/-- Its peer, without data. -/
def emptyNode : Receiver Nat where
  server := peeredNode
  dbs _ := emptyDb
  selected := 0

theorem twoDbs_connected {dbnum : Nat} (h : dbnum ≤ llongMax) :
    Connected twoDbs registers dbnum emptyNode.server where
  gid := by decide
  peer := by decide
  load o := by simp [registers, twoDbs]
  expires := by
    intro db hdb key time htime
    simp only [twoDbs, mem_cons, not_mem_nil, or_false] at hdb
    rcases hdb with rfl | rfl <;> cases htime
  dbnum := h

theorem twoDbs_brings : ∀ m ∈ sent twoDbs j k, registerType.Brings registers m :=
  sent_brings (by simp [twoDbs, kept]; decide) (by simp [twoDbs, kept]; decide) j k

theorem emptyNode_typed : registerType.Typed registers ((emptyNode.dbs j).slot k) :=
  ⟨by rintro _ ⟨⟩, by rintro _ ⟨⟩⟩

theorem emptyNode_live (j : Nat) : Live (emptyNode.dbs j) := by
  rintro key ⟨⟩

theorem emptyNode_keepsExpired (n : Nat) :
    KeepsExpired emptyNode.server ((fun _ => ⟨0, false, true⟩ : Nat → MergeEnv) n) := .inl rfl

/-- At a node with one database the `SELECT 1` of the stream fails, and what node 2 has in
database 1 is merged into database 0. -/
theorem missing_db_merges_elsewhere :
    ¬ ∀ (Obj : Type) (M : Module Obj) (dbnum : Nat) (r : Receiver Obj) (S : Sender Obj)
      (T : Nat → Bytes → CrdtType M) (env : Nat → MergeEnv) (stream : List Argv),
      (∀ j, Live (r.dbs j)) → Connected S M dbnum r.server →
      (∀ n, KeepsExpired r.server (env n)) →
      (∀ j k, (T j k).Typed M ((r.dbs j).slot k)) →
      (∀ j k, ∀ m ∈ sent S j k, (T j k).Brings M m) →
      crdtRdbSaveRio S = some stream →
      ∃ r', (executeAll M dbnum env r stream).result = .ok r' ∧ ∀ j < dbnum, ∀ k,
        (T j k).join ((r'.dbs j).slot k) =
          (T j k).join ((r.dbs j).slot k) ⊔ (T j k).ofAll (sent S j k) := by
  intro h
  obtain ⟨stream, hstream⟩ : ∃ stream, crdtRdbSaveRio twoDbs = some stream :=
    Option.isSome_iff_exists.1 (by decide +kernel)
  obtain ⟨r', hr', hjoin⟩ := h Nat registers 1 emptyNode twoDbs (fun _ _ => registerType) _
    stream emptyNode_live (twoDbs_connected (by decide)) emptyNode_keepsExpired emptyNode_typed
    twoDbs_brings hstream
  have hrun : ((crdtRdbSaveRio twoDbs).bind fun stream =>
      (executeAll registers 1 (fun _ => ⟨0, false, true⟩) emptyNode stream).result.toOption.map
        fun r => (r.dbs 0).slot (ascii "a")) = some ⟨some 9, none⟩ := by decide +kernel
  rw [hstream, Option.bind_some, hr'] at hrun
  have hslot : (r'.dbs 0).slot (ascii "a") = ⟨some 9, none⟩ := Option.some.inj hrun
  have hzero := hjoin 0 (by decide) (ascii "a")
  rw [hslot] at hzero
  exact absurd (show (9 : Nat) = 5 from hzero) (by decide)

/-- Both orders of a write and a deletion of `a`, and the stream of node 2 at a node with
two databases. -/
theorem registers_converge : (∃ r₁ r₂, (executeAll registers 1 (fun _ => ⟨0, false, true⟩) emptyNode
        [mergeRequest twoDbs "CRDT.Merge" (ascii "a") (-1) 5,
          mergeRequest twoDbs "CRDT.Merge_Del" (ascii "a") (-1) 4]).result = .ok r₁ ∧
      (executeAll registers 1 (fun _ => ⟨7, true, true⟩) emptyNode
        [mergeRequest twoDbs "CRDT.Merge_Del" (ascii "a") (-1) 4,
          mergeRequest twoDbs "CRDT.Merge" (ascii "a") (-1) 5]).result = .ok r₂ ∧
      (r₁.dbs 0).slot (ascii "a") = (r₂.dbs 0).slot (ascii "a")) ∧
    ∃ stream r', crdtRdbSaveRio twoDbs = some stream ∧
      (executeAll registers 2 (fun _ => ⟨0, false, true⟩) emptyNode stream).result = .ok r' ∧
      (r'.dbs 1).slot (ascii "a") = ⟨some 9, none⟩ := by
  constructor
  · have hcarry : ∀ argv ∈ [mergeRequest twoDbs "CRDT.Merge" (ascii "a") (-1) 5,
        mergeRequest twoDbs "CRDT.Merge_Del" (ascii "a") (-1) 4],
        ∃ m, registerType.Brings registers m ∧
          Carries registers emptyNode.server argv (ascii "a") m := by
      have hconn := @twoDbs_connected 1 (by decide)
      intro argv hargv
      simp only [mem_cons, not_mem_nil, or_false] at hargv
      rcases hargv with rfl | rfl
      · exact ⟨.value 5, isValue_register.2 rfl, hconn.means_value _ (by decide) _⟩
      · exact ⟨.tombstone 4, isTombstone_register.2 rfl, hconn.means_tombstone _ _ _⟩
    obtain ⟨r₁, r₂, h₁, h₂, hslot, -⟩ :=
      (full_sync_converges registers 1 emptyNode emptyNode_live).1 registerType
      (ascii "a") _ _ _ (fun _ => ⟨7, true, true⟩) emptyNode_keepsExpired (fun _ => .inl rfl) hcarry
      (List.Perm.swap _ _ _)
    exact ⟨r₁, r₂, h₁, h₂, hslot⟩
  · obtain ⟨stream, hstream⟩ : ∃ stream, crdtRdbSaveRio twoDbs = some stream :=
      Option.isSome_iff_exists.1 (by decide +kernel)
    have hdbs : HasDbs twoDbs 2 := by
      intro j db hdb _
      exact (List.getElem?_eq_some_iff.1 hdb).1
    obtain ⟨r', hr', hslots⟩ := (full_sync_converges registers 2 emptyNode emptyNode_live).2 twoDbs
      (fun _ _ => registerType) _ stream (twoDbs_connected (by decide)) hdbs emptyNode_keepsExpired
      emptyNode_typed twoDbs_brings hstream
    refine ⟨stream, r', hstream, hr', (hslots 1 (ascii "a")).2.trans ?_⟩
    exact if_neg (by decide)

end XredisCrdt.Merge
