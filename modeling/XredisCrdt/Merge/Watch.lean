import XredisCrdt.Lib.System
import XredisCrdt.Merge.Failure

/-!
# Watched keys and merges

A client that watches keys relies on `CLIENT_DIRTY_CAS`: `signalModifiedKey` sets it
for the clients in the list that `watched_keys` of the database has for a key, and
`EXEC` tests it. `CRDT.Merge` signals its argument 1, which is the gid and not the
key, and `CRDT.Merge_Del` signals nothing.

The system of this module has any number of clients and databases, the commands about
transactions, the two merges, and all other commands as a parameter. Its state records
in `executed` what `EXEC` has run, and in `changed` the clients for whom a merge has
changed the value of a key while they were watching it. `merges_seen_by_watchers` is
about the runs in which the argument that is signalled does not matter.
-/

namespace XredisCrdt.Merge

open Peer Function List

/-! ## Clients and databases -/

/-- A client as far as transactions go. `watchedKeys` has pairs of database and key. -/
structure TxnClient (Cmd : Type) where
  db : Nat
  watchedKeys : List (Nat × Bytes)
  multi : Bool
  dirtyCas : Bool
  dirtyExec : Bool
  mstate : List Cmd

/-- The databases with their `watched_keys`, and the clients. -/
structure Store (Obj Cmd : Type) where
  server : CrdtServer
  dbs : Nat → Db Obj
  watchedKeys : Nat × Bytes → List Nat
  clients : Nat → TxnClient Cmd
  executed : List (Nat × Cmd)
  changed : Nat → Bool

/-- All other commands: the databases that one leaves, the keys it signals, and the
database that is selected then. -/
structure Commands (Obj Cmd : Type) where
  run : (db : Nat) → Cmd → (Nat → Db Obj) → (Nat → Db Obj) × List (Nat × Bytes) × Nat

variable {Obj Cmd : Type}

namespace Store

def setClient (s : Store Obj Cmd) (c : Nat) (x : TxnClient Cmd) : Store Obj Cmd :=
  { s with clients := update s.clients c x }

end Store

/-- `watchForKey`. -/
def watchForKey (s : Store Obj Cmd) (c : Nat) (key : Bytes) : Store Obj Cmd :=
  let wk := ((s.clients c).db, key)
  if wk ∈ (s.clients c).watchedKeys then s
  else
    { s.setClient c { s.clients c with watchedKeys := (s.clients c).watchedKeys ++ [wk] } with
      watchedKeys := update s.watchedKeys wk (s.watchedKeys wk ++ [c]) }

/-- `unwatchAllKeys`. -/
def unwatchAllKeys (s : Store Obj Cmd) (c : Nat) : Store Obj Cmd :=
  { s.setClient c { s.clients c with watchedKeys := [] } with
    watchedKeys := (s.clients c).watchedKeys.foldl
      (fun t wk => update t wk ((t wk).erase c)) s.watchedKeys
    changed := update s.changed c false }

/-- `touchWatchedKey`. -/
def touchWatchedKey (s : Store Obj Cmd) (wk : Nat × Bytes) : Store Obj Cmd :=
  { s with clients := fun c =>
      if c ∈ s.watchedKeys wk then { s.clients c with dirtyCas := true } else s.clients c }

def discardTransaction (s : Store Obj Cmd) (c : Nat) : Store Obj Cmd :=
  unwatchAllKeys
    (s.setClient c { s.clients c with
      multi := false, dirtyCas := false, dirtyExec := false, mstate := [] }) c

/-- `call` of a command that is not about transactions. -/
def runCommand (K : Commands Obj Cmd) (s : Store Obj Cmd) (c : Nat) (cmd : Cmd) : Store Obj Cmd :=
  let r := K.run (s.clients c).db cmd s.dbs
  r.2.1.foldl touchWatchedKey
    { s.setClient c { s.clients c with db := r.2.2 } with dbs := r.1 }

/-- `execCommand`. -/
def execCommand (K : Commands Obj Cmd) (s : Store Obj Cmd) (c : Nat) : Store Obj Cmd :=
  if ¬ (s.clients c).multi then s
  else if (s.clients c).dirtyCas ∨ (s.clients c).dirtyExec then discardTransaction s c
  else
    discardTransaction
      ((s.clients c).mstate.foldl
        (fun s cmd => runCommand K { s with executed := s.executed ++ [(c, cmd)] } c cmd)
        (unwatchAllKeys s c)) c

/-! ## The system -/

inductive WatchAct (Cmd : Type)
  | watch (c : Nat) (keys : List Bytes)
  | unwatch (c : Nat)
  | multi (c : Nat)
  | command (c : Nat) (cmd : Cmd)
  | refused (c : Nat)
  | exec (c : Nat)
  | discard (c : Nat)
  | merge (env : MergeEnv) (db : Nat) (argv : Argv)
  | mergeDel (db : Nat) (argv : Argv)
  | peersChange (server : CrdtServer)

/-! ## The tables of watched keys

The lists of the databases and those of the clients say the same. -/

structure Tables (s : Store Obj Cmd) : Prop where
  mem : ∀ c wk, c ∈ s.watchedKeys wk ↔ wk ∈ (s.clients c).watchedKeys
  nodup : ∀ wk, (s.watchedKeys wk).Nodup

section tables

variable {s : Store Obj Cmd} {c : Nat}

theorem tables_setClient (h : Tables s) {x : TxnClient Cmd}
    (hx : x.watchedKeys = (s.clients c).watchedKeys) : Tables (s.setClient c x) := by
  refine ⟨fun c' wk => ?_, h.nodup⟩
  show c' ∈ s.watchedKeys wk ↔ wk ∈ (update s.clients c x c').watchedKeys
  rw [h.mem]
  by_cases hc : c' = c
  · subst hc
    rw [update_self, hx]
  · rw [update_of_ne hc]

/-- What `unwatchAllKeys` leaves of the lists of the databases. -/
theorem mem_foldl_erase (wks : List (Nat × Bytes)) {t : Nat × Bytes → List Nat}
    (hnodup : ∀ wk, (t wk).Nodup) :
    let t' := wks.foldl (fun t wk => update t wk ((t wk).erase c)) t
    (∀ wk, (t' wk).Nodup) ∧ ∀ c' wk, c' ∈ t' wk ↔ c' ∈ t wk ∧ ¬ (c' = c ∧ wk ∈ wks) := by
  induction wks generalizing t with
  | nil => exact ⟨hnodup, by simp⟩
  | cons wk₀ wks ih =>
    have hfirst : ∀ wk, (update t wk₀ ((t wk₀).erase c) wk).Nodup := by
      intro wk
      by_cases hwk : wk = wk₀
      · subst hwk
        rw [update_self]
        exact (hnodup wk).erase c
      · rw [update_of_ne hwk]
        exact hnodup wk
    obtain ⟨hnodup', hmem⟩ := ih hfirst
    refine ⟨hnodup', fun c' wk => (hmem c' wk).trans ?_⟩
    by_cases hwk : wk = wk₀
    · subst hwk
      rw [update_self, (hnodup wk).mem_erase_iff]
      simp only [mem_cons, true_or, and_true]
      tauto
    · rw [update_of_ne hwk]
      simp [hwk]

theorem tables_unwatchAllKeys (h : Tables s) (c : Nat) : Tables (unwatchAllKeys s c) := by
  obtain ⟨hnodup, hmem⟩ := mem_foldl_erase (c := c) (s.clients c).watchedKeys h.nodup
  refine ⟨fun c' wk => (hmem c' wk).trans ?_, hnodup⟩
  show _ ↔ wk ∈ (update s.clients c { s.clients c with watchedKeys := [] } c').watchedKeys
  rw [h.mem]
  by_cases hc : c' = c
  · subst hc
    rw [update_self]
    simp
  · rw [update_of_ne hc]
    simp [hc]

theorem tables_watchForKey (h : Tables s) (c : Nat) (key : Bytes) :
    Tables (watchForKey s c key) := by
  unfold watchForKey
  dsimp only
  generalize ((s.clients c).db, key) = wk₀
  split
  · exact h
  · rename_i hnew
    refine ⟨fun c' wk => ?_, fun wk => ?_⟩
    · show c' ∈ update s.watchedKeys wk₀ (s.watchedKeys wk₀ ++ [c]) wk ↔ wk ∈ (update s.clients c
          { s.clients c with watchedKeys := (s.clients c).watchedKeys ++ [wk₀] } c').watchedKeys
      have hold := h.mem c' wk
      by_cases hwk : wk = wk₀ <;> by_cases hc : c' = c
      · subst hwk hc
        simp
      · subst hwk
        rw [update_self, update_of_ne hc]
        simpa [hc] using hold
      · subst hc
        rw [update_of_ne hwk, update_self]
        simpa [hwk] using hold
      · rw [update_of_ne hwk, update_of_ne hc]
        exact hold
    · show (update s.watchedKeys wk₀ (s.watchedKeys wk₀ ++ [c]) wk).Nodup
      by_cases hwk : wk = wk₀
      · subst hwk
        rw [update_self, nodup_append]
        refine ⟨h.nodup wk, nodup_singleton c, fun a ha b hb hab => ?_⟩
        rw [mem_singleton] at hb
        subst hb hab
        exact hnew ((h.mem a wk).1 ha)
      · rw [update_of_ne hwk]
        exact h.nodup wk

end tables

/-- All keys are signalled at once. -/
theorem foldl_touchWatchedKey (wks : List (Nat × Bytes)) (s : Store Obj Cmd) :
    wks.foldl touchWatchedKey s = { s with
      clients := fun c =>
        if wks.any fun wk => c ∈ s.watchedKeys wk then { s.clients c with dirtyCas := true }
        else s.clients c } := by
  induction wks generalizing s with
  | nil => rfl
  | cons wk wks ih =>
    rw [foldl_cons, ih]
    unfold touchWatchedKey
    simp only [Store.mk.injEq, true_and, and_true]
    funext c
    by_cases hc : c ∈ s.watchedKeys wk
    · simp [hc]
    · simp only [if_neg hc, any_cons, decide_eq_false hc, Bool.false_or]

/-! ## What is kept -/

/-- The tables are right, and who missed a change is marked. -/
structure Good (s : Store Obj Cmd) : Prop extends Tables s where
  seen : ∀ c, s.changed c = true → (s.clients c).dirtyCas = true

/-- Nothing happens to the watched keys, and no mark is taken away. -/
structure OnlyMarks (s s' : Store Obj Cmd) : Prop where
  tables : s'.watchedKeys = s.watchedKeys
  watched : ∀ c, (s'.clients c).watchedKeys = (s.clients c).watchedKeys
  marks : ∀ c, (s.clients c).dirtyCas = true → (s'.clients c).dirtyCas = true
  changed : s'.changed = s.changed

namespace OnlyMarks

variable {s s' s'' : Store Obj Cmd}

theorem trans (h : OnlyMarks s s') (h' : OnlyMarks s' s'') : OnlyMarks s s'' :=
  ⟨h'.tables.trans h.tables, fun c => (h'.watched c).trans (h.watched c),
    fun c hc => h'.marks c (h.marks c hc), h'.changed.trans h.changed⟩

theorem good (h : OnlyMarks s s') (hs : Good s) : Good s' := by
  refine ⟨⟨fun c wk => ?_, fun wk => ?_⟩, fun c hc => ?_⟩
  · rw [h.tables, h.watched]
    exact hs.mem c wk
  · rw [h.tables]
    exact hs.nodup wk
  · rw [h.changed] at hc
    exact h.marks c (hs.seen c hc)

theorem setClient {c : Nat} {x : TxnClient Cmd} (hw : x.watchedKeys = (s.clients c).watchedKeys)
    (hd : x.dirtyCas = (s.clients c).dirtyCas) : OnlyMarks s (s.setClient c x) := by
  have hother : ∀ c', (update s.clients c x c').watchedKeys = (s.clients c').watchedKeys ∧
      (update s.clients c x c').dirtyCas = (s.clients c').dirtyCas := by
    intro c'
    by_cases hc : c' = c
    · subst hc
      rw [update_self]
      exact ⟨hw, hd⟩
    · rw [update_of_ne hc]
      exact ⟨rfl, rfl⟩
  exact ⟨rfl, fun c' => (hother c').1, fun c' hc' => (hother c').2.trans hc', rfl⟩

theorem touch (wks : List (Nat × Bytes)) (s : Store Obj Cmd) :
    OnlyMarks s (wks.foldl touchWatchedKey s) := by
  rw [foldl_touchWatchedKey]
  refine ⟨rfl, fun c => ?_, fun c hc => ?_, rfl⟩
  · dsimp only
    split <;> rfl
  · dsimp only
    split
    · rfl
    · exact hc

theorem runCommand (K : Commands Obj Cmd) (s : Store Obj Cmd) (c : Nat) (cmd : Cmd) :
    OnlyMarks s (runCommand K s c cmd) := by
  have hdb : OnlyMarks s
      { s.setClient c { s.clients c with db := (K.run (s.clients c).db cmd s.dbs).2.2 } with
        dbs := (K.run (s.clients c).db cmd s.dbs).1 } := by
    obtain ⟨h₁, h₂, h₃, h₄⟩ := OnlyMarks.setClient (s := s) (c := c)
      (x := { s.clients c with db := (K.run (s.clients c).db cmd s.dbs).2.2 }) rfl rfl
    exact ⟨h₁, h₂, h₃, h₄⟩
  exact hdb.trans (.touch _ _)

end OnlyMarks

variable {s : Store Obj Cmd} {c : Nat}

/-- A client that stops to watch may be unmarked. -/
theorem good_unwatchAllKeys (h : Good s) {x : TxnClient Cmd}
    (hx : x.watchedKeys = (s.clients c).watchedKeys) :
    Good (unwatchAllKeys (s.setClient c x) c) := by
  refine ⟨tables_unwatchAllKeys (tables_setClient h.toTables hx) c, fun c' hc' => ?_⟩
  by_cases hc : c' = c
  · subst hc
    rw [unwatchAllKeys] at hc'
    dsimp only at hc'
    rw [update_self] at hc'
    cases hc'
  · simp only [unwatchAllKeys, Store.setClient, update_of_ne hc] at hc' ⊢
    exact h.seen c' hc'

theorem good_discardTransaction (h : Good s) : Good (discardTransaction s c) :=
  good_unwatchAllKeys h rfl

theorem good_watchForKey (h : Good s) (key : Bytes) : Good (watchForKey s c key) := by
  refine ⟨tables_watchForKey h.toTables c key, fun c' hc' => ?_⟩
  have hmark : ∀ c', ((watchForKey s c key).clients c').dirtyCas = (s.clients c').dirtyCas ∧
      (watchForKey s c key).changed = s.changed := by
    intro c'
    unfold watchForKey
    dsimp only
    split
    · exact ⟨rfl, rfl⟩
    · refine ⟨?_, rfl⟩
      by_cases hc : c' = c
      · subst hc
        simp [Store.setClient]
      · simp [Store.setClient, update_of_ne hc]
  rw [(hmark c').2] at hc'
  rw [(hmark c').1]
  exact h.seen c' hc'

theorem good_execCommand (K : Commands Obj Cmd) (h : Good s) : Good (execCommand K s c) := by
  unfold execCommand
  split
  · exact h
  split
  · exact good_discardTransaction h
  · have hunwatched : Good (unwatchAllKeys s c) := by
      have hself : s.setClient c (s.clients c) = s := by
        rw [Store.setClient, update_eq_self]
      have := good_unwatchAllKeys (c := c) (x := s.clients c) h rfl
      rwa [hself] at this
    -- the queue only marks other clients
    have hqueue : ∀ (queue : List Cmd) (s : Store Obj Cmd), Good s → Good (queue.foldl
          (fun s cmd => runCommand K { s with executed := s.executed ++ [(c, cmd)] } c cmd) s) := by
      intro queue
      induction queue with
      | nil => exact fun s hs => hs
      | cons cmd queue ih =>
        intro s hs
        have hlogged : Good { s with executed := s.executed ++ [(c, cmd)] } :=
          ⟨⟨hs.mem, hs.nodup⟩, hs.seen⟩
        exact ih _ ((OnlyMarks.runCommand K _ c cmd).good hlogged)
    exact good_discardTransaction (hqueue _ _ hunwatched)

/-- A transaction that is marked runs nothing. -/
theorem execCommand_of_dirty (K : Commands Obj Cmd) {s : Store Obj Cmd} {c : Nat}
    (h : (s.clients c).dirtyCas = true) :
    (execCommand K s c).executed = s.executed ∧ (execCommand K s c).dbs = s.dbs := by
  unfold execCommand
  split
  · exact ⟨rfl, rfl⟩
  · rw [if_pos (.inl h)]
    exact ⟨rfl, rfl⟩

/-! ## What a merge touches -/

section touches

variable {M : Module Obj} {env : MergeEnv} {t : CrdtServer} {db : Db Obj} {gidText key : Bytes}
  {obj : Obj} {expireTime : Int}

/-- The merge concerns one key, and signals the text if it succeeds. -/
structure Touches (db : Db Obj) (key gidText : Bytes) (r : Merged Obj) : Prop where
  others : ∀ k, k ≠ key → r.db.dict k = db.dict k
  signals : (r.exit = .done ∧ r.signalled = [gidText]) ∨ (r.exit = .error ∧ r.signalled = [])

theorem touches_finish {db' : Db Obj} (h : ∀ k, k ≠ key → db'.dict k = db.dict k) :
    Touches db key gidText (finish t db' [gidText]) := ⟨h, .inl ⟨rfl, rfl⟩⟩

theorem touches_refuse {db' : Db Obj} (h : ∀ k, k ≠ key → db'.dict k = db.dict k) :
    Touches db key gidText (refuse t db') := ⟨h, .inr ⟨rfl, rfl⟩⟩

theorem putValue_dict_of_ne {db' : Db Obj} (h : ∀ k, k ≠ key → db'.dict k = db.dict k)
    (val : Option Obj) : ∀ k, k ≠ key → (putValue db' key val expireTime).dict k = db.dict k := by
  intro k hk
  rw [← h k hk]
  unfold putValue
  split
  · rfl
  · split <;> exact update_of_ne hk ..

theorem touches_storeMerged {db' : Db Obj} (h : ∀ k, k ≠ key → db'.dict k = db.dict k)
    (val : Obj) : Touches db key gidText (storeMerged M t db' gidText key val expireTime) := by
  unfold storeMerged
  split
  · exact touches_finish (putValue_dict_of_ne h _)
  · split
    · have hset : ∀ tombstone k, k ≠ key → (db'.setTombstone key tombstone).dict k = db.dict k :=
        fun _ => h
      split
      · exact touches_finish (putValue_dict_of_ne (hset _) _)
      · exact touches_refuse h
    · exact touches_finish (putValue_dict_of_ne h _)

theorem expireIfNeeded_dict_of_ne (iAmMaster : Bool) :
    ∀ k, k ≠ key → (expireIfNeeded M env iAmMaster db key).dict k = db.dict k := by
  intro k hk
  unfold expireIfNeeded deleteExpired
  split
  · split
    · rfl
    · exact update_of_ne hk ..
  · rfl

theorem touches_mergeObject :
    Touches db key gidText (mergeObject M env t db gidText key obj expireTime) := by
  have hlookup : ∀ k, k ≠ key → (expireIfNeeded M env t.iAmMaster db key).dict k = db.dict k :=
    expireIfNeeded_dict_of_ne t.iAmMaster
  unfold mergeObject
  dsimp only
  split
  · split
    · split
      · refine touches_storeMerged (fun k hk => ?_) _
        rw [← hlookup k hk]
        exact update_of_ne hk ..
      · exact touches_refuse hlookup
    · exact touches_storeMerged hlookup _
  · exact touches_refuse hlookup

/-- `CRDT.Merge_Del` signals nothing; it has no effect on values of other keys, nor on
its own if there is none. -/
theorem mergeTombstoneObject_touches (M : Module Obj) (t : CrdtServer) (db : Db Obj) (key : Bytes)
    (obj : Obj) :
    (mergeTombstoneObject M t db key obj).signalled = [] ∧
      (∀ k, k ≠ key → (mergeTombstoneObject M t db key obj).db.dict k = db.dict k) ∧
      (db.dict key = none → (mergeTombstoneObject M t db key obj).db.dict key = none) := by
  have hpurge : ∀ (db' : Db Obj) tombstone, db'.dict = db.dict →
      (purgeValue M t db' key tombstone).signalled = [] ∧
      (∀ k, k ≠ key → (purgeValue M t db' key tombstone).db.dict k = db.dict k) ∧
      (db.dict key = none → (purgeValue M t db' key tombstone).db.dict key = none) := by
    intro db' tombstone hdb'
    unfold purgeValue
    rw [hdb']
    cases hval : db.dict key with
    | none => exact ⟨rfl, fun k _ => congrFun hdb' k, fun _ => (congrFun hdb' key).trans hval⟩
    | some current =>
      dsimp only
      refine ⟨?_, fun k hk => ?_, fun h => by cases h⟩
      · repeat' split
        all_goals rfl
      · have hadd : ∀ val, (db'.add key val).dict k = db.dict k := fun val =>
          (update_of_ne hk ..).trans (congrFun hdb' k)
        split
        · split
          · split
            · exact (update_of_ne hk ..).trans (congrFun hdb' k)
            · exact hadd _
            · exact hadd _
          · exact congrFun hdb' k
        · exact congrFun hdb' k
  unfold mergeTombstoneObject
  split
  · split
    · split
      · exact hpurge _ _ rfl
      · exact ⟨rfl, fun _ _ => rfl, id⟩
    · exact ⟨rfl, fun _ _ => rfl, id⟩
  · exact hpurge _ _ rfl

end touches

/-! ## Merges that are seen -/

/-- The step is not a merge whose key, or whose gid taken as a key, is watched, unless
it gets it right: the key is the text of the gid, or there is no value to be purged. -/
def MergeSeen (M : Module Obj) (s : Store Obj Cmd) : WatchAct Cmd → Prop
  | .merge env db argv => ∀ gidText key obj expireTime,
      MergeAccepted M s.server argv gidText key obj expireTime →
      (gidText = key ∧ MergeKeepsWhen M env s.server (s.dbs db) key obj) ∨
        (s.watchedKeys (db, key) = [] ∧ s.watchedKeys (db, gidText) = [])
  | .mergeDel db argv => ∀ key obj, MergeDelAccepted M s.server argv key obj →
      s.watchedKeys (db, key) = [] ∨ (s.dbs db).dict key = none
  | _ => True

/-- The databases and keys for which a merge may have an effect on a watching client:
its own key. -/
def mergedKey : WatchAct Cmd → Option (Nat × Bytes)
  | .merge _ db argv => argv[2]?.map fun key => (db, key)
  | .mergeDel db argv => argv[2]?.map fun key => (db, key)
  | _ => none

/-- What is asked of the result of a merge: values change under signalled keys only,
but for keys that nobody watches, and the other way around only the key of the merge
is signalled. -/
structure SignalsRightly (s : Store Obj Cmd) (db : Nat) (key : Option Bytes) (r : Merged Obj) :
    Prop where
  changes : ∀ k, r.db.dict k ≠ (s.dbs db).dict k → k ∈ r.signalled ∨ s.watchedKeys (db, k) = []
  signals : ∀ k ∈ r.signalled, key = some k ∨ s.watchedKeys (db, k) = []

theorem refused_signalsRightly (s : Store Obj Cmd) (db : Nat) (key : Option Bytes)
    (server : CrdtServer) : SignalsRightly s db key (refuse server (s.dbs db)) :=
  ⟨fun _ hk => absurd rfl hk, fun _ hk => absurd hk not_mem_nil⟩

theorem merge_signalsRightly {M : Module Obj} {s : Store Obj Cmd} {env : MergeEnv} {db : Nat}
    {argv : Argv} {r : Merged Obj} (hok : MergeSeen M s (.merge env db argv))
    (h : (mergeCrdtObjectCommand M env s.server (s.dbs db) argv).result = .ok r) :
    SignalsRightly s db argv[2]? r := by
  rcases mergeCrdtObjectCommand_ok h with ⟨s', rfl, -⟩ | ⟨gidText, key, obj, time, hacc, rfl⟩
  · exact refused_signalsRightly s db _ s'
  have htouch : Touches (s.dbs db) key gidText
      (mergeObject M env s.server (s.dbs db) gidText key obj time) := touches_mergeObject
  have hkey : argv[2]? = some key := hacc.2.1
  rcases hok gidText key obj time hacc with ⟨rfl, hkeeps⟩ | ⟨hunwatched, hgid⟩
  · -- the text that is signalled is the key
    rcases htouch.signals with ⟨-, hsig⟩ | ⟨hexit, hsig⟩
    · refine ⟨fun k hk => .inl ?_, fun k hk => .inl ?_⟩
      · rw [hsig, mem_singleton]
        by_contra hne
        exact hk (htouch.others k hne)
      · rw [hsig, mem_singleton] at hk
        rw [hk]
        exact hkey
    · have hsame := (mergeObject_keeps.2 hkeeps hexit).1
      refine ⟨fun k hk => ?_, fun k hk => ?_⟩
      · rw [hsame] at hk
        exact absurd rfl hk
      · rw [hsig] at hk
        cases hk
  · refine ⟨fun k hk => .inr ?_, fun k hk => .inr ?_⟩
    · by_cases hk' : k = key
      · rw [hk', hunwatched]
      · exact absurd (htouch.others k hk') hk
    · rcases htouch.signals with ⟨-, hsig⟩ | ⟨-, hsig⟩
      · rw [hsig, mem_singleton] at hk
        rw [hk, hgid]
      · rw [hsig] at hk
        cases hk

theorem mergeDel_signalsRightly {M : Module Obj} {s : Store Obj Cmd} {db : Nat}
    {argv : Argv} {r : Merged Obj} (hok : MergeSeen M s (.mergeDel db argv))
    (h : (crdtMergeTomstoneCommand M s.server (s.dbs db) argv).result = .ok r) :
    SignalsRightly s db argv[2]? r := by
  rcases crdtMergeTomstoneCommand_ok h with ⟨s', rfl, -⟩ | ⟨key, obj, hacc, rfl⟩
  · exact refused_signalsRightly s db _ s'
  obtain ⟨hsig, hothers, hnone⟩ := mergeTombstoneObject_touches M s.server (s.dbs db) key obj
  refine ⟨fun k hk => .inr ?_, fun k hk => ?_⟩
  · by_cases hk' : k = key
    · subst hk'
      rcases hok k obj hacc with hunwatched | hnovalue
      · exact hunwatched
      · exact absurd ((hnone hnovalue).trans hnovalue.symm) hk
    · exact absurd (hothers k hk') hk
  · rw [hsig] at hk
    cases hk

/-! ## The steps -/

variable [DecidableEq Obj]

/-- The value of a key that the client watches is another one in `dbs'`. -/
def sawChange (s : Store Obj Cmd) (dbs' : Nat → Db Obj) (c : Nat) : Bool :=
  (s.clients c).watchedKeys.any fun wk => (s.dbs wk.1).dict wk.2 ≠ (dbs' wk.1).dict wk.2

/-- What is left of a merge in the database `db`. -/
def applyMerge (s : Store Obj Cmd) (db : Nat) (r : Merged Obj) : Store Obj Cmd :=
  let dbs' := update s.dbs db r.db
  (r.signalled.map fun key => (db, key)).foldl touchWatchedKey
    { s with
      server := r.server
      dbs := dbs'
      changed := fun c => s.changed c || sawChange s dbs' c }

/-- A merge that ends in a fault has no next state. `UNWATCH` in a transaction is
queued as any other command. -/
def watchNext (M : Module Obj) (K : Commands Obj Cmd) (s : Store Obj Cmd) :
    WatchAct Cmd → Option (Store Obj Cmd)
  | .watch c keys =>
    if (s.clients c).multi then some s
    else some (keys.foldl (fun s key => watchForKey s c key) s)
  | .unwatch c =>
    if (s.clients c).multi then none
    else some (unwatchAllKeys (s.setClient c { s.clients c with dirtyCas := false }) c)
  | .multi c => some (s.setClient c { s.clients c with multi := true })
  | .command c cmd =>
    if (s.clients c).multi then
      some (s.setClient c { s.clients c with mstate := (s.clients c).mstate ++ [cmd] })
    else some (runCommand K s c cmd)
  | .refused c =>
    some (s.setClient c { s.clients c with
      dirtyExec := (s.clients c).dirtyExec || (s.clients c).multi })
  | .exec c => some (execCommand K s c)
  | .discard c => if (s.clients c).multi then some (discardTransaction s c) else some s
  | .merge env db argv =>
    (mergeCrdtObjectCommand M env s.server (s.dbs db) argv).result.toOption.map (applyMerge s db)
  | .mergeDel db argv =>
    (crdtMergeTomstoneCommand M s.server (s.dbs db) argv).result.toOption.map (applyMerge s db)
  | .peersChange server => some { s with server := server }

/-- Nobody watches anything. -/
def Unwatched (s : Store Obj Cmd) : Prop :=
  (∀ wk, s.watchedKeys wk = []) ∧ (∀ c, (s.clients c).watchedKeys = []) ∧
    ∀ c, s.changed c = false

def watching (M : Module Obj) (K : Commands Obj Cmd) :
    Lib.System (Store Obj Cmd) (WatchAct Cmd) where
  init := Unwatched
  next := watchNext M K

/-- Who gets marked by a merge. -/
theorem applyMerge_dirtyCas (s : Store Obj Cmd) (db : Nat) (r : Merged Obj) (c : Nat) :
    ((applyMerge s db r).clients c).dirtyCas =
      ((s.clients c).dirtyCas || r.signalled.any fun k => c ∈ s.watchedKeys (db, k)) := by
  unfold applyMerge
  dsimp only
  rw [foldl_touchWatchedKey]
  simp only [any_map, comp_def]
  split
  · rename_i hany
    simp [hany]
  · rename_i hany
    simp [Bool.eq_false_iff.2 hany]

theorem good_applyMerge {s : Store Obj Cmd} {db : Nat} {key : Option Bytes} {r : Merged Obj}
    (hs : Good s) (h : SignalsRightly s db key r) : Good (applyMerge s db r) := by
  have hmarks := OnlyMarks.touch (r.signalled.map fun key => (db, key)) { s with
      server := r.server
      dbs := update s.dbs db r.db
      changed := fun c => s.changed c || sawChange s (update s.dbs db r.db) c }
  refine ⟨⟨fun c wk => ?_, fun wk => ?_⟩, fun c hc => ?_⟩
  · rw [applyMerge, hmarks.tables, hmarks.watched]
    exact hs.mem c wk
  · rw [applyMerge, hmarks.tables]
    exact hs.nodup wk
  · rw [applyMerge, hmarks.changed] at hc
    rw [applyMerge_dirtyCas, Bool.or_eq_true]
    dsimp only at hc
    rw [Bool.or_eq_true] at hc
    rcases hc with hold | hnew
    · exact .inl (hs.seen c hold)
    · right
      obtain ⟨⟨d, k⟩, hwatched, hne⟩ := any_eq_true.1 hnew
      have hne : (s.dbs d).dict k ≠ (update s.dbs db r.db d).dict k := by
        simpa using hne
      by_cases hd : d = db
      · subst hd
        rw [update_self] at hne
        have hmem := (hs.mem c (d, k)).2 hwatched
        rcases h.changes k (Ne.symm hne) with hsig | hnobody
        · exact any_eq_true.2 ⟨k, hsig, by simpa using hmem⟩
        · rw [hnobody] at hmem
          cases hmem
      · rw [update_of_ne hd] at hne
        exact absurd rfl hne

/-! ## Every run -/

theorem good_watchNext {M : Module Obj} {K : Commands Obj Cmd} {s s' : Store Obj Cmd}
    {a : WatchAct Cmd} (hs : Good s) (hok : MergeSeen M s a) (h : watchNext M K s a = some s') :
    Good s' := by
  cases a with
  | watch c keys =>
    simp only [watchNext] at h
    split at h
    · cases h
      exact hs
    · cases h
      -- one key after the other
      have hkeys : ∀ (keys : List Bytes) (s : Store Obj Cmd), Good s →
          Good (keys.foldl (fun s key => watchForKey s c key) s) := by
        intro keys
        induction keys with
        | nil => exact fun s hs => hs
        | cons key keys ih => exact fun s hs => ih _ (good_watchForKey hs key)
      exact hkeys keys s hs
  | unwatch c =>
    simp only [watchNext] at h
    split at h
    · cases h
    · cases h
      exact good_unwatchAllKeys hs rfl
  | multi c =>
    cases h
    refine OnlyMarks.good (OnlyMarks.setClient ?_ ?_) hs <;> rfl
  | command c cmd =>
    simp only [watchNext] at h
    split at h
    · cases h
      refine OnlyMarks.good (OnlyMarks.setClient ?_ ?_) hs <;> rfl
    · cases h
      exact (OnlyMarks.runCommand K s c cmd).good hs
  | refused c =>
    cases h
    refine OnlyMarks.good (OnlyMarks.setClient ?_ ?_) hs <;> rfl
  | exec c =>
    cases h
    exact good_execCommand K hs
  | discard c =>
    simp only [watchNext] at h
    split at h
    · cases h
      exact good_discardTransaction hs
    · cases h
      exact hs
  | merge env db argv =>
    obtain ⟨r, hr, rfl⟩ := Option.map_eq_some_iff.1 h
    exact good_applyMerge hs (merge_signalsRightly hok (Trace.toOption_eq_some.1 hr))
  | mergeDel db argv =>
    obtain ⟨r, hr, rfl⟩ := Option.map_eq_some_iff.1 h
    exact good_applyMerge hs (mergeDel_signalsRightly hok (Trace.toOption_eq_some.1 hr))
  | peersChange server =>
    cases h
    exact ⟨⟨hs.mem, hs.nodup⟩, hs.seen⟩

/-- A merge marks only clients that watch its key. -/
theorem marks_watchers_only {M : Module Obj} {K : Commands Obj Cmd} {s s' : Store Obj Cmd}
    {a : WatchAct Cmd} {wk : Nat × Bytes} (hs : Good s) (hok : MergeSeen M s a)
    (h : watchNext M K s a = some s') (hkey : mergedKey a = some wk) {c : Nat}
    (hc : wk ∉ (s.clients c).watchedKeys) :
    (s'.clients c).dirtyCas = (s.clients c).dirtyCas := by
  have hmerge : ∀ (db : Nat) (key : Option Bytes) (r : Merged Obj), SignalsRightly s db key r →
      key.map (fun key => (db, key)) = some wk →
      ((applyMerge s db r).clients c).dirtyCas = (s.clients c).dirtyCas := by
    intro db key r hr hwk
    rw [applyMerge_dirtyCas, Bool.or_eq_left_iff_imp, any_eq_true]
    rintro ⟨k, hk, hmem⟩
    have hmem : c ∈ s.watchedKeys (db, k) := by simpa using hmem
    rcases hr.signals k hk with rfl | hnobody
    · cases hwk
      exact absurd ((hs.mem c (db, k)).1 hmem) hc
    · rw [hnobody] at hmem
      cases hmem
  cases a with
  | merge env db argv =>
    obtain ⟨r, hr, rfl⟩ := Option.map_eq_some_iff.1 h
    exact hmerge db _ r (merge_signalsRightly hok (Trace.toOption_eq_some.1 hr)) hkey
  | mergeDel db argv =>
    obtain ⟨r, hr, rfl⟩ := Option.map_eq_some_iff.1 h
    exact hmerge db _ r (mergeDel_signalsRightly hok (Trace.toOption_eq_some.1 hr)) hkey
  | _ => cases hkey

/-- The clients see what merges do: one for whom a merge has changed a watched key is
marked and its `EXEC` runs nothing, and the next merge, if it is one that `ok` permits,
does not mark a client that does not watch its key. -/
def SeesMerges (M : Module Obj) (K : Commands Obj Cmd)
    (ok : Store Obj Cmd → WatchAct Cmd → Prop) (s : Store Obj Cmd) : Prop :=
  (∀ c, s.changed c = true → (s.clients c).dirtyCas = true ∧
    ∀ s', (watching M K).next s (.exec c) = some s' →
      s'.executed = s.executed ∧ s'.dbs = s.dbs) ∧
  ∀ a s' wk, ok s a → (watching M K).next s a = some s' → mergedKey a = some wk →
    ∀ c, wk ∉ (s.clients c).watchedKeys → (s'.clients c).dirtyCas = (s.clients c).dirtyCas

/-- Optimistic transactions see the merges of peers in every run whose merges are of
the kind above. -/
theorem merges_seen_by_watchers (M : Module Obj) (K : Commands Obj Cmd) {s : Store Obj Cmd}
    (h : (watching M K).Reachable (MergeSeen M) s) : SeesMerges M K (MergeSeen M) s := by
  have hgood : Good s := by
    refine h.invariant (fun t ht => ?_)
      (fun t a t' hgood hok hnext => good_watchNext hgood hok hnext)
    obtain ⟨htables, hclients, hchanged⟩ := ht
    refine ⟨⟨fun c wk => ?_, fun wk => ?_⟩, fun c hc => ?_⟩
    · rw [htables, hclients]
      simp
    · rw [htables]
      exact nodup_nil
    · rw [hchanged] at hc
      cases hc
  refine ⟨fun c hc => ?_, fun a s' wk hok hnext hkey c hc => ?_⟩
  · have hdirty := hgood.seen c hc
    refine ⟨hdirty, fun s' hs' => ?_⟩
    cases hs'
    exact execCommand_of_dirty K hdirty
  · exact marks_watchers_only hgood hok hnext hkey hc

/-- Numbers that grow: a payload stands for its length. -/
def lengths : Module Nat where
  load := fun payload => .object payload.length
  type := fun _ => 0
  getDataType := fun _ => 0
  isData := fun _ => true
  isTombstone := fun _ => false
  objectMethod := fun _ => true
  tombstoneMethod := fun _ => false
  merge := fun current new => max (current.getD 0) new
  mergeTombstone := max
  purge := fun tombstone val => (.neither, tombstone, val)
  propagateDel := fun _ tombstone => tombstone

def noCommands : Commands Nat Unit where
  run := fun db _ dbs => (dbs, [], db)

/-- A node with the peer 2 and no keys. -/
def emptyStore : Store Nat Unit where
  server := peeredNode
  dbs := fun _ => emptyDb
  watchedKeys := fun _ => []
  clients := fun _ => ⟨0, [], false, false, false, []⟩
  executed := []
  changed := fun _ => false

theorem emptyStore_unwatched : Unwatched emptyStore := ⟨fun _ => rfl, fun _ => rfl, fun _ => rfl⟩

/-- `CRDT.Merge 2 2 abc -1`: the peer 2 sends a key that is called `2`. -/
theorem merges_seen_key_two :
    ∃ s : Store Nat Unit, s.changed 7 = true ∧ (s.clients 7).dirtyCas = true ∧
      SeesMerges lengths noCommands (MergeSeen lengths) s := by
  let env : MergeEnv := ⟨0, false, true⟩
  let argv := [ascii "CRDT.Merge", ascii "2", ascii "2", ascii "abc", ascii "-1"]
  have hwatch : (watching lengths noCommands).Reachable (MergeSeen lengths)
      (watchForKey emptyStore 7 (ascii "2")) :=
    .step (.init emptyStore_unwatched) (a := .watch 7 [ascii "2"]) trivial rfl
  have hok : MergeSeen lengths (watchForKey emptyStore 7 (ascii "2")) (.merge env 0 argv) := by
    intro gidText key obj expireTime hacc
    have hgid : ascii "2" = gidText := Option.some.inj hacc.1
    have hkey : ascii "2" = key := Option.some.inj hacc.2.1
    subst hgid hkey
    refine .inl ⟨rfl, fun _ => ⟨rfl, fun val hval => ?_⟩, fun _ _ current hcurrent => ?_⟩
    · cases hval
    · cases hcurrent
  have hrun : ((watching lengths noCommands).next (watchForKey emptyStore 7 (ascii "2"))
      (.merge env 0 argv)).any (fun s => s.changed 7) = true := by decide +kernel
  obtain ⟨s, hs, hchanged⟩ := (Option.any_eq_true _ _).1 hrun
  have hsees := merges_seen_by_watchers lengths noCommands (.step hwatch hok hs)
  exact ⟨s, hchanged, (hsees.1 7 hchanged).1, hsees⟩

/-- `CRDT.Merge 2 k abc -1` changes the key that client 7 watches and leaves the client
unmarked. -/
theorem merge_unseen_by_watcher :
    ¬ ∀ (Obj Cmd : Type) (_ : DecidableEq Obj) (M : Module Obj) (K : Commands Obj Cmd) s,
      (watching M K).Reachable Lib.System.anyStep s → SeesMerges M K Lib.System.anyStep s := by
  intro h
  have hrun : (((watching lengths noCommands).run emptyStore
      [.watch 7 [ascii "k"], .multi 7, .command 7 (), .merge ⟨0, false, true⟩ 0
          [ascii "CRDT.Merge", ascii "2", ascii "k", ascii "abc", ascii "-1"]]).any fun s =>
      s.changed 7 && !(s.clients 7).dirtyCas) = true := by decide +kernel
  obtain ⟨s, hs, hshape⟩ := (Option.any_eq_true _ _).1 hrun
  rw [Bool.and_eq_true] at hshape
  have hreach := Lib.System.reachable_of_run (.init emptyStore_unwatched) hs
  have hmarked := ((h Nat Unit inferInstance lengths noCommands s hreach).1 7 hshape.1).1
  rw [hmarked] at hshape
  exact absurd hshape.2 (by decide)

end XredisCrdt.Merge
