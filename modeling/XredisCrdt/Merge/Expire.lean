import XredisCrdt.Merge.Stream

/-!
# The expire of a merged key

`CRDT.Merge` carries the expire of the sender, with -1 for none. The handler takes the later of it
and of the expire that the key has, deletes the key and adds it again. The comparison is that of
numbers, in which -1 is not the least: a key with an expire below -1 loses it to a message
without one.
-/

namespace XredisCrdt.Merge

open Peer Function List

variable {Obj : Type}

/-- A message and the circumstances in which it is executed. -/
structure MergeCall where
  env : MergeEnv
  argv : Argv

/-- The expire that the message carries. -/
def MergeCall.expire (c : MergeCall) : Int := (c.argv[4]?.bind string2ll).getD (-1)

/-- The messages one after the other. -/
def mergeAll (M : Module Obj) :
    CrdtServer → Db Obj → List MergeCall → Trace (CrdtServer × Db Obj)
  | s, db, [] => pure (s, db)
  | s, db, c :: rest => do
    let m ← mergeCrdtObjectCommand M c.env s db c.argv
    mergeAll M m.server m.db rest

/-- No message finds the value expired and deletes it. -/
def Undisturbed (M : Module Obj) (key : Bytes) : CrdtServer → Db Obj → List MergeCall → Prop
  | _, _, [] => True
  | s, db, c :: rest =>
    expiresNow c.env s.iAmMaster db key = false ∧
      ∀ m, (mergeCrdtObjectCommand M c.env s db c.argv).result = .ok m →
        Undisturbed M key m.server m.db rest

/-- What is assumed of the module: there are methods for the values of the type, and merges of
them are again of the type. -/
structure MergesWithin (M : Module Obj) (τ : Tags) : Prop where
  method : ∀ x, τ.IsValue M x → M.objectMethod x = true
  first : ∀ x, τ.IsValue M x → τ.IsValue M (M.merge none x)
  merge : ∀ v x, τ.IsValue M v → τ.IsValue M x → τ.IsValue M (M.merge (some v) x)

/-- The key has a value of the type or none, no expire without value, and no tombstone. -/
structure Ready (M : Module Obj) (τ : Tags) (key : Bytes) (db : Db Obj) : Prop where
  value : ∀ v ∈ db.dict key, τ.IsValue M v
  expires : db.dict key = none → db.expires key = none
  tombstone : db.deletedKeys key = none

/-- The message brings a value of the type to the key. -/
def MergeCall.Brings (M : Module Obj) (τ : Tags) (s : CrdtServer) (key : Bytes) (c : MergeCall) :
    Prop :=
  ∃ gidText x time, MergeAccepted M s c.argv gidText key x time ∧ τ.IsValue M x

/-! ## One message -/

/-- The expire of the key after a message. -/
def mergedExpire (et expireTime : Int) : Int := if et = -1 then expireTime else max et expireTime

theorem putValue_expire (db : Db Obj) (key : Bytes) (val : Obj) (expireTime : Int)
    (hnone : db.expires key = none) :
    (putValue db key (some val) expireTime).getExpire key = expireTime := by
  rw [putValue]
  split_ifs with h
  · show (db.expires key).getD (-1) = expireTime
    rw [hnone, h]
    rfl
  · show (update db.expires key (some expireTime) key).getD (-1) = expireTime
    rw [update_self]
    rfl

theorem putValue_ready {M : Module Obj} {τ : Tags} {db : Db Obj} {key : Bytes} {val : Obj}
    (hval : τ.IsValue M val) (htomb : db.deletedKeys key = none) (expireTime : Int) :
    Ready M τ key (putValue db key (some val) expireTime) := by
  have hdict : (putValue db key (some val) expireTime).dict key = some val := by
    rw [putValue]
    split_ifs
    · exact update_self _ _ _
    · exact update_self _ _ _
  refine ⟨?_, ?_, ?_⟩
  · intro v hv
    rw [hdict] at hv
    exact Option.some.inj hv ▸ hval
  · intro hnone
    rw [hdict] at hnone
    cases hnone
  · rw [putValue]
    split_ifs
    · exact htomb
    · exact htomb

section Step

variable {M : Module Obj} {τ : Tags} {s : CrdtServer} {db : Db Obj} {key : Bytes} {c : MergeCall}

theorem MergeCall.Brings.of_sameLinks {s' : CrdtServer} (hs : SameLinks s s')
    (h : c.Brings M τ s key) : c.Brings M τ s' key := by
  obtain ⟨gidText, x, time, ⟨h₁, h₂, h₄, h₃, gid, hgid, hyes, hsome⟩, hx⟩ := h
  refine ⟨gidText, x, time, ⟨h₁, h₂, h₄, h₃, gid, hgid, hyes, ?_⟩, hx⟩
  rw [peerAt, hs.crdtMasters]
  exact hsome

/-- The value is deleted with its expire and added again with the merged one. -/
theorem mergeObject_expire (hM : MergesWithin M τ) (hready : Ready M τ key db) {env : MergeEnv}
    (hexpire : expiresNow env s.iAmMaster db key = false) (gidText : Bytes) {x : Obj}
    (hx : τ.IsValue M x) (time : Int) :
    let m := mergeObject M env s db gidText key x time
    m.db.getExpire key = mergedExpire (db.getExpire key) time ∧ Ready M τ key m.db := by
  have hstore : ∀ (db' : Db Obj) (val : Obj), db'.expires key = none → db'.deletedKeys key = none →
      τ.IsValue M val →
      let m := storeMerged M s db' gidText key val (mergedExpire (db.getExpire key) time)
      m.db.getExpire key = mergedExpire (db.getExpire key) time ∧ Ready M τ key m.db := by
    intro db' val hexp htomb hval
    simp only [storeMerged, htomb]
    exact ⟨putValue_expire db' key val _ hexp, putValue_ready hval htomb _⟩
  show (mergeObject M env s db gidText key x time).db.getExpire key = _ ∧
    Ready M τ key (mergeObject M env s db gidText key x time).db
  rw [mergeObject, expireIfNeeded_of_false hexpire]
  simp only [hM.method x hx, if_true]
  cases hval : db.dict key with
  | none => exact hstore db _ (hready.expires hval) hready.tombstone (hM.first x hx)
  | some v =>
    have hv := hready.value v hval
    have hcheck : checkDataType M v x = true := by
      rw [checkDataType, hv.1, hv.2, hx.2, Bool.true_and, beq_self_eq_true]
    simp only [hcheck, if_true]
    refine hstore (db.delete key) _ ?_ hready.tombstone (hM.merge v x hv hx)
    exact update_self _ _ _

theorem mergeCrdtObjectCommand_expire (hM : MergesWithin M τ) (hready : Ready M τ key db)
    (hc : c.Brings M τ s key) (hexpire : expiresNow c.env s.iAmMaster db key = false) :
    ∃ m, (mergeCrdtObjectCommand M c.env s db c.argv).result = .ok m ∧
      m.db.getExpire key = mergedExpire (db.getExpire key) c.expire ∧ Ready M τ key m.db ∧
      SameLinks s m.server := by
  obtain ⟨gidText, x, time, haccept, hx⟩ := hc
  have htime : c.expire = time := by
    rw [MergeCall.expire, haccept.2.2.1]
    rfl
  obtain ⟨hexp, hready'⟩ := mergeObject_expire hM hready hexpire gidText hx time
  have hlive : db.getExpireAsserts key = true := by
    unfold Db.getExpireAsserts
    cases hval : db.dict key with
    | none =>
      rw [hready.expires hval]
      rfl
    | some v => exact Bool.or_true _
  refine ⟨_, mergeCrdtObjectCommand_of_accepted haccept hlive, ?_, hready', ?_⟩
  · rw [htime]
    exact hexp
  · exact (local_mergeObject gidText x time).links

end Step

/-! ## All messages -/

section Run

variable {M : Module Obj} {τ : Tags} {s : CrdtServer} {db : Db Obj} {key : Bytes}
  {calls : List MergeCall}

theorem mergeAll_expire (hM : MergesWithin M τ) (hready : Ready M τ key db)
    (hcalls : ∀ c ∈ calls, c.Brings M τ s key) (hun : Undisturbed M key s db calls) :
    ∃ s' db', (mergeAll M s db calls).result = .ok (s', db') ∧
      db'.getExpire key = (calls.map MergeCall.expire).foldl mergedExpire (db.getExpire key) := by
  induction calls generalizing s db with
  | nil => exact ⟨s, db, rfl, rfl⟩
  | cons c rest ih =>
    obtain ⟨hnow, hrest⟩ := hun
    obtain ⟨m, hm, hexp, hready', hlinks⟩ :=
      mergeCrdtObjectCommand_expire hM hready (hcalls c mem_cons_self) hnow
    obtain ⟨s', db', hrun, hexp'⟩ := ih hready'
      (fun c hc => (hcalls c (mem_cons_of_mem _ hc)).of_sameLinks hlinks) (hrest m hm)
    refine ⟨s', db', ?_, ?_⟩
    · rw [mergeAll, Trace.bind_of_ok hm]
      exact hrun
    · rw [hexp', hexp]
      rfl

/-- A key without a time to expire at is never found expired. -/
theorem undisturbed_of_neg (hM : MergesWithin M τ) (hready : Ready M τ key db)
    (hcalls : ∀ c ∈ calls, c.Brings M τ s key) (hneg : db.getExpire key < 0)
    (hnegs : ∀ c ∈ calls, c.expire < 0) : Undisturbed M key s db calls := by
  induction calls generalizing s db with
  | nil => trivial
  | cons c rest ih =>
    have hnow : expiresNow c.env s.iAmMaster db key = false := by
      rw [expiresNow]
      exact decide_eq_false fun h => absurd h.1 (by omega)
    refine ⟨hnow, fun m hm => ?_⟩
    obtain ⟨m', hm', hexp, hready', hlinks⟩ :=
      mergeCrdtObjectCommand_expire hM hready (hcalls c mem_cons_self) hnow
    obtain rfl : m' = m := Except.ok.inj (hm'.symm.trans hm)
    refine ih hready' (fun c hc => (hcalls c (mem_cons_of_mem _ hc)).of_sameLinks hlinks) ?_
      fun c hc => hnegs c (mem_cons_of_mem _ hc)
    have hc := hnegs c mem_cons_self
    rw [hexp, mergedExpire]
    split_ifs
    · exact hc
    · exact max_lt hneg hc

end Run

/-! ## The latest expire -/

/-- The greatest of the expires, where -1 is below all others. -/
def IsLatest (e : Int) (es : List Int) : Prop :=
  e ∈ es ∧ ∀ e' ∈ es, e' = -1 ∨ e ≠ -1 ∧ e' ≤ e

theorem IsLatest.unique {e e' : Int} {es : List Int} (h : IsLatest e es) (h' : IsLatest e' es) :
    e = e' := by
  rcases h.2 e' h'.1 with h₁ | ⟨h₁, hle⟩
  · rcases h'.2 e h.1 with h₂ | ⟨h₂, -⟩
    · rw [h₁, h₂]
    · exact absurd h₁ h₂
  · rcases h'.2 e h.1 with h₂ | ⟨-, hle'⟩
    · exact absurd h₂ h₁
    · omega

theorem foldl_mergedExpire_mem (es : List Int) (e : Int) : es.foldl mergedExpire e ∈ e :: es := by
  induction es generalizing e with
  | nil => exact mem_cons_self
  | cons a es ih =>
    have hstep : mergedExpire e a = e ∨ mergedExpire e a = a := by
      rw [mergedExpire]
      split_ifs
      · exact .inr rfl
      · exact max_choice e a
    rw [foldl_cons]
    rcases mem_cons.1 (ih (mergedExpire e a)) with h | h
    · rw [h]
      rcases hstep with h' | h'
      · rw [h']
        exact mem_cons_self
      · rw [h']
        exact mem_cons_of_mem _ mem_cons_self
    · exact mem_cons_of_mem _ (mem_cons_of_mem _ h)

/-- Times to expire at are never lost. -/
theorem le_foldl_mergedExpire {es : List Int} {e e' : Int} (hmem : e' ∈ e :: es) (hpos : 0 ≤ e') :
    e' ≤ es.foldl mergedExpire e := by
  induction es generalizing e e' with
  | nil => exact (mem_singleton.1 hmem).le
  | cons a es ih =>
    rw [foldl_cons]
    have hstep : ∀ b, 0 ≤ b → b = e ∨ b = a → b ≤ mergedExpire e a := by
      rintro b hb (rfl | rfl)
      · rw [mergedExpire, if_neg (by omega)]
        exact le_max_left _ _
      · rw [mergedExpire]
        split_ifs
        · exact le_rfl
        · exact le_max_right _ _
    rw [mem_cons, mem_cons, ← or_assoc] at hmem
    rcases hmem with h | h
    · have hle := hstep e' hpos h
      exact hle.trans (ih mem_cons_self (hpos.trans hle))
    · exact ih (mem_cons_of_mem _ h) hpos

/-- Without a message that carries -1 nothing is lost. -/
theorem foldl_mergedExpire_of_not_mem {es : List Int} {e e' : Int} (hes : -1 ∉ es)
    (hmem : e' ∈ e :: es) :
    e' = -1 ∨ es.foldl mergedExpire e ≠ -1 ∧ e' ≤ es.foldl mergedExpire e := by
  induction es generalizing e e' with
  | nil =>
    obtain rfl := mem_singleton.1 hmem
    exact (eq_or_ne e' (-1)).imp_right fun h => ⟨h, le_rfl⟩
  | cons a es ih =>
    rw [mem_cons, not_or] at hes
    have hne : mergedExpire e a ≠ -1 ∧ a ≤ mergedExpire e a ∧ (e = -1 ∨ e ≤ mergedExpire e a) := by
      rw [mergedExpire]
      split_ifs with h
      · exact ⟨Ne.symm hes.1, le_rfl, .inl h⟩
      · refine ⟨fun hmax => ?_, le_max_right _ _, .inr (le_max_left _ _)⟩
        rcases max_choice e a with h' | h'
        · exact h (h' ▸ hmax)
        · exact hes.1 (h' ▸ hmax).symm
    have hfirst : es.foldl mergedExpire (mergedExpire e a) ≠ -1 ∧
        mergedExpire e a ≤ es.foldl mergedExpire (mergedExpire e a) :=
      (ih hes.2 mem_cons_self).resolve_left hne.1
    rw [foldl_cons]
    rw [mem_cons, mem_cons] at hmem
    rcases hmem with rfl | rfl | h
    · exact hne.2.2.imp_right fun hle => ⟨hfirst.1, hle.trans hfirst.2⟩
    · exact .inr ⟨hfirst.1, hne.2.1.trans hfirst.2⟩
    · exact ih hes.2 (mem_cons_of_mem _ h)

/-- No message carries -1, or some expire is a time, or none is below -1. -/
def ExpiresComparable (e : Int) (es : List Int) : Prop :=
  -1 ∉ es ∨ (∃ e' ∈ e :: es, 0 ≤ e') ∨ ∀ e' ∈ e :: es, -1 ≤ e'

theorem isLatest_foldl {e : Int} {es : List Int} (h : ExpiresComparable e es) :
    IsLatest (es.foldl mergedExpire e) (e :: es) := by
  refine ⟨foldl_mergedExpire_mem es e, fun e' he' => ?_⟩
  by_cases htime : ∃ t ∈ e :: es, 0 ≤ t
  · obtain ⟨t, ht, hpos⟩ := htime
    have hle := le_foldl_mergedExpire ht hpos
    refine .inr ⟨by omega, ?_⟩
    rcases Int.lt_or_le e' 0 with hneg | hnonneg
    · omega
    · exact le_foldl_mergedExpire he' hnonneg
  · rcases h with h | h | h
    · exact foldl_mergedExpire_of_not_mem h he'
    · exact absurd h htime
    · have hneg : ¬ 0 ≤ e' := fun hpos => htime ⟨e', he', hpos⟩
      have := h e' he'
      exact .inl (by omega)

/-! ## Any order -/

/-- There is a latest expire, and the key has it in the end, in whatever order the messages are
executed. -/
def LatestExpire (M : Module Obj) (s : CrdtServer) (db : Db Obj) (key : Bytes)
    (calls : List MergeCall) : Prop :=
  ∃ e, IsLatest e (db.getExpire key :: calls.map MergeCall.expire) ∧
    ∀ calls', calls'.Perm calls → Undisturbed M key s db calls' →
      ∃ s' db', (mergeAll M s db calls').result = .ok (s', db') ∧ db'.getExpire key = e

section Order

variable {M : Module Obj} {τ : Tags} {s : CrdtServer} {db : Db Obj} {key : Bytes}
  {calls : List MergeCall}

theorem latestExpire_of_comparable (hM : MergesWithin M τ) (hready : Ready M τ key db)
    (hcalls : ∀ c ∈ calls, c.Brings M τ s key)
    (h : ExpiresComparable (db.getExpire key) (calls.map MergeCall.expire)) :
    LatestExpire M s db key calls := by
  refine ⟨_, isLatest_foldl h, fun calls' hperm hun => ?_⟩
  obtain ⟨s', db', hrun, hexp⟩ :=
    mergeAll_expire hM hready (fun c hc => hcalls c (hperm.mem_iff.1 hc)) hun
  refine ⟨s', db', hrun, ?_⟩
  -- the latest expire of both orders is one and the same
  have hmem : ∀ a, a ∈ db.getExpire key :: calls'.map MergeCall.expire ↔
      a ∈ db.getExpire key :: calls.map MergeCall.expire := fun a =>
    ((hperm.map MergeCall.expire).cons _).mem_iff
  have hlatest :
      IsLatest (db'.getExpire key) (db.getExpire key :: calls'.map MergeCall.expire) := by
    rw [hexp]
    apply isLatest_foldl
    unfold ExpiresComparable
    simp only [hmem, (hperm.map MergeCall.expire).mem_iff]
    exact h
  have hlatest' :
      IsLatest (db'.getExpire key) (db.getExpire key :: calls.map MergeCall.expire) := by
    unfold IsLatest at hlatest ⊢
    simp only [hmem] at hlatest
    exact hlatest
  exact hlatest'.unique (isLatest_foldl h)

/-- Otherwise a message with -1 that comes last takes away an expire below -1. -/
theorem comparable_of_latestExpire (hM : MergesWithin M τ) (hready : Ready M τ key db)
    (hcalls : ∀ c ∈ calls, c.Brings M τ s key) (h : LatestExpire M s db key calls) :
    ExpiresComparable (db.getExpire key) (calls.map MergeCall.expire) := by
  by_contra hnot
  unfold ExpiresComparable at hnot
  push Not at hnot
  obtain ⟨hone, hneg, e', he', hlow⟩ := hnot
  obtain ⟨c, hc, hcexp⟩ := mem_map.1 hone
  obtain ⟨before, after, rfl⟩ := append_of_mem hc
  have hperm : ((before ++ after) ++ [c]).Perm (before ++ c :: after) :=
    perm_append_singleton c (before ++ after) |>.trans perm_middle.symm
  have hbrings : ∀ c' ∈ (before ++ after) ++ [c], c'.Brings M τ s key := fun c' hc' =>
    hcalls c' (hperm.mem_iff.1 hc')
  have hnegs : ∀ c' ∈ (before ++ after) ++ [c], c'.expire < 0 := fun c' hc' =>
    hneg _ (mem_cons_of_mem _ (mem_map_of_mem (hperm.mem_iff.1 hc')))
  have hun := undisturbed_of_neg hM hready hbrings (hneg _ mem_cons_self) hnegs
  obtain ⟨e, hlatest, horder⟩ := h
  obtain ⟨s', db', hrun, hexp⟩ := horder _ hperm hun
  obtain ⟨s₁, db₁, hrun₁, hexp₁⟩ := mergeAll_expire hM hready hbrings hun
  obtain ⟨-, rfl⟩ : s' = s₁ ∧ db' = db₁ := Prod.mk.inj (Except.ok.inj (hrun.symm.trans hrun₁))
  -- the last step ends at -1, which is below the expire that there was
  have hlast : e = -1 := by
    rw [← hexp, hexp₁, map_append, foldl_append]
    show mergedExpire _ c.expire = -1
    have hbefore :=
      foldl_mergedExpire_mem ((before ++ after).map MergeCall.expire) (db.getExpire key)
    have hacc := hneg _ (((hperm.map MergeCall.expire).cons (db.getExpire key)).mem_iff.1 (by
      rw [map_append, ← cons_append]
      exact mem_append_left _ hbefore))
    rw [hcexp, mergedExpire]
    split_ifs
    · rfl
    · exact max_eq_right (by omega)
  rcases hlatest.2 e' he' with h | ⟨h, -⟩
  · omega
  · exact h hlast

/-- Messages of one type leave the latest expire in every order exactly if none carries -1, some
expire is a time, or none is below -1. -/
theorem latestExpire_iff (hM : MergesWithin M τ) (hready : Ready M τ key db)
    (hcalls : ∀ c ∈ calls, c.Brings M τ s key) :
    LatestExpire M s db key calls ↔
      ExpiresComparable (db.getExpire key) (calls.map MergeCall.expire) :=
  ⟨comparable_of_latestExpire hM hready hcalls, latestExpire_of_comparable hM hready hcalls⟩

end Order

/-! ## Registers -/

theorem registers_mergeWithin : MergesWithin registers registerTags where
  method _ _ := rfl
  first x hx := (registerType.merge_none x hx).symm ▸ hx
  merge v x hv hx := registerType.merge_isValue v x hv hx

/-- The register of node 2 with this expire, over the link to it. -/
def registerCall (time : Nat) (expire : Int) : MergeCall where
  env := ⟨0, false, true⟩
  argv := mergeRequest twoDbs "CRDT.Merge" (ascii "a") expire time

theorem registerCall_brings {expire : Int} (h : -(llongMax + 1) ≤ expire ∧ expire ≤ llongMax)
    {time : Nat} (hodd : time % 2 = 1) :
    (registerCall time expire).Brings registers registerTags emptyNode.server (ascii "a") := by
  have hconn := @twoDbs_connected 1 (by decide)
  obtain ⟨-, gidText, t, haccept⟩ := hconn.means_value (ascii "a") h time
  exact ⟨gidText, _, t, haccept, isValue_register.2 hodd⟩

theorem ready_emptyNode : Ready registers registerTags (ascii "a") (emptyNode.dbs 0) :=
  ⟨by rintro _ ⟨⟩, fun _ => rfl, rfl⟩

theorem registerCalls_brings (e e' : Int) (h : -(llongMax + 1) ≤ e ∧ e ≤ llongMax)
    (h' : -(llongMax + 1) ≤ e' ∧ e' ≤ llongMax) :
    ∀ c ∈ [registerCall 5 e, registerCall 9 e'],
      c.Brings registers registerTags emptyNode.server (ascii "a") := by
  intro c hc
  simp only [mem_cons, not_mem_nil, or_false] at hc
  rcases hc with rfl | rfl
  · exact registerCall_brings h rfl
  · exact registerCall_brings h' rfl

/-- A message without expire and one with a time leave the time. -/
theorem latestExpire_register :
    LatestExpire registers emptyNode.server (emptyNode.dbs 0) (ascii "a")
      [registerCall 5 1000, registerCall 9 (-1)] :=
  (latestExpire_iff registers_mergeWithin ready_emptyNode
    (registerCalls_brings 1000 (-1) (by decide) (by decide))).2
    (.inr (.inl ⟨1000, by decide, by decide⟩))

/-- With -5 and -1 the order decides. -/
theorem low_expire_lost : ((mergeAll registers emptyNode.server (emptyNode.dbs 0)
        [registerCall 5 (-5), registerCall 9 (-1)]).result.toOption.map
          fun r => r.2.getExpire (ascii "a")) = some (-1) ∧
      ((mergeAll registers emptyNode.server (emptyNode.dbs 0)
        [registerCall 9 (-1), registerCall 5 (-5)]).result.toOption.map
          fun r => r.2.getExpire (ascii "a")) = some (-5) ∧
      ¬ LatestExpire registers emptyNode.server (emptyNode.dbs 0) (ascii "a")
        [registerCall 5 (-5), registerCall 9 (-1)] := by
  refine ⟨by decide +kernel, by decide +kernel, fun h => ?_⟩
  rcases comparable_of_latestExpire registers_mergeWithin ready_emptyNode
    (registerCalls_brings (-5) (-1) (by decide) (by decide)) h with h | ⟨e, he, hpos⟩ | h
  · exact h (by decide)
  · have hall : ∀ e ∈ (emptyNode.dbs 0).getExpire (ascii "a") ::
        [registerCall 5 (-5), registerCall 9 (-1)].map MergeCall.expire, e < 0 := by decide
    exact absurd (hall e he) (by omega)
  · exact absurd (h (-5) (by decide)) (by decide)

end XredisCrdt.Merge
