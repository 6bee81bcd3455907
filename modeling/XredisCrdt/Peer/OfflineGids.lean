import XredisCrdt.Config.Lines
import XredisCrdt.Peer.Gc
import XredisCrdt.Peer.RdbAux

/-!
# The set of offline gids

`crdt.setOfflineGid` collects its arguments in the bits of an `int`, which is printed as a
number in the configuration file and in RDB files and listed by `crdt.getOfflineGid`. The
command refuses numbers above 16 only: 0 and 16, which are no gids, are taken, the second is
not listed, and for a negative number the shift is undefined.
-/

namespace XredisCrdt.Peer

open Clock Config List Word

/-- `getOfflineGidCommand`. -/
def getOfflineGidCommand (n : OfflineNode) : Bytes :=
  sdstrim (((List.range 16).filter fun i => n.offlinePeerSet.testBit i).flatMap fun i : Nat =>
    ll2string i ++ [32]) [32]

/-- `rewriteConfigCrdtOfflineGidOption`. -/
def rewriteConfigCrdtOfflineGidOption (n : OfflineNode) : Bytes :=
  ascii "crdt-offline-gid" ++ 32 :: ll2string (toInt n.offlinePeerSet)

/-- `loadServerConfigFromString` for a line with this option; `none` for other lines. -/
def loadCrdtOfflineGidOption (n : OfflineNode) (line : Bytes) : Option OfflineNode :=
  match lineArgs line with
  | some [option, value] =>
    if strcaseeq option (ascii "crdt-offline-gid") then
      some (setOfflinePeerSet n (atoi value % 2 ^ 32).toNat)
    else none
  | _ => none

/-! ## What the command stores -/

/-- The command refuses the argument. -/
def refusesGid (text : Bytes) : Bool := (string2ll text).all fun gid => 16 < gid

/-- One of the arguments is this number. -/
def Asked (args : List Bytes) (g : Int) : Prop := ∃ text ∈ args, string2ll text = some g

/-- All arguments are taken, and their numbers are the new bits. -/
theorem acceptGids_accepted {args : List Bytes} {acc gids : Nat}
    (h : acceptGids args acc = .accepted gids) :
    (∀ text ∈ args, ∃ g : Nat, string2ll text = some (g : Int) ∧ g ≤ 16) ∧
      ∀ i : Nat, gids.testBit i = true ↔ acc.testBit i = true ∨ Asked args i := by
  induction args generalizing acc with
  | nil =>
    obtain rfl := GidArgs.accepted.inj h
    refine ⟨fun text ht => absurd ht not_mem_nil, fun i => ?_⟩
    simp [Asked]
  | cons text rest ih =>
    rw [acceptGids] at h
    cases hg : string2ll text with
    | none => simp [hg] at h
    | some gid =>
      simp only [hg] at h
      split_ifs at h with hhigh hneg
      obtain ⟨hall, hbits⟩ := ih h
      obtain ⟨g, rfl⟩ := Int.eq_ofNat_of_zero_le (Int.not_lt.1 hneg)
      constructor
      · intro text' ht
        rcases mem_cons.1 ht with rfl | ht
        · exact ⟨g, hg, by omega⟩
        · exact hall text' ht
      · intro i
        have hasked : Asked (text :: rest) i ↔ g = i ∨ Asked rest i := by
          unfold Asked
          rw [exists_mem_cons_iff, hg, Option.some.injEq, Int.natCast_inj]
        rw [hbits, Nat.testBit_or, Int.toNat_natCast, Nat.one_shiftLeft, Nat.testBit_two_pow,
          Bool.or_eq_true, decide_eq_true_eq, hasked, or_assoc]

/-- The first argument that is not a number up to 16 ends the loop, unless a negative one
stands before it. -/
theorem acceptGids_refused_iff (args : List Bytes) (acc : Nat) :
    acceptGids args acc = .refused ↔ (∃ text ∈ args, refusesGid text = true) ∧
      ∀ text ∈ args.takeWhile fun text => !refusesGid text,
        ∀ g, string2ll text = some g → 0 ≤ g := by
  induction args generalizing acc with
  | nil => simp [acceptGids]
  | cons text rest ih =>
    rw [acceptGids]
    cases hg : string2ll text with
    | none =>
      have href : refusesGid text = true := by rw [refusesGid, hg]; rfl
      simp [href]
    | some gid =>
      by_cases hhigh : 16 < gid
      · have href : refusesGid text = true := by simp [refusesGid, hg, hhigh]
        simp [href, hhigh]
      · have href : refusesGid text = false := by simp [refusesGid, hg, hhigh]
        rw [takeWhile_cons_of_pos (by simp [href]), exists_mem_cons_iff,
          forall_mem_cons, href]
        by_cases hneg : gid < 0
        · simp only [hhigh, hneg, if_true, if_false]
          constructor
          · intro h
            cases h
          · rintro ⟨-, h, -⟩
            exact absurd (h gid hg) (by omega)
        · simp only [hhigh, hneg, if_false, ih]
          have hfirst : ∀ g, string2ll text = some g → 0 ≤ g := by
            intro g h
            rw [hg] at h
            have := Option.some.inj h
            omega
          constructor
          · rintro ⟨hex, hall⟩
            exact ⟨.inr hex, hfirst, hall⟩
          · rintro ⟨hex, -, hall⟩
            exact ⟨hex.resolve_left Bool.false_ne_true, hall⟩

/-- Without a refused or a negative argument the loop comes to its end. -/
theorem acceptGids_isAccepted {args : List Bytes}
    (h : ∀ text ∈ args, ∃ g : Nat, string2ll text = some (g : Int) ∧ g ≤ 16) (acc : Nat) :
    ∃ gids, acceptGids args acc = .accepted gids := by
  induction args generalizing acc with
  | nil => exact ⟨acc, rfl⟩
  | cons text rest ih =>
    obtain ⟨g, hg, hle⟩ := h text mem_cons_self
    rw [acceptGids]
    simp only [hg]
    rw [if_neg (by omega), if_neg (by omega)]
    exact ih (fun t ht => h t (mem_cons_of_mem _ ht)) _

theorem setOfflineGidCommand_set {args : List Bytes} {gids : Nat}
    (h : acceptGids args 0 = .accepted gids) (n : OfflineNode) (name : Bytes) :
    (setOfflineGidCommand n (name :: args)).offlinePeerSet = gids := by
  unfold setOfflineGidCommand
  rw [drop_one, tail_cons, h]
  exact setOfflinePeerSet_offlinePeerSet n gids

/-! ## Printing the set -/

theorem plain_ll2string (v : Int) : Plain (ll2string v) := by
  have hbyte : ∀ b ∈ ll2string v, b ∉ special ∧ Proto.isspace b = false := by
    intro b hb
    rcases mem_ll2string hb with rfl | ⟨hlo, hhi⟩
    · decide
    · constructor
      · intro hmem
        simp only [special, mem_cons, not_mem_nil, or_false] at hmem
        rcases hmem with rfl | rfl | rfl | rfl | rfl | rfl | rfl <;> simp at hlo
      · unfold Proto.isspace
        simp only [decide_eq_false_iff_not, UInt8.le_iff_toNat_le, ← UInt8.toNat_inj]
        simp
        omega
  exact ⟨ll2string_ne_nil v, fun b hb => (hbyte b (mem_of_mem_head? hb)).2,
    fun b hb => (hbyte b hb).1⟩

/-- A blank stands after each number. -/
theorem gids_text (i : Nat) (rest : List Nat) :
    ((i :: rest).flatMap fun i : Nat => ll2string i ++ [32]) =
      render ((i :: rest).map fun i : Nat => plain (ll2string i)) ++ [32] := by
  induction rest generalizing i with
  | nil =>
    show ll2string i ++ [32] ++ [] = (ll2string i ++ []) ++ [32]
    rw [append_nil, append_nil]
  | cons j rest ih =>
    rw [flatMap_cons, ih]
    show _ = render (.plain (ll2string i) :: .plain (ll2string j) :: _) ++ [32]
    rw [render_cons_cons, append_assoc, append_assoc]
    rfl

/-- The reply has the numbers of the bits with a blank between two. -/
theorem getOfflineGidCommand_text (n : OfflineNode) : getOfflineGidCommand n = [32].intercalate
      (((List.range 16).filter fun i => n.offlinePeerSet.testBit i).map fun i : Nat =>
        ll2string i) := by
  unfold getOfflineGidCommand
  generalize (List.range 16).filter (fun i => n.offlinePeerSet.testBit i) = listed
  have hwords : listed.map (fun i : Nat => ll2string i) =
      (listed.map fun i : Nat => plain (ll2string i)).map bytes := by
    rw [map_map]
    rfl
  have hok : ∀ w ∈ listed.map fun i : Nat => plain (ll2string i), w.Ok := by
    intro w hw
    obtain ⟨i, -, rfl⟩ := mem_map.1 hw
    exact plain_ll2string i
  rw [hwords]
  show _ = render _
  cases listed with
  | nil => rfl
  | cons i rest =>
    -- the blank after the last number is trimmed, and nothing else is
    obtain ⟨q, c, hq, hc⟩ := render_last hok (by simp)
    obtain ⟨b, p, hp, hb⟩ : ∃ b p, render ((i :: rest).map fun i : Nat => plain (ll2string i)) =
        b :: p ∧ Proto.isspace b = false := by
      obtain ⟨b, bs, hbytes, hspace⟩ := Word.Ok.head (w := .plain (ll2string i)) (plain_ll2string i)
      cases rest with
      | nil => exact ⟨b, bs ++ [], by rw [← cons_append, ← hbytes]; rfl, hspace⟩
      | cons j rest =>
        rw [map_cons, map_cons, render_cons_cons, hbytes]
        exact ⟨b, _, rfl, hspace⟩
    rw [gids_text, sdstrim, hp, cons_append, dropWhile_cons_of_neg, ← cons_append, ← hp,
      rdropWhile_concat_pos _ _ _ (by decide), hq, rdropWhile_concat_neg]
    · rw [contains_iff_mem]
      intro hmem
      rw [mem_singleton] at hmem
      exact hc (by simp [hmem])
    · rw [contains_iff_mem, mem_singleton]
      rintro rfl
      exact absurd hb (by decide)

theorem loadCrdtOfflineGidOption_args {line option value : Bytes} (m : OfflineNode)
    (hargs : lineArgs line = some [option, value])
    (hoption : strcaseeq option (ascii "crdt-offline-gid") = true) :
    loadCrdtOfflineGidOption m line = some (setOfflinePeerSet m (atoi value % 2 ^ 32).toNat) := by
  simp only [loadCrdtOfflineGidOption, hargs, hoption, if_true]

theorem loadCrdtOfflineGidOption_rewrite (n m : OfflineNode) (hn : n.offlinePeerSet < 2 ^ 32) :
    loadCrdtOfflineGidOption m (rewriteConfigCrdtOfflineGidOption n) =
      some (setOfflinePeerSet m n.offlinePeerSet) := by
  have hvalue : (plain (ll2string (toInt n.offlinePeerSet))).Ok := plain_ll2string _
  have hline : rewriteConfigCrdtOfflineGidOption n = render
      [.plain (ascii "crdt-offline-gid"), .plain (ll2string (toInt n.offlinePeerSet))] := by
    have hlast : render [.plain (ll2string (toInt n.offlinePeerSet))] =
        ll2string (toInt n.offlinePeerSet) := append_nil _
    rw [render_cons_cons, hlast]
    rfl
  have hspecial : (ascii "crdt-offline-gid").all (fun b => b ∉ special) = true := rfl
  have hplain : Plain (ascii "crdt-offline-gid") :=
    ⟨by decide, by rintro _ ⟨⟩; rfl, fun b hb => of_decide_eq_true (all_eq_true.1 hspecial b hb)⟩
  have hargs : lineArgs (rewriteConfigCrdtOfflineGidOption n) =
      some ((ascii "crdt-offline-gid").map tolower :: [ll2string (toInt n.offlinePeerSet)]) := by
    rw [hline, lineArgs_render hplain (by decide) (fun w hw => by
      obtain rfl := mem_singleton.1 hw
      exact hvalue), map_cons, map_nil, text]
  have hoption :
      strcaseeq ((ascii "crdt-offline-gid").map tolower) (ascii "crdt-offline-gid") = true := rfl
  rw [loadCrdtOfflineGidOption_args m hargs hoption, atoi_bits hn]

/-- Reading the field never fails. -/
theorem read_crdtOfflineGid (dbnum : Nat) (uninitialized : Bytes) (r : AuxReader) {set : Nat}
    (hset : set < 2 ^ 32) :
    r.read dbnum uninitialized (rdbSaveAuxFieldStrInt .crdtOfflineGid (toInt set)) =
      some { r with
        node := { r.node with toOfflineNode := setOfflinePeerSet r.node.toOfflineNode set } } := by
  rw [rdbSaveAuxFieldStrInt, AuxReader.read_text, AuxReader.rdbLoadCrdtInfoAuxFields,
    atoi_bits hset]

/-- A file that is loaded has the set of the node that wrote it, whatever else is in it. -/
theorem rdbLoadAux_offlinePeerSet {dbnum : Nat} {uninitialized : Bytes} {n m m' : RdbNode}
    {i : SaveInfo} (hn : n.offlinePeerSet < 2 ^ 32)
    (hload : rdbLoadAux dbnum uninitialized m (rdbSaveInfoAuxFields i n) = some m') :
    m'.offlinePeerSet = n.offlinePeerSet := by
  rw [rdbLoadAux, rdbSaveInfoAuxFields, rdbSaveCrdtInfoAuxFields, ← append_assoc,
    append_assoc (_ ++ _), foldlM_append] at hload
  obtain ⟨r', hr', rfl⟩ := Option.map_eq_some_iff.1 hload
  obtain ⟨r, -, hr⟩ := Option.bind_eq_some_iff.1 hr'
  -- two fields are left, and the last one is passed over
  rw [cons_append, nil_append, foldlM_cons, read_crdtOfflineGid dbnum uninitialized r hn,
    Option.bind_eq_bind, Option.bind_some, foldlM_cons, rdbSaveAuxFieldStrInt,
    AuxReader.read_text] at hr
  obtain rfl := Option.some.inj hr
  exact setOfflinePeerSet_offlinePeerSet _ _

/-! ## Which arguments come through -/

/-- The set of a node is that of the arguments, and stays so: in the reply, in the
configuration file, in RDB files and in the clock of collections. -/
structure Kept (args : List Bytes) (n : OfflineNode) : Prop where
  reply : ∃ reported : List Nat, reported.Nodup ∧
    getOfflineGidCommand n = [32].intercalate (reported.map fun i : Nat => ll2string i) ∧
    ∀ g, Asked args g ↔ ∃ i ∈ reported, (i : Int) = g
  config : ∀ m, ∃ m', loadCrdtOfflineGidOption m (rewriteConfigCrdtOfflineGidOption n) = some m' ∧
    ∀ i : Nat, m'.offlinePeerSet.testBit i = true ↔ Asked args i
  rdbField : ∀ dbnum uninitialized (r : AuxReader), ∃ r', r.read dbnum uninitialized
      (rdbSaveAuxFieldStrInt .crdtOfflineGid (toInt n.offlinePeerSet)) = some r' ∧
    ∀ i : Nat, r'.node.offlinePeerSet.testBit i = true ↔ Asked args i
  rdb : ∀ dbnum uninitialized replid offset info m m',
    rdbLoadAux dbnum uninitialized m (rdbSaveInfoAuxFields info ⟨n, replid, offset⟩) = some m' →
      ∀ i : Nat, m'.offlinePeerSet.testBit i = true ↔ Asked args i
  gc : ∀ g, IsLeast
    { t | t = n.server.vectorClock.time g ∨ ∃ i : Fin 16, n.server.peerSet i = true ∧
      ¬ Asked args i.val ∧ t = (n.server.peerClock i).time g }
    ((getGcVectorClock n.server fun i => n.offlinePeerSet.testBit i).time g)

/-- If the command accepts the arguments, they are gids and every node keeps them. -/
def Survives (args : List Bytes) : Prop :=
  match acceptGids args 0 with
  | .refused => True
  | .undefined => False
  | .accepted _ =>
    (∀ text ∈ args, ∃ g, string2ll text = some g ∧ 1 ≤ g ∧ g ≤ 15) ∧
      ∀ n name, Kept args (setOfflineGidCommand n (name :: args))

theorem kept_of_bits {args : List Bytes} {n : OfflineNode}
    (hgids : ∀ text ∈ args, ∃ g, string2ll text = some g ∧ 1 ≤ g ∧ g ≤ 15)
    (hbits : ∀ i : Nat, n.offlinePeerSet.testBit i = true ↔ Asked args i) : Kept args n := by
  have hasked : ∀ g, Asked args g → 1 ≤ g ∧ g ≤ 15 := by
    rintro g ⟨text, htext, hg⟩
    obtain ⟨g', hg', hrange⟩ := hgids text htext
    rw [hg] at hg'
    obtain rfl := Option.some.inj hg'
    exact hrange
  have hlt : n.offlinePeerSet < 2 ^ 32 := by
    refine Nat.lt_pow_two_of_testBit _ fun i hi => Bool.eq_false_iff.2 fun hbit => ?_
    have := hasked i ((hbits i).1 hbit)
    omega
  refine ⟨⟨_, nodup_range.filter _, getOfflineGidCommand_text n, ?_⟩, ?_, ?_, ?_, ?_⟩
  · intro g
    constructor
    · intro hg
      have hrange := hasked g hg
      obtain ⟨i, rfl⟩ := Int.eq_ofNat_of_zero_le (show 0 ≤ g by omega)
      exact ⟨i, mem_filter.2 ⟨mem_range.2 (by omega), (hbits i).2 hg⟩, rfl⟩
    · rintro ⟨i, hi, rfl⟩
      exact (hbits i).1 (mem_filter.1 hi).2
  · intro m
    refine ⟨_, loadCrdtOfflineGidOption_rewrite n m hlt, ?_⟩
    rw [setOfflinePeerSet_offlinePeerSet]
    exact hbits
  · intro dbnum uninitialized r
    refine ⟨_, read_crdtOfflineGid dbnum uninitialized r hlt, ?_⟩
    show ∀ i : Nat,
        (setOfflinePeerSet r.node.toOfflineNode n.offlinePeerSet).offlinePeerSet.testBit i =
      true ↔ _
    rw [setOfflinePeerSet_offlinePeerSet]
    exact hbits
  · intro dbnum uninitialized replid offset info m m' hload
    rw [rdbLoadAux_offlinePeerSet hlt hload]
    exact hbits
  · intro g
    have hleast := gcVectorClockOver_isLeast n.server (fun i => n.offlinePeerSet.testBit i)
      mem_finRange g
    have htimes : gcTimes n.server (fun i => n.offlinePeerSet.testBit i) g =
        { t | t = n.server.vectorClock.time g ∨ ∃ i : Fin 16, n.server.peerSet i = true ∧
          ¬ Asked args i.val ∧ t = (n.server.peerClock i).time g } := by
      ext t
      refine or_congr_right
        (exists_congr fun i => and_congr_right fun _ => and_congr_left fun _ => ?_)
      rw [← hbits, Bool.not_eq_true]
    rw [← htimes]
    exact hleast

/-- Some argument is refused and no negative number stands before it, or all are gids. -/
def Storable (args : List Bytes) : Prop :=
  ((∃ text ∈ args, refusesGid text = true) ∧
    ∀ text ∈ args.takeWhile fun text => !refusesGid text, ∀ g, string2ll text = some g → 0 ≤ g) ∨
  ∀ text ∈ args, ∃ g, string2ll text = some g ∧ 1 ≤ g ∧ g ≤ 15

/-- The arguments come through exactly if they are refused, or are gids in 1..15. -/
theorem setOfflineGid_survives_iff (args : List Bytes) : Survives args ↔ Storable args := by
  have hrefused := acceptGids_refused_iff args 0
  unfold Survives Storable
  cases haccept : acceptGids args 0 with
  | refused =>
    rw [haccept] at hrefused
    exact ⟨fun _ => .inl (hrefused.1 rfl), fun _ => trivial⟩
  | undefined =>
    refine ⟨False.elim, ?_⟩
    rintro (h | hgids)
    · have := hrefused.2 h
      rw [haccept] at this
      cases this
    · have htaken : ∀ text ∈ args, ∃ g : Nat, string2ll text = some (g : Int) ∧ g ≤ 16 := by
        intro text ht
        obtain ⟨g, hg, hlo, hhi⟩ := hgids text ht
        exact ⟨g.toNat, by rw [hg, Int.toNat_of_nonneg (by omega)], by omega⟩
      obtain ⟨gids, hgids⟩ := acceptGids_isAccepted htaken 0
      rw [haccept] at hgids
      cases hgids
  | accepted gids =>
    constructor
    · exact fun h => .inr h.1
    · rintro (h | hgids)
      · have := hrefused.2 h
        rw [haccept] at this
        cases this
      · refine ⟨hgids, fun n name => kept_of_bits hgids fun i => ?_⟩
        rw [setOfflineGidCommand_set haccept, (acceptGids_accepted haccept).2, Nat.zero_testBit]
        simp

/-- 16 is accepted, but it is no gid and not in the reply. -/
theorem sixteen_accepted : acceptGids [ascii "16"] 0 = .accepted 65536 ∧ ¬ Survives [ascii "16"] ∧
      ∀ n, getOfflineGidCommand
        (setOfflineGidCommand n [ascii "crdt.setOfflineGid", ascii "16"]) = [] := by
  have haccept : acceptGids [ascii "16"] 0 = .accepted 65536 := by decide
  refine ⟨haccept, ?_, ?_⟩
  · unfold Survives
    rw [haccept]
    rintro ⟨hgids, -⟩
    obtain ⟨g, hg, -, hhi⟩ := hgids (ascii "16") mem_cons_self
    have hnum : string2ll (ascii "16") = some 16 := by decide
    rw [hnum] at hg
    have := Option.some.inj hg
    omega
  · intro n
    have hset := setOfflineGidCommand_set haccept n (ascii "crdt.setOfflineGid")
    rw [getOfflineGidCommand, hset]
    decide

end XredisCrdt.Peer
