import XredisCrdt.Net.LinkReplay

/-!
# The accounts of a slave

A slave reconstructs the history of its master for the peers, and the offset of
every peer, from the gid that each unit of its stream leaves. `countAll_crdt` and
`countAll_peer` say what it gets: the bytes of the units with the own gid, and
their number for every other gid.
-/

namespace XredisCrdt.Net

open Proto Repl List Txn

variable {σ : Type} {P : Procs σ} {gidOf : Argv → Option Int}

/-! ## What is a unit -/

/-- Between two transactions the commands are taken as one unit. -/
def IsUnit (P : Procs σ) (u : List Argv) : Prop :=
  ∀ done, u.foldl (Txn.step P) ⟨done, []⟩ = ⟨done ++ [u], []⟩

theorem isUnit_plain {argv : Argv} (h : role P argv = some .plain) : IsUnit P [argv] := by
  intro done
  simp [step, h]

/-- Inside a transaction plain commands are collected. -/
theorem foldl_step_open {cmds : List Argv} (h : ∀ argv ∈ cmds, role P argv = some .plain)
    (done : List (List Argv)) {cur : List Argv} (hcur : cur ≠ []) :
    cmds.foldl (step P) ⟨done, cur⟩ = ⟨done, cur ++ cmds⟩ := by
  induction cmds generalizing cur with
  | nil => simp
  | cons argv cmds ih =>
    have hstep : step P ⟨done, cur⟩ argv = ⟨done, cur ++ [argv]⟩ := by
      simp only [step, h argv (by simp), if_neg hcur]
    rw [foldl_cons, hstep, ih (fun a ha => h a (by simp [ha])) (by simp)]
    simp

theorem isUnit_block {first last : Argv} {body : List Argv} {g : Int}
    (hfirst : role P first = some .opens) (hbody : ∀ argv ∈ body, role P argv = some .plain)
    (hlast : role P last = some (.closes g)) : IsUnit P (first :: body ++ [last]) := by
  intro done
  have hopen : step P ⟨done, []⟩ first = ⟨done, [first]⟩ := by
    simp [step, hfirst]
  show (body ++ [last]).foldl (step P) (step P ⟨done, []⟩ first) = _
  rw [hopen, foldl_append, foldl_step_open hbody done (by simp)]
  simp [step, hlast]

/-- What has been split off a stream is a unit, and the rest is open. -/
structure Txn.Ok (P : Procs σ) (t : Txn) : Prop where
  done : ∀ u ∈ t.done, IsUnit P u
  cur : ∀ done, t.cur.foldl (Txn.step P) ⟨done, []⟩ = ⟨done, t.cur⟩

theorem Txn.Ok.step {t : Txn} (h : t.Ok P) (argv : Argv) : (t.step P argv).Ok P := by
  have hcur : ∀ done, (t.cur ++ [argv]).foldl (Txn.step P) ⟨done, []⟩ =
      Txn.step P ⟨done, t.cur⟩ argv := by
    intro done
    rw [foldl_append, h.cur]
    rfl
  unfold Txn.step
  split
  · rename_i hrole
    refine ⟨h.done, ?_⟩
    intro done
    rw [hcur done]
    simp [Txn.step, hrole]
  · rename_i g hrole
    refine ⟨?_, fun done => rfl⟩
    intro u hu
    rcases mem_append.mp hu with hold | hnew
    · exact h.done u hold
    · rw [mem_singleton.mp hnew]
      intro done
      rw [hcur done]
      simp [Txn.step, hrole]
  · rename_i hopens hcloses
    split
    · rename_i hnil
      refine ⟨?_, fun done => by rw [hnil]; rfl⟩
      intro u hu
      rcases mem_append.mp hu with hold | hnew
      · exact h.done u hold
      · rw [mem_singleton.mp hnew]
        intro done
        have := hcur done
        rw [hnil, nil_append] at this
        rw [this]
        cases hrole : role P argv with
        | none => simp [Txn.step, hrole]
        | some ρ =>
          cases ρ with
          | opens => exact absurd hrole hopens
          | closes g => exact absurd hrole (hcloses g)
          | plain => simp [Txn.step, hrole]
    · rename_i hne
      refine ⟨h.done, ?_⟩
      intro done
      rw [hcur done]
      cases hrole : role P argv with
      | none => simp [Txn.step, hrole, hne]
      | some ρ =>
        cases ρ with
        | opens => exact absurd hrole hopens
        | closes g => exact absurd hrole (hcloses g)
        | plain => simp [Txn.step, hrole, hne]

theorem txnOf_ok (P : Procs σ) (cmds : List Argv) : (txnOf P cmds).Ok P := by
  induction cmds using List.reverseRecOn with
  | nil => exact ⟨fun u hu => absurd hu (by simp [txnOf]), fun done => rfl⟩
  | append_singleton cmds argv ih =>
    rw [txnOf_snoc]
    exact ih.step argv

/-! ## Counting -/

/-- The bytes of the units that a gid gets. -/
def gidBytes (P : Procs σ) (gidOf : Argv → Option Int) (g : Int)
    (us : List (List Argv)) : Bytes :=
  encoded (us.filter fun u => unitGid P gidOf u = some g).flatten

theorem gidBytes_append (g : Int) (us vs : List (List Argv)) :
    gidBytes P gidOf g (us ++ vs) = gidBytes P gidOf g us ++ gidBytes P gidOf g vs := by
  rw [gidBytes, filter_append, flatten_append, encoded_append]
  rfl

theorem gidBytes_cons (g : Int) (u : List Argv) (us : List (List Argv)) :
    gidBytes P gidOf g (u :: us) =
      (if unitGid P gidOf u = some g then encoded u else []) ++ gidBytes P gidOf g us := by
  by_cases h : unitGid P gidOf u = some g
  · rw [gidBytes, filter_cons_of_pos (by simpa using h), flatten_cons, encoded_append,
      if_pos h]
    rfl
  · rw [gidBytes, filter_cons_of_neg (by simpa using h), if_neg h]
    rfl

theorem countFor_crdt (n : Node σ) (gid : Option Int) (bytes : Bytes) :
    FedBy n.feed.servers.crdtServer (if gid = some n.feed.crdtGid then bytes else [])
      (countFor n gid bytes).feed.servers.crdtServer := by
  unfold countFor
  split
  · exact fedBy_one _ _
  · cases gid with
    | none => exact fedBy_nil _
    | some g => exact fedBy_nil _

theorem countAll_crdt (n : Node σ) (us : List (List Argv)) :
    FedBy n.feed.servers.crdtServer (gidBytes P gidOf n.feed.crdtGid us)
      (countAll P gidOf n us).feed.servers.crdtServer ∧
      (countAll P gidOf n us).feed.crdtGid = n.feed.crdtGid := by
  induction us generalizing n with
  | nil => exact ⟨fedBy_nil _, rfl⟩
  | cons u us ih =>
    obtain ⟨hfed, hgid⟩ := ih (countFor n (unitGid P gidOf u) (encoded u))
    have hsame := countFor_crdtGid n (unitGid P gidOf u) (encoded u)
    rw [hsame] at hfed hgid
    refine ⟨?_, hgid⟩
    rw [gidBytes_cons]
    exact (countFor_crdt n _ _).trans hfed

/-- An offset moved by some bytes. -/
def Peer.moved (p : Peer) (k : Nat) : Peer :=
  { p with masterReploff := p.masterReploff.map (· + (k : Int)) }

theorem Peer.moved_zero (p : Peer) : p.moved 0 = p := by
  obtain ⟨c, off⟩ := p
  cases off <;> simp [Peer.moved]

theorem Peer.moved_moved (p : Peer) (j k : Nat) : (p.moved j).moved k = p.moved (j + k) := by
  obtain ⟨c, off⟩ := p
  cases off with
  | none => rfl
  | some o => simp [Peer.moved]; omega

theorem countFor_peer (n : Node σ) (gid : Option Int) (bytes : Bytes) {g : Int}
    (hg : g ≠ n.feed.crdtGid) :
    (countFor n gid bytes).peers g =
      (n.peers g).map (·.moved (if gid = some g then bytes.length else 0)) := by
  have hzero : (n.peers g).map (·.moved 0) = n.peers g := by
    simp only [Peer.moved_zero, Option.map_id']
  unfold countFor
  split
  · rename_i hown
    rw [hown, if_neg (by simpa using fun h => hg h.symm), hzero]
  · cases gid with
    | none =>
      rw [if_neg (by simp), hzero]
      rfl
    | some g' =>
      show Function.update n.peers g' _ g = _
      by_cases heq : g = g'
      · subst heq
        rw [Function.update_self, if_pos rfl]
        rfl
      · rw [Function.update_of_ne heq, if_neg (by simpa using fun h => heq h.symm), hzero]

theorem countAll_peer (n : Node σ) (us : List (List Argv)) {g : Int}
    (hg : g ≠ n.feed.crdtGid) :
    (countAll P gidOf n us).peers g = (n.peers g).map (·.moved (gidBytes P gidOf g us).length) := by
  induction us generalizing n with
  | nil =>
    show n.peers g = (n.peers g).map (·.moved 0)
    simp only [Peer.moved_zero, Option.map_id']
  | cons u us ih =>
    have hstep :=
      ih (countFor n (unitGid P gidOf u) (encoded u)) (by rw [countFor_crdtGid]; exact hg)
    refine Eq.trans hstep ?_
    rw [countFor_peer n _ _ hg, Option.map_map, gidBytes_cons, length_append]
    congr 1
    funext p
    show (p.moved _).moved _ = p.moved _
    rw [Peer.moved_moved]
    congr 2
    split <;> rfl

end XredisCrdt.Net
