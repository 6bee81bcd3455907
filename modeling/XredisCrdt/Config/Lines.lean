import Mathlib.Data.List.DropRight
import XredisCrdt.Proto.Inline

/-!
# Lines of the configuration file (`config.c`)

A line is trimmed, split into arguments by `sdssplitargs` and handled by its first argument,
which is read in lower case. `Word.render` is a line as `CONFIG REWRITE` prints it, with plain
arguments and arguments in single quotes; `lineArgs_render` says that it is split into the same
arguments again.
-/

namespace XredisCrdt.Config

open Proto List

/-- `sdstrim`. -/
def sdstrim (s cset : Bytes) : Bytes :=
  (s.dropWhile fun b => cset.contains b).rdropWhile fun b => cset.contains b

/-- The arguments of a line, none for a comment or a line without any; `none` for unbalanced
quotes. -/
def lineArgs (line : Bytes) : Option (List Bytes) :=
  let line := sdstrim line [32, 9, 13, 10]
  if line.head? = some 35 ∨ cstr line = [] then some []
  else (sdssplitargs line).map fun
    | [] => []
    | option :: args => option.map tolower :: args

/-! ## Printed arguments -/

/-- An argument as it stands in a line. -/
inductive Word
  | plain (text : Bytes)
  | quoted (text : Bytes)
  deriving DecidableEq, Repr

/-- Bytes that end an argument or start a quoted part. -/
def special : Bytes := [0, 9, 10, 13, 32, 34, 39]

/-- An argument that needs no quotes. -/
def Plain (text : Bytes) : Prop :=
  text ≠ [] ∧ (∀ b ∈ text.head?, Proto.isspace b = false) ∧ ∀ b ∈ text, b ∉ special

/-- An argument that can be put into single quotes as it is: the last byte must not hide the
closing quote. -/
def Quotable (text : Bytes) : Prop :=
  (∀ b ∈ text, b ≠ 0 ∧ b ≠ 39) ∧ text.getLast? ≠ some 92

instance (text : Bytes) : Decidable (Plain text) := inferInstanceAs (Decidable (_ ∧ _ ∧ _))

instance (text : Bytes) : Decidable (Quotable text) := inferInstanceAs (Decidable (_ ∧ _))

namespace Word

def text : Word → Bytes
  | plain t => t
  | quoted t => t

def bytes : Word → Bytes
  | plain t => t
  | quoted t => 39 :: (t ++ [39])

def Ok : Word → Prop
  | plain t => Plain t
  | quoted t => Quotable t

/-- The line of these words. -/
def render (ws : List Word) : Bytes := [32].intercalate (ws.map bytes)

end Word

/-! ## Splitting a printed line -/

/-- Plain bytes go to the token. -/
theorem splitToken_plain {text : Bytes} (h : ∀ b ∈ text, b ∉ special) (current rest : Bytes) :
    splitToken .none current (text ++ rest) = splitToken .none (current ++ text) rest := by
  induction text generalizing current with
  | nil => rw [nil_append, append_nil]
  | cons b text ih =>
    have hb := h b mem_cons_self
    simp only [special, mem_cons, not_mem_nil, or_false, not_or] at hb
    obtain ⟨-, h9, h10, h13, h32, h34, h39⟩ := hb
    rw [cons_append, splitToken, if_neg (by simp [h9, h10, h13, h32]), if_neg h34, if_neg h39,
      ih fun c hc => h c (mem_cons_of_mem _ hc), append_assoc]
    rfl

/-- So do the bytes in single quotes, up to the closing quote. -/
theorem splitToken_quoted {text : Bytes} (h : ∀ b ∈ text, b ≠ 39) (hlast : text.getLast? ≠ some 92)
    (current : Bytes) {rest : Bytes} (hrest : quoteMayClose rest = true) :
    splitToken .single current (text ++ 39 :: rest) = some (current ++ text, rest) := by
  induction text generalizing current with
  | nil =>
    rw [nil_append, append_nil, splitToken, if_pos rfl, if_pos hrest]
    rintro p ⟨⟩
  | cons b text ih =>
    have hb := h b mem_cons_self
    have htail : ∀ c ∈ text, c ≠ 39 := fun c hc => h c (mem_cons_of_mem _ hc)
    have hnext : ∀ p, b = 92 → text ++ 39 :: rest ≠ 39 :: p := by
      intro p hb92 heq
      cases text with
      | nil =>
        subst hb92
        exact hlast rfl
      | cons c text => exact htail c mem_cons_self (List.cons.inj heq).1
    have hlast' : text.getLast? ≠ some 92 := by
      cases text with
      | nil => simp
      | cons c text => rwa [getLast?_cons_cons] at hlast
    rw [cons_append, splitToken, if_neg hb, ih htail hlast', append_assoc]
    · rfl
    · exact fun p hb92 heq => hnext p hb92 heq

namespace Word

theorem render_cons_cons (w v : Word) (ws : List Word) :
    render (w :: v :: ws) = w.bytes ++ 32 :: render (v :: ws) := by
  rw [render, map_cons, map_cons, intercalate_cons_cons, append_assoc]
  rfl

theorem Ok.head {w : Word} (hw : w.Ok) : ∃ b bs, w.bytes = b :: bs ∧ Proto.isspace b = false := by
  cases w with
  | plain t =>
    obtain ⟨hne, hhead, -⟩ := hw
    obtain ⟨b, bs, rfl⟩ := exists_cons_of_ne_nil hne
    exact ⟨b, bs, rfl, hhead b rfl⟩
  | quoted t => exact ⟨39, t ++ [39], rfl, by decide⟩

/-- The token of a word at the end of the line. -/
theorem Ok.splitToken_end {w : Word} (hw : w.Ok) :
    splitToken .none [] w.bytes = some (w.text, []) := by
  cases w with
  | plain t =>
    have h := splitToken_plain hw.2.2 [] []
    rw [append_nil] at h
    exact h
  | quoted t =>
    show splitToken .single [] (t ++ [39]) = _
    exact splitToken_quoted (fun b hb => (hw.1 b hb).2) hw.2 [] rfl

/-- The token of a word before another one; after a quote the blank is still there. -/
theorem Ok.splitToken_blank {w : Word} (hw : w.Ok) (rest : Bytes) :
    splitToken .none [] (w.bytes ++ 32 :: rest) = some (w.text, rest) ∨
      splitToken .none [] (w.bytes ++ 32 :: rest) = some (w.text, 32 :: rest) := by
  cases w with
  | plain t => exact .inl (splitToken_plain hw.2.2 [] (32 :: rest))
  | quoted t =>
    right
    show splitToken .single [] ((t ++ [39]) ++ 32 :: rest) = _
    rw [append_assoc]
    exact splitToken_quoted (fun b hb => (hw.1 b hb).2) hw.2 [] rfl

theorem splitLoop_nil (fuel : Nat) : splitLoop fuel [] = some [] := by
  cases fuel with
  | zero => rfl
  | succ fuel => rfl

theorem splitLoop_blank (fuel : Nat) (line : Bytes) :
    splitLoop fuel (32 :: line) = splitLoop fuel line := by
  cases fuel with
  | zero => rfl
  | succ fuel =>
    rw [splitLoop, splitLoop]
    rfl

/-- One turn of the loop, on a line that starts with a token. -/
theorem splitLoop_token {line p token left : Bytes} {b : UInt8} (hline : line = b :: p)
    (hb : Proto.isspace b = false) (htoken : splitToken .none [] line = some (token, left))
    (fuel : Nat) : splitLoop (fuel + 1) line = (splitLoop fuel left).map (token :: ·) := by
  subst hline
  rw [splitLoop, dropWhile_cons_of_neg (by rw [hb]; decide)]
  simp only [htoken]

theorem splitLoop_render {ws : List Word} (h : ∀ w ∈ ws, w.Ok) {fuel : Nat}
    (hfuel : ws.length < fuel) : splitLoop fuel (render ws) = some (ws.map text) := by
  induction ws generalizing fuel with
  | nil => exact splitLoop_nil fuel
  | cons w ws ih =>
    have hw := h w mem_cons_self
    have hws : ∀ v ∈ ws, v.Ok := fun v hv => h v (mem_cons_of_mem _ hv)
    obtain ⟨b, bs, hbytes, hblank⟩ := hw.head
    obtain ⟨fuel, rfl⟩ : ∃ n, fuel = n + 1 := ⟨fuel - 1, by omega⟩
    rw [length_cons, Nat.add_lt_add_iff_right] at hfuel
    cases ws with
    | nil =>
      have hline : render [w] = w.bytes := append_nil _
      rw [hline, splitLoop_token hbytes hblank hw.splitToken_end, splitLoop_nil]
      rfl
    | cons v ws =>
      have hline : w.bytes ++ 32 :: render (v :: ws) = b :: (bs ++ 32 :: render (v :: ws)) := by
        rw [hbytes, cons_append]
      rw [render_cons_cons]
      rcases hw.splitToken_blank (render (v :: ws)) with htoken | htoken
      · rw [splitLoop_token hline hblank htoken, ih hws hfuel]
        rfl
      · rw [splitLoop_token hline hblank htoken, splitLoop_blank, ih hws hfuel]
        rfl

theorem no_zero_render {ws : List Word} (h : ∀ w ∈ ws, w.Ok) : (0 : UInt8) ∉ render ws := by
  have hword : ∀ w : Word, w.Ok → (0 : UInt8) ∉ w.bytes := by
    intro w hw hzero
    cases w with
    | plain t => exact hw.2.2 0 hzero (by decide)
    | quoted t =>
      have hmem : (0 : UInt8) = 39 ∨ (0 : UInt8) ∈ t ∨ (0 : UInt8) = 39 := by
        simpa [bytes] using hzero
      rcases hmem with h | h | h
      · exact absurd h (by decide)
      · exact (hw.1 0 h).1 rfl
      · exact absurd h (by decide)
  induction ws with
  | nil => exact not_mem_nil
  | cons w ws ih =>
    have hw := hword w (h w mem_cons_self)
    cases ws with
    | nil =>
      have hline : render [w] = w.bytes := append_nil _
      rw [hline]
      exact hw
    | cons v ws =>
      rw [render_cons_cons, mem_append, mem_cons]
      rintro (hmem | hmem | hmem)
      · exact hw hmem
      · exact absurd hmem (by decide)
      · exact ih (fun u hu => h u (mem_cons_of_mem _ hu)) hmem

theorem length_le_render {ws : List Word} (h : ∀ w ∈ ws, w.Ok) :
    ws.length ≤ (render ws).length := by
  induction ws with
  | nil => exact Nat.zero_le _
  | cons w ws ih =>
    obtain ⟨b, bs, hbytes, -⟩ := (h w mem_cons_self).head
    cases ws with
    | nil =>
      have hline : render [w] = w.bytes := append_nil _
      rw [hline, hbytes]
      simp
    | cons v ws =>
      have := ih fun u hu => h u (mem_cons_of_mem _ hu)
      rw [render_cons_cons, hbytes]
      simp only [length_cons, length_append] at this ⊢
      omega

/-- A printed line is split into its arguments. -/
theorem sdssplitargs_render {ws : List Word} (h : ∀ w ∈ ws, w.Ok) :
    sdssplitargs (render ws) = some (ws.map text) := by
  rw [sdssplitargs, cstr_of_no_zero (no_zero_render h)]
  exact splitLoop_render h (by have := length_le_render h; omega)

theorem Ok.last {w : Word} (hw : w.Ok) : ∃ bs b, w.bytes = bs ++ [b] ∧ b ∉ [32, 9, 13, 10] := by
  cases w with
  | plain t =>
    obtain ⟨hne, -, hbytes⟩ := hw
    refine ⟨t.dropLast, t.getLast hne, (dropLast_append_getLast hne).symm, fun hmem => ?_⟩
    refine hbytes _ (getLast_mem hne) ?_
    simp only [special, mem_cons, not_mem_nil, or_false] at hmem ⊢
    tauto
  | quoted t => exact ⟨39 :: t, 39, rfl, by decide⟩

theorem render_last {ws : List Word} (h : ∀ w ∈ ws, w.Ok) (hne : ws ≠ []) :
    ∃ bs b, render ws = bs ++ [b] ∧ b ∉ [32, 9, 13, 10] := by
  induction ws with
  | nil => exact absurd rfl hne
  | cons w ws ih =>
    cases ws with
    | nil =>
      have hline : render [w] = w.bytes := append_nil _
      rw [hline]
      exact (h w mem_cons_self).last
    | cons v ws =>
      obtain ⟨bs, b, hbs, hb⟩ := ih (fun u hu => h u (mem_cons_of_mem _ hu)) (by simp)
      refine ⟨w.bytes ++ 32 :: bs, b, ?_, hb⟩
      rw [render_cons_cons, hbs, append_assoc]
      rfl

/-- A line that starts with its option is handled with the arguments it was printed from. -/
theorem lineArgs_render {option : Bytes} {ws : List Word} (hoption : Plain option)
    (hhead : option.head? ≠ some 35) (h : ∀ w ∈ ws, w.Ok) :
    lineArgs (render (plain option :: ws)) = some (option.map tolower :: ws.map text) := by
  have hall : ∀ w ∈ plain option :: ws, w.Ok := by
    intro w hw
    rcases mem_cons.1 hw with rfl | hw
    · exact hoption
    · exact h w hw
  obtain ⟨b, p, hp, hb⟩ : ∃ b p, render (plain option :: ws) = b :: p ∧
      (b = 35 ∨ b ∈ [32, 9, 13, 10] → False) := by
    obtain ⟨hne, hspace, hspecial⟩ := hoption
    obtain ⟨b, bs, rfl⟩ := exists_cons_of_ne_nil hne
    have hnot : b = 35 ∨ b ∈ [32, 9, 13, 10] → False := by
      rintro (h35 | hmem)
      · exact hhead (congrArg some h35)
      · refine hspecial b mem_cons_self ?_
        simp only [special, mem_cons, not_mem_nil, or_false] at hmem ⊢
        tauto
    cases ws with
    | nil => exact ⟨b, bs ++ [], rfl, hnot⟩
    | cons v ws => exact ⟨b, bs ++ 32 :: render (v :: ws), render_cons_cons _ _ _, hnot⟩
  obtain ⟨q, c, hq, hc⟩ := render_last hall (by simp)
  have htrim :
      sdstrim (render (plain option :: ws)) [32, 9, 13, 10] = render (plain option :: ws) := by
    have hfront : (render (plain option :: ws)).dropWhile (fun b => [32, 9, 13, 10].contains b) =
        render (plain option :: ws) := by
      rw [hp, dropWhile_cons_of_neg]
      rw [contains_iff_mem]
      exact fun hmem => hb (.inr hmem)
    rw [sdstrim, hfront, hq, rdropWhile_concat_neg]
    rw [contains_iff_mem]
    exact hc
  unfold lineArgs
  simp only [htrim]
  rw [if_neg, sdssplitargs_render hall]
  · rfl
  · rw [cstr_of_no_zero (no_zero_render hall), hp]
    rintro (h35 | hnil)
    · exact hb (.inl (Option.some.inj h35))
    · cases hnil

end Word

end XredisCrdt.Config
