import FactFold.Proofs.Script.Pieces

/-!
The tokens of a source stand one behind the other, and between them there is nothing but what may be dropped.
Each token can be read off its own stretch of the source, and what stands in front of an error is tiled in the
same way.
-/

namespace FactFold.Text

theorem utf8Length_foldl (cs : List Char) (n : Nat) :
    cs.foldl (fun n c => n + c.utf8Size) n = n + utf8Length cs := by
  induction cs generalizing n with
  | nil => rfl
  | cons c cs ih =>
    rw [utf8Length, List.foldl_cons, List.foldl_cons, ih, ih (0 + c.utf8Size)]
    omega

theorem utf8Length_append (cs ds : List Char) : utf8Length (cs ++ ds) = utf8Length cs + utf8Length ds := by
  rw [utf8Length, List.foldl_append, utf8Length_foldl]
  rfl

theorem utf8Length_pos {cs : List Char} (h : cs ≠ []) : 0 < utf8Length cs := by
  obtain ⟨c, cs, rfl⟩ := List.exists_cons_of_ne_nil h
  have hc := c.utf8Size_pos
  rw [utf8Length, List.foldl_cons, utf8Length_foldl]
  omega

end FactFold.Text

namespace FactFold.Script

open Text

def Gap (cs : List Char) : Prop :=
  ∃ pieces : List (List Char), cs = pieces.flatten ∧ ∀ text ∈ pieces, Skipped text

theorem gap_nil : Gap [] :=
  ⟨[], rfl, by simp⟩

theorem Gap.snoc {cs text : List Char} (h : Gap cs) (ht : Skipped text) : Gap (cs ++ text) := by
  obtain ⟨pieces, rfl, hp⟩ := h
  refine ⟨pieces ++ [text], by simp, ?_⟩
  simpa [or_imp, forall_and] using ⟨hp, ht⟩

def Slice (source : List Char) (span : Span) (text : List Char) : Prop :=
  ∃ before after, source = before ++ text ++ after ∧
    span = ⟨utf8Length before, utf8Length before + utf8Length text⟩

structure Tiling (source : List Char) (ls : List Lexeme) : Prop where
  nonempty : ∀ l ∈ ls, l.span.start < l.span.stop
  ordered : ls.Pairwise fun l l' => l.span.stop ≤ l'.span.start
  -- Every token is the only one of its own text.
  alone : ∀ l ∈ ls, ∃ text, Slice source l.span text ∧
    lexemes (String.ofList text) = .ok [⟨l.token, ⟨0, utf8Length text⟩⟩]
  -- In front of the first token, between two tokens and behind the last one.
  gaps : List.IsChain (fun s s' => ∃ text, Slice source ⟨s.stop, s'.start⟩ text ∧ Gap text)
    (⟨0, 0⟩ :: (ls.map Lexeme.span ++ [⟨utf8Length source, utf8Length source⟩]))

inductive Tiled : Nat → List Char → List Lexeme → Prop
  | nil (start : Nat) : Tiled start [] []
  | skip {start : Nat} {text rest : List Char} {ls : List Lexeme} (ht : Skipped text)
      (h : Tiled (start + utf8Length text) rest ls) : Tiled start (text ++ rest) ls
  | token {start : Nat} {text rest : List Char} {t : Token} {ls : List Lexeme} (hne : text ≠ [])
      (ht : lexemes (String.ofList text) = .ok [⟨t, ⟨0, utf8Length text⟩⟩])
      (h : Tiled (start + utf8Length text) rest ls) :
      Tiled start (text ++ rest) (⟨t, ⟨start, start + utf8Length text⟩⟩ :: ls)

namespace Tiled

variable {start : Nat} {cs : List Char} {ls : List Lexeme}

theorem nonempty (h : Tiled start cs ls) : ∀ l ∈ ls, start ≤ l.span.start ∧ l.span.start < l.span.stop := by
  induction h with
  | nil => simp
  | skip ht h ih => exact fun l hl => ⟨by have := (ih l hl).1; omega, (ih l hl).2⟩
  | token hne ht h ih =>
    have hpos := utf8Length_pos hne
    intro l hl
    rcases List.mem_cons.1 hl with rfl | hl
    · exact ⟨Nat.le_refl _, by dsimp only; omega⟩
    · exact ⟨by have := (ih l hl).1; omega, (ih l hl).2⟩

theorem ordered (h : Tiled start cs ls) : ls.Pairwise fun l l' => l.span.stop ≤ l'.span.start := by
  induction h with
  | nil => exact .nil
  | skip ht h ih => exact ih
  | token hne ht h ih => exact .cons (fun l hl => (h.nonempty l hl).1) ih

theorem alone (h : Tiled start cs ls) {before : List Char} (hstart : start = utf8Length before) :
    ∀ l ∈ ls, ∃ text, Slice (before ++ cs) l.span text ∧
      lexemes (String.ofList text) = .ok [⟨l.token, ⟨0, utf8Length text⟩⟩] := by
  induction h generalizing before with
  | nil => simp
  | @skip start text rest ls ht h ih =>
    have hbefore : start + utf8Length text = utf8Length (before ++ text) := by rw [utf8Length_append, hstart]
    have hrest := ih hbefore
    simpa only [List.append_assoc] using hrest
  | @token start text rest t ls hne ht h ih =>
    have hbefore : start + utf8Length text = utf8Length (before ++ text) := by rw [utf8Length_append, hstart]
    have hrest := ih hbefore
    rw [List.append_assoc] at hrest
    intro l hl
    rcases List.mem_cons.1 hl with rfl | hl
    · exact ⟨text, ⟨before, rest, by simp, by rw [hstart]⟩, ht⟩
    · exact hrest l hl

-- The text `gap` has been passed over since the last token, which ends behind `before`.
theorem gaps (h : Tiled start cs ls) {before gap : List Char} (hgap : Gap gap)
    (hstart : start = utf8Length (before ++ gap)) {s : Span} (hs : s.stop = utf8Length before) :
    List.IsChain (fun s s' => ∃ text, Slice (before ++ gap ++ cs) ⟨s.stop, s'.start⟩ text ∧ Gap text)
      (s :: (ls.map Lexeme.span ++ [⟨utf8Length (before ++ gap ++ cs), utf8Length (before ++ gap ++ cs)⟩])) := by
  induction h generalizing before gap s with
  | nil start =>
    refine .cons_cons ⟨gap, ⟨before, [], by simp, ?_⟩, hgap⟩ (.singleton _)
    rw [hs, List.append_nil, utf8Length_append]
  | @skip start text rest ls ht h ih =>
    have hbefore : start + utf8Length text = utf8Length (before ++ (gap ++ text)) := by
      simp [utf8Length_append, hstart, Nat.add_assoc]
    have hrest := ih (hgap.snoc ht) hbefore hs
    simpa only [List.append_assoc] using hrest
  | @token start text rest t ls hne ht h ih =>
    have hbefore : start + utf8Length text = utf8Length (before ++ gap ++ text) := by
      rw [utf8Length_append, hstart]
    have hrest := ih gap_nil ((List.append_nil _).symm ▸ hbefore) (s := ⟨start, start + utf8Length text⟩) hbefore
    rw [List.append_nil, List.append_assoc _ text] at hrest
    refine .cons_cons ⟨gap, ⟨before, text ++ rest, rfl, ?_⟩, hgap⟩ hrest
    rw [hs, hstart, utf8Length_append]

theorem tiling {source : List Char} (h : Tiled 0 source ls) : Tiling source ls where
  nonempty l hl := (h.nonempty l hl).2
  ordered := h.ordered
  alone := h.alone (show 0 = utf8Length [] from rfl)
  gaps := h.gaps gap_nil (show 0 = utf8Length ([] ++ []) from rfl) rfl

end Tiled

def Piece.lexemes (span : Span) : Piece → List Lexeme
  | .token t => [⟨t, span⟩]
  | _ => []

section

variable {start n : Nat} {c : Char} {rest : List Char}

theorem lexemesFrom_known {kind : Piece} (done : List Lexeme) (h : piece c rest = (kind, n))
    (hkind : kind ≠ .unknown) : lexemesFrom start (c :: rest) done =
      lexemesFrom (start + utf8Length (c :: rest.take n)) (rest.drop n)
        (kind.lexemes ⟨start, start + utf8Length (c :: rest.take n)⟩ ++ done) := by
  rw [lexemesFrom, h]
  cases kind with
  | gap => rfl
  | token t => rfl
  | unknown => exact absurd rfl hkind

theorem lexemesFrom_append {kind : Piece} {text : List Char} (start : Nat) (done : List Lexeme)
    (h : piece c (text ++ rest) = (kind, text.length)) (hkind : kind ≠ .unknown) :
    lexemesFrom start (c :: (text ++ rest)) done = lexemesFrom (start + utf8Length (c :: text)) rest
      (kind.lexemes ⟨start, start + utf8Length (c :: text)⟩ ++ done) := by
  rw [lexemesFrom_known done h hkind, List.take_left' rfl, List.drop_left' rfl]

theorem lexemesFrom_front {kind : Piece} {before : List Char} (done : List Lexeme) (h : piece c rest = (kind, n))
    (hkind : kind ≠ .unknown) (hb : before <+: rest.drop n) :
    lexemesFrom start (c :: rest.take n ++ before) done = lexemesFrom (start + utf8Length (c :: rest.take n)) before
      (kind.lexemes ⟨start, start + utf8Length (c :: rest.take n)⟩ ++ done) := by
  -- the piece with `before` behind it is the whole text, cut off behind `before`
  obtain ⟨hle, hcut⟩ := piece_cut h hkind (Nat.le_add_right n before.length)
  rw [List.take_add, ← List.prefix_iff_eq_take.1 hb] at hcut
  have hlength : (rest.take n).length = n := List.length_take_of_le hle
  rw [List.cons_append, lexemesFrom_known done hcut hkind, List.take_left' hlength, List.drop_left' hlength]

theorem lexemes_alone {t : Token} (h : piece c rest = (.token t, n)) :
    lexemes (String.ofList (c :: rest.take n)) = .ok [⟨t, ⟨0, utf8Length (c :: rest.take n)⟩⟩] := by
  have hfront : lexemesFrom 0 (c :: rest.take n ++ []) [] = _ := lexemesFrom_front [] h (by simp) List.nil_prefix
  rw [List.append_nil] at hfront
  simp [lexemes, hfront, lexemesFrom, Piece.lexemes]

end

theorem tiled_of_lexemesFrom {start : Nat} {cs : List Char} {done ls : List Lexeme}
    (h : lexemesFrom start cs done = .ok ls) : ∃ ls', ls = done.reverse ++ ls' ∧ Tiled start cs ls' := by
  fun_induction lexemesFrom start cs done with
  | case1 start done =>
    cases h
    exact ⟨[], by simp, .nil start⟩
  | case2 start done c rest n text span hp ih =>
    obtain ⟨ls', rfl, ht⟩ := ih h
    have htiled := ht.skip (skipped_of_piece hp)
    rw [List.cons_append, List.take_append_drop] at htiled
    exact ⟨ls', rfl, htiled⟩
  | case3 start done c rest n text span t hp ih =>
    obtain ⟨ls', rfl, ht⟩ := ih h
    have htiled := ht.token (List.cons_ne_nil _ _) (lexemes_alone hp)
    rw [List.cons_append, List.take_append_drop] at htiled
    exact ⟨_ :: ls', by simp [text, span], htiled⟩
  | case4 => cases h

def StopsAt (start : Nat) (cs : List Char) (done : List Lexeme) (e : LexError) : Prop :=
  ∃ before after ls, cs = before ++ (e.text.toList ++ after) ∧ e.text.toList ≠ [] ∧
    e.span = ⟨start + utf8Length before, start + utf8Length before + utf8Length e.text.toList⟩ ∧
    lexemesFrom start before done = .ok ls

theorem StopsAt.behind {start n : Nat} {c : Char} {rest : List Char} {done : List Lexeme} {kind : Piece}
    {e : LexError} (hp : piece c rest = (kind, n)) (hkind : kind ≠ .unknown)
    (h : StopsAt (start + utf8Length (c :: rest.take n)) (rest.drop n)
      (kind.lexemes ⟨start, start + utf8Length (c :: rest.take n)⟩ ++ done) e) :
    StopsAt start (c :: rest) done e := by
  obtain ⟨before, after, ls, hrest, hne, hspan, hls⟩ := h
  refine ⟨c :: rest.take n ++ before, after, ls, ?_, hne, ?_, ?_⟩
  · rw [List.append_assoc, ← hrest, List.cons_append, List.take_append_drop]
  · rw [hspan, utf8Length_append, Nat.add_assoc]
  · rw [lexemesFrom_front done hp hkind (hrest ▸ List.prefix_append before _), hls]

theorem lexemesFrom_error {start : Nat} {cs : List Char} {done : List Lexeme} {e : LexError}
    (h : lexemesFrom start cs done = .error e) : StopsAt start cs done e := by
  fun_induction lexemesFrom start cs done with
  | case1 => cases h
  | case2 start done c rest n text span hp ih => exact (ih h).behind hp (by simp)
  | case3 start done c rest n text span t hp ih => exact (ih h).behind hp (by simp)
  | case4 start done c rest n text span hp =>
    cases h
    exact ⟨[], rest.drop n, done.reverse, by simp [text], by simp [text], by simp [span, text, utf8Length],
      by rw [lexemesFrom]⟩

theorem lexemes_tile (source : String) :
    match lexemes source with
    | .ok ls => Tiling source.toList ls
    | .error e => e.span.start < e.span.stop ∧
      ∃ before after ls, source.toList = before ++ (e.text.toList ++ after) ∧
        e.span = ⟨utf8Length before, utf8Length before + utf8Length e.text.toList⟩ ∧
        lexemes (String.ofList before) = .ok ls ∧ Tiling before ls := by
  cases h : lexemes source with
  | ok ls =>
    obtain ⟨ls', rfl, ht⟩ := tiled_of_lexemesFrom h
    exact ht.tiling
  | error e =>
    obtain ⟨before, after, ls, hsource, hne, hspan, hls⟩ := lexemesFrom_error h
    obtain ⟨ls', rfl, ht⟩ := tiled_of_lexemesFrom hls
    have hpos := utf8Length_pos hne
    rw [Nat.zero_add] at hspan
    refine ⟨by rw [hspan]; dsimp only; omega, before, after, _, hsource, hspan, ?_, ht.tiling⟩
    rw [lexemes, String.toList_ofList, hls]

end FactFold.Script
