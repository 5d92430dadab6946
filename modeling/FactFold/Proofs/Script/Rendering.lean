import FactFold.Proofs.Script.Comments

namespace FactFold.Script

open Text

def blanks : List Char :=
  [' ', '\t', '\r', '\n', '\x0c']

def escaped (quote c : Char) : List Char :=
  if c = '\\' then ['\\', '\\']
  else if c = '\n' then ['\\', 'n']
  else if c = quote then ['\\', quote]
  else [c]

inductive Written : Token → List Char → Prop
  | fixed (f : Fixed) : Written (.fixed f) f.spelling.toList
  | int (n : Int64) (h : 0 ≤ n) : Written (.int n) (toString n).toList
  | name {c : Char} {cs : List Char} (hc : isNameStart c = true) (hcs : ∀ d ∈ cs, isNamePart d = true)
      (hword : ∀ f ∈ Fixed.words, f.spelling.toList ≠ c :: cs) : Written (.name (String.ofList (c :: cs))) (c :: cs)
  | text {quote : Char} (hq : quote ∈ ['"', '\'']) (s : String) :
      Written (.text s) (quote :: (s.toList.flatMap (escaped quote) ++ [quote]))

inductive Spacing : List Char → Prop
  | nil : Spacing []
  | blank {c : Char} {cs : List Char} (hc : c ∈ blanks) (h : Spacing cs) : Spacing (c :: cs)
  | line {body cs : List Char} (hbody : '\n' ∉ body) (h : Spacing cs) :
      Spacing ('/' :: '/' :: (body ++ '\n' :: cs))
  | block {body cs : List Char} (hbody : '*' ∉ body) (h : Spacing cs) :
      Spacing ('/' :: '*' :: (body ++ '*' :: '/' :: cs))

structure Rendering where
  token : Token
  text : List Char
  blank : Char
  spacing : List Char
  isWritten : Written token text
  isBlank : blank ∈ blanks
  isSpacing : Spacing spacing

def Rendering.source (r : Rendering) : List Char :=
  r.text ++ r.blank :: r.spacing

def placed (start : Nat) : List Rendering → List Lexeme
  | [] => []
  | r :: rest => ⟨r.token, ⟨start, start + utf8Length r.text⟩⟩ :: placed (start + utf8Length r.source) rest

theorem utf8Length_cons (c : Char) (cs : List Char) : utf8Length (c :: cs) = c.utf8Size + utf8Length cs := by
  rw [← List.singleton_append, utf8Length_append]
  simp [utf8Length]

theorem run_append {p : Char → Bool} {cs rest : List Char} (hcs : ∀ c ∈ cs, p c = true)
    (hrest : ∀ c ∈ rest.head?, p c = false) : run p (cs ++ rest) = cs.length := by
  have hstop : rest.takeWhile p = [] := by
    cases rest with
    | nil => rfl
    | cons c rest => simp [hrest c rfl]
  rw [run, List.takeWhile_append_of_pos hcs, hstop, List.append_nil]

section

variable {start : Nat} {c : Char} {cs rest : List Char} {done : List Lexeme}

theorem lexemesFrom_blank (hc : c ∈ blanks) :
    lexemesFrom start (c :: cs) done = lexemesFrom (start + c.utf8Size) cs done := by
  have hpiece {d : Char} {ds : List Char} (hd : isGap d = true) : piece d ds = (.gap, run isGap ds) := by
    rw [piece, if_pos hd]
  rw [lexemesFrom_known done (hpiece (isGap_iff.mpr hc)) (by simp), utf8Length_cons]
  cases cs with
  | nil => simp [run, utf8Length, Piece.lexemes]
  | cons d ds =>
    by_cases hd : isGap d = true
    · have hrun : run isGap (d :: ds) = run isGap ds + 1 := by simp [run, hd]
      rw [lexemesFrom_known done (hpiece hd) (by simp), hrun, List.take_succ_cons, List.drop_succ_cons,
        Nat.add_assoc]
      rfl
    · have hrun : run isGap (d :: ds) = 0 := by simp [run, hd]
      simp [hrun, utf8Length, Piece.lexemes]

theorem piece_line {body : List Char} (h : '\n' ∉ body) (rest : List Char) :
    piece '/' ('/' :: body ++ '\n' :: rest) = (.gap, ('/' :: body).length) := by
  have hbody : ∀ c ∈ body, (c != '\n') = true := by
    intro c hc
    simpa using ne_of_mem_of_not_mem hc h
  have hrun : run (· != '\n') (body ++ '\n' :: rest) = body.length := run_append hbody (by simp)
  simp [piece, isGap, slashPiece, hrun, Nat.add_comm]

theorem commentBody_of_notMem (h : '*' ∉ cs) : CommentBody cs := by
  induction cs with
  | nil => exact .nil
  | cons c cs ih =>
    rw [List.mem_cons, not_or] at h
    exact .plain (Ne.symm h.1) (ih h.2)

theorem lexemesFrom_spacing (h : Spacing cs) :
    lexemesFrom start (cs ++ rest) done = lexemesFrom (start + utf8Length cs) rest done := by
  induction h generalizing start with
  | nil => simp [utf8Length]
  | blank hc h ih => rw [List.cons_append, lexemesFrom_blank hc, ih, utf8Length_cons, Nat.add_assoc]
  | @line body cs hbody h ih =>
    -- The comment stops before the line end, which is a blank of its own.
    have hline := lexemesFrom_append start done (piece_line hbody (cs ++ rest)) (by simp)
    have htext : '/' :: '/' :: (body ++ '\n' :: cs) = '/' :: '/' :: body ++ '\n' :: cs := rfl
    rw [htext, List.append_assoc, utf8Length_append, utf8Length_cons '\n' cs, ← Nat.add_assoc, ← Nat.add_assoc,
      ← ih, ← lexemesFrom_blank (by decide)]
    exact hline
  | @block body cs hbody h ih =>
    have hblock := lexemesFrom_append start done
      (piece_comment (commentBody_of_notMem hbody) (cs ++ rest)) (by simp)
    have htext : '/' :: '*' :: (body ++ '*' :: '/' :: cs) = '/' :: '*' :: (body ++ ['*', '/']) ++ cs := by simp
    rw [htext, List.append_assoc, utf8Length_append, ← Nat.add_assoc, ← ih]
    exact hblock

end

def Reads (t : Token) (text : List Char) : Prop :=
  ∃ c cs, text = c :: cs ∧ ∀ w ∈ blanks, ∀ rest, piece c (cs ++ w :: rest) = (.token t, cs.length)

variable {c w : Char} {cs rest : List Char}

theorem blank_excluded {p : Char → Bool} (hp : blanks.all (fun d => !p d) = true) (hw : w ∈ blanks) :
    p w = false := by
  simpa using List.all_eq_true.mp hp w hw

theorem ne_of_class {p : Char → Bool} {d : Char} (hd : p d = false) (hc : p c = true) : c ≠ d := by
  rintro rfl
  rw [hd] at hc
  cases hc

theorem isGap_of_class {p : Char → Bool} (hp : blanks.all (fun d => !p d) = true) (hc : p c = true) :
    isGap c = false := by
  rw [← Bool.not_eq_true]
  intro hgap
  exact ne_of_class (blank_excluded hp (isGap_iff.mp hgap)) hc rfl

theorem piece_digit (hc : c.isDigit = true) : piece c rest = numberPiece c rest := by
  have hquote : ¬ (c = '"' ∨ c = '\'') := not_or.mpr ⟨ne_of_class rfl hc, ne_of_class rfl hc⟩
  rw [piece, isGap_of_class rfl hc, if_neg (by simp), if_neg (ne_of_class rfl hc), if_neg hquote, if_pos hc]

theorem not_isDigit_of_nameStart (hc : isNameStart c = true) : c.isDigit = false := by
  simp only [isNameStart, Bool.or_eq_true, beq_iff_eq] at hc
  rcases hc with (halpha | rfl) | rfl
  · rw [← Bool.not_eq_true]
    intro hdigit
    simp only [Char.isAlpha, Char.isUpper, Char.isLower, Char.isDigit, Bool.or_eq_true, Bool.and_eq_true,
      decide_eq_true_eq, UInt32.le_iff_toNat_le] at halpha hdigit
    simp at halpha hdigit
    omega
  · rfl
  · rfl

theorem piece_nameStart (hc : isNameStart c = true) : piece c rest = namePiece c rest := by
  have hquote : ¬ (c = '"' ∨ c = '\'') := not_or.mpr ⟨ne_of_class rfl hc, ne_of_class rfl hc⟩
  rw [piece, isGap_of_class rfl hc, if_neg (by simp), if_neg (ne_of_class rfl hc), if_neg hquote,
    not_isDigit_of_nameStart hc, if_neg (by simp), if_pos hc]

theorem namePiece_append (hcs : ∀ d ∈ cs, isNamePart d = true) (hw : w ∈ blanks) :
    namePiece c (cs ++ w :: rest) =
      (((Fixed.words.find? (·.spelling == String.ofList (c :: cs))).elim
        (.token (.name (String.ofList (c :: cs)))) (.token <| .fixed ·)), cs.length) := by
  have hrun : run isNamePart (cs ++ w :: rest) = cs.length := run_append hcs (by simpa using blank_excluded rfl hw)
  rw [namePiece, hrun, List.take_left' rfl]
  cases Fixed.words.find? (·.spelling == String.ofList (c :: cs)) <;> rfl

theorem numberPiece_append (hcs : ∀ d ∈ cs, d.isDigit = true) (hw : w ∈ blanks)
    (hsize : Decimal.digitsValue (c :: cs) < UInt64.size / 2) :
    numberPiece c (cs ++ w :: rest) = (.token (.int (Int64.ofNat (Decimal.digitsValue (c :: cs)))), cs.length) := by
  have hrun : run Char.isDigit (cs ++ w :: rest) = cs.length :=
    run_append hcs (by simpa using blank_excluded rfl hw)
  have hfraction : fractionRun (w :: rest) = 0 := by
    have : w ≠ '.' := ne_of_mem_of_not_mem hw (by decide)
    simp [fractionRun, this]
  have hexponent : Decimal.exponentRun (w :: rest) = 0 := by
    have hw : w ≠ 'e' ∧ w ≠ 'E' := ⟨ne_of_mem_of_not_mem hw (by decide), ne_of_mem_of_not_mem hw (by decide)⟩
    cases rest with
    | nil => rfl
    | cons d rest => rw [exponentRun_cons, if_pos hw]
  simp [numberPiece, hrun, hfraction, hexponent, hsize]

theorem reads_int {n : Int64} (h : 0 ≤ n) : Reads (.int n) (toString n).toList := by
  obtain ⟨m, hm⟩ : ∃ m : Nat, n.toInt = m := Int.eq_ofNat_of_zero_le (by simpa using Int64.le_iff_toInt_le.mp h)
  have htext : (toString n).toList = Nat.toDigits 10 m := by
    change (toString n.toInt).toList = _
    rw [hm]
    exact Nat.toList_repr
  have hdigits : ∀ d ∈ Nat.toDigits 10 m, d.isDigit = true := by
    intro d hd
    exact Nat.isDigit_of_mem_toDigits (by omega) (by omega) hd
  have hvalue : Decimal.digitsValue (Nat.toDigits 10 m) = m := Nat.ofDigitChars_ten_toDigits
  have hsize : m < 2 ^ 63 := by
    have := n.toInt_lt
    omega
  have hint : Int64.ofNat m = n := by
    rw [← Int64.toInt_inj, hm, Int64.toInt_ofNat_of_lt hsize]
  rw [htext]
  cases hcs : Nat.toDigits 10 m with
  | nil => exact absurd hcs Nat.toDigits_ne_nil
  | cons c cs =>
    rw [hcs] at hdigits hvalue
    refine ⟨c, cs, rfl, fun w hw rest => ?_⟩
    rw [piece_digit (hdigits c List.mem_cons_self),
      numberPiece_append (fun d hd => hdigits d (List.mem_cons_of_mem c hd)) hw (by rw [hvalue]; exact hsize),
      hvalue, hint]

theorem reads_name (hc : isNameStart c = true) (hcs : ∀ d ∈ cs, isNamePart d = true)
    (hword : ∀ f ∈ Fixed.words, f.spelling.toList ≠ c :: cs) : Reads (.name (String.ofList (c :: cs))) (c :: cs) := by
  refine ⟨c, cs, rfl, fun w hw rest => ?_⟩
  have hnone : Fixed.words.find? (·.spelling == String.ofList (c :: cs)) = none := by
    rw [List.find?_eq_none]
    intro f hf heq
    apply hword f hf
    rw [eq_of_beq heq, String.toList_ofList]
  rw [piece_nameStart hc, namePiece_append hcs hw, hnone]
  rfl

theorem reads_word {f : Fixed} (hf : f ∈ Fixed.words) : Reads (.fixed f) f.spelling.toList := by
  have hfind : ∀ f ∈ Fixed.words, Fixed.words.find? (·.spelling == f.spelling) = some f := by decide
  have table : (Fixed.words.all fun f =>
      f.spelling.toList.head?.any isNameStart && f.spelling.toList.all isNamePart) = true := rfl
  have hclass := List.all_eq_true.mp table f hf
  cases htext : f.spelling.toList with
  | nil => simp [htext] at hclass
  | cons c cs =>
    simp only [htext, List.head?_cons, Option.any_some, List.all_cons, Bool.and_eq_true, List.all_eq_true] at hclass
    refine ⟨c, cs, rfl, fun w hw rest => ?_⟩
    rw [piece_nameStart hclass.1, namePiece_append hclass.2.2 hw, ← htext, String.ofList_toList, hfind f hf]
    rfl

def signs : List Char :=
  ['+', '-', '*', '/', '%', '<', '>', '!', '=', '?', ':', '.', ',', ';', '(', ')', '\x7b', '\x7d', '&', '|']

theorem piece_sign (hc : c ∈ signs) (hslash : c ≠ '/' ∨ ∀ d ∈ rest.head?, d ≠ '/' ∧ d ≠ '*') :
    piece c rest = signPiece c rest := by
  have table : signs.all (fun c => !isGap c && !c.isDigit && !isNameStart c && c != '"' && c != '\'') = true := rfl
  have hclass := List.all_eq_true.mp table c hc
  simp only [Bool.and_eq_true, Bool.not_eq_true', bne_iff_ne] at hclass
  obtain ⟨⟨⟨⟨hgap, hdigit⟩, hstart⟩, hdouble⟩, hsingle⟩ := hclass
  by_cases hc : c = '/'
  · subst hc
    have hrest := hslash.resolve_left (fun h => h rfl)
    have hsign : slashPiece rest = signPiece '/' rest := by
      unfold slashPiece
      split
      · exact absurd rfl (hrest _ rfl).1
      · exact absurd rfl (hrest _ rfl).2
      · rfl
    rw [piece, hgap, if_neg (by simp), if_pos rfl, hsign]
  · simp [piece, hgap, hc, hdouble, hsingle, hdigit, hstart]

theorem pair_blank (hw : w ∈ blanks) : pair? c w = none := by
  unfold pair?
  split
  case h_9 => rfl
  all_goals exact absurd hw (by decide)

theorem reads_sign {f : Fixed} (hf : f ∉ Fixed.words) : Reads (.fixed f) f.spelling.toList := by
  have single {c : Char} {f : Fixed} (htext : f.spelling.toList = [c]) (hc : c ∈ signs) (hf : single? c = some f) :
      Reads (.fixed f) f.spelling.toList := by
    refine ⟨c, [], htext, fun w hw rest => ?_⟩
    have hslash : c ≠ '/' ∨ ∀ d ∈ (w :: rest).head?, d ≠ '/' ∧ d ≠ '*' := by
      refine .inr ?_
      rintro d ⟨⟩
      exact ⟨ne_of_mem_of_not_mem hw (by decide), ne_of_mem_of_not_mem hw (by decide)⟩
    rw [List.nil_append, piece_sign hc hslash]
    simp [signPiece, pair_blank hw, hf]
  have pair {c d : Char} {f : Fixed} (htext : f.spelling.toList = [c, d]) (hc : c ∈ signs) (hslash : c ≠ '/')
      (hf : pair? c d = some f) : Reads (.fixed f) f.spelling.toList := by
    refine ⟨c, [d], htext, fun w hw rest => ?_⟩
    rw [piece_sign hc (.inl hslash)]
    simp [signPiece, hf]
  cases f
  case varWord | ifWord | elseWord | returnWord | trueWord | falseWord | nullWord => exact absurd (by decide) hf
  case equalEqual | bangEqual | lessEqual | greaterEqual | andAnd | orOr | plusEqual | minusEqual =>
    exact pair rfl (by decide) (by decide) rfl
  all_goals exact single rfl (by decide) rfl

section

variable {quote : Char} {done : List Char}

theorem quotedBody_escaped (hq : quote ∈ ['"', '\'']) (c : Char) (rest : List Char) (n : Nat) :
    quotedBody quote (escaped quote c ++ rest) n = quotedBody quote rest (n + (escaped quote c).length) := by
  have hquote : quote ≠ '\n' := ne_of_mem_of_not_mem hq (by decide)
  unfold escaped
  split_ifs with hbackslash hline hself
  · simp [quotedBody]
  · simp [quotedBody]
  · simp [quotedBody, hquote]
  · exact (quotedBody_plain hbackslash rest n).trans (if_neg hself)

theorem quotedBody_escapes (hq : quote ∈ ['"', '\'']) (cs rest : List Char) (n : Nat) :
    quotedBody quote (cs.flatMap (escaped quote) ++ quote :: rest) n =
      (true, n + (cs.flatMap (escaped quote)).length + 1) := by
  induction cs generalizing n with
  | nil =>
    have hquote : quote ≠ '\\' := ne_of_mem_of_not_mem hq (by decide)
    exact (quotedBody_plain hquote rest n).trans (if_pos rfl)
  | cons c cs ih =>
    rw [List.flatMap_cons, List.append_assoc, quotedBody_escaped hq, ih, List.length_append, Nat.add_assoc n]

theorem unescape?_plain (hc : c ≠ '\\') : unescape? (c :: rest) done = unescape? rest (c :: done) := by
  refine unescape?.eq_9 done c rest ?_ ?_
  · intro _ _ h
    exact absurd h hc
  · intro h
    exact absurd h hc

theorem unescape?_escaped (hq : quote ∈ ['"', '\'']) (c : Char) :
    unescape? (escaped quote c ++ rest) done = unescape? rest (c :: done) := by
  unfold escaped
  split_ifs with hbackslash hline hself
  · simp [unescape?, hbackslash]
  · simp [unescape?, hline]
  · subst hself
    simp only [List.mem_cons, List.not_mem_nil, or_false] at hq
    rcases hq with rfl | rfl
    · rfl
    · rfl
  · exact unescape?_plain hbackslash

theorem unescape?_escapes (hq : quote ∈ ['"', '\'']) (cs : List Char) :
    unescape? (cs.flatMap (escaped quote)) done = some (done.reverse ++ cs) := by
  induction cs generalizing done with
  | nil => simp [unescape?]
  | cons c cs ih => rw [List.flatMap_cons, unescape?_escaped hq, ih, List.reverse_cons, List.append_assoc]; rfl

theorem piece_quote (hq : quote ∈ ['"', '\'']) (rest : List Char) : piece quote rest = quotedPiece quote rest := by
  simp only [List.mem_cons, List.not_mem_nil, or_false] at hq
  rcases hq with rfl | rfl
  · rfl
  · rfl

theorem reads_text (hq : quote ∈ ['"', '\'']) (s : String) :
    Reads (.text s) (quote :: (s.toList.flatMap (escaped quote) ++ [quote])) := by
  refine ⟨quote, _, rfl, fun w _ rest => ?_⟩
  rw [piece_quote hq, quotedPiece, List.append_assoc, List.singleton_append, quotedBody_escapes hq, Nat.zero_add]
  simp only [Nat.add_sub_cancel, List.take_left', unescape?_escapes hq]
  simp

end

theorem Written.reads {t : Token} {text : List Char} (h : Written t text) : Reads t text := by
  cases h with
  | fixed f =>
    by_cases hf : f ∈ Fixed.words
    · exact reads_word hf
    · exact reads_sign hf
  | int n hn => exact reads_int hn
  | name hc hcs hword => exact reads_name hc hcs hword
  | text hq s => exact reads_text hq s

theorem lexemesFrom_rendering (r : Rendering) (start : Nat) (rest : List Char) (done : List Lexeme) :
    lexemesFrom start (r.source ++ rest) done =
      lexemesFrom (start + utf8Length r.source) rest
        (⟨r.token, ⟨start, start + utf8Length r.text⟩⟩ :: done) := by
  obtain ⟨c, cs, htext, hpiece⟩ := r.isWritten.reads
  have hsource : r.source ++ rest = c :: (cs ++ r.blank :: (r.spacing ++ rest)) := by
    simp [Rendering.source, htext]
  have hread := lexemesFrom_append start done (hpiece r.blank r.isBlank (r.spacing ++ rest)) (by simp)
  rw [hsource, hread, ← htext, lexemesFrom_blank r.isBlank, lexemesFrom_spacing r.isSpacing, Rendering.source,
    utf8Length_append, utf8Length_cons, Nat.add_assoc, Nat.add_assoc]
  rfl

theorem lexemesFrom_renderings (rs : List Rendering) (start : Nat) (done : List Lexeme) :
    lexemesFrom start (rs.flatMap Rendering.source) done = .ok (done.reverse ++ placed start rs) := by
  induction rs generalizing start done with
  | nil => simp [lexemesFrom, placed]
  | cons r rs ih =>
    rw [List.flatMap_cons, lexemesFrom_rendering, ih, placed, List.reverse_cons, List.append_assoc]
    rfl

theorem lexemes_rendered {lead : List Char} (hlead : Spacing lead) (rs : List Rendering) :
    lexemes (String.ofList (lead ++ rs.flatMap Rendering.source)) = .ok (placed (utf8Length lead) rs) := by
  rw [lexemes, String.toList_ofList, lexemesFrom_spacing hlead, lexemesFrom_renderings, Nat.zero_add]
  rfl

theorem lexemes_rendered_comparison :
    Spacing [' '] ∧ lexemes " x /* is */ == // it\n7 'it\\'s' " =
      .ok [⟨.name "x", ⟨1, 2⟩⟩, ⟨.fixed .equalEqual, ⟨12, 14⟩⟩, ⟨.int 7, ⟨21, 22⟩⟩, ⟨.text "it's", ⟨23, 30⟩⟩] := by
  have hlead : Spacing [' '] := .blank (by decide) .nil
  refine ⟨hlead, ?_⟩
  exact lexemes_rendered hlead [
    ⟨.name (String.ofList ['x']), ['x'], ' ', "/* is */ ".toList, .name rfl (by simp) (by decide), by decide,
      .block (by decide : '*' ∉ " is ".toList) (.blank (by decide) .nil)⟩,
    ⟨.fixed .equalEqual, ['=', '='], ' ', "// it\n".toList, .fixed .equalEqual, by decide,
      .line (by decide : '\n' ∉ " it".toList) .nil⟩,
    ⟨.int 7, ['7'], ' ', [], .int 7 (by decide), by decide, .nil⟩,
    ⟨.text "it's", "'it\\'s'".toList, ' ', [], .text (by decide : '\'' ∈ ['"', '\'']) "it's", by decide, .nil⟩]

end FactFold.Script
