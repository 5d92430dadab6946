import FactFold.Proofs.Script.Tiling

namespace FactFold.Script

open Text

def Span.shift (n : Nat) (s : Span) : Span :=
  ⟨n + s.start, n + s.stop⟩

def Lexeme.shift (n : Nat) (l : Lexeme) : Lexeme :=
  { l with span := l.span.shift n }

def LexError.shift (n : Nat) (e : LexError) : LexError :=
  { e with span := e.span.shift n }

def shifted (n : Nat) : Except LexError (List Lexeme) → Except LexError (List Lexeme)
  | .ok ls => .ok (ls.map (Lexeme.shift n))
  | .error e => .error (e.shift n)

theorem lexemesFrom_shift (n start : Nat) (cs : List Char) (done : List Lexeme) :
    lexemesFrom (n + start) cs (done.map (Lexeme.shift n)) = shifted n (lexemesFrom start cs done) := by
  fun_induction lexemesFrom start cs done with
  | case1 start done => simp [lexemesFrom, shifted]
  | case2 start done c rest m text span hp ih =>
    rw [lexemesFrom_known _ hp (by simp), Nat.add_assoc]
    exact ih
  | case3 start done c rest m text span t hp ih =>
    rw [lexemesFrom_known _ hp (by simp), Nat.add_assoc]
    exact ih
  | case4 start done c rest m text span hp =>
    rw [lexemesFrom, hp]
    simp [shifted, LexError.shift, Span.shift, text, span, Nat.add_assoc]

theorem lexemesFrom_eq_shifted (n : Nat) (cs : List Char) :
    lexemesFrom n cs [] = shifted n (lexemes (String.ofList cs)) := by
  rw [lexemes, String.toList_ofList, ← lexemesFrom_shift]
  rfl

theorem CommentBody.append {cs ds : List Char} (hc : CommentBody cs) (hd : CommentBody ds) :
    CommentBody (cs ++ ds) := by
  induction hc with
  | nil => exact hd
  | plain hc h ih => exact .plain hc ih
  | star hc h ih => exact .star hc ih

theorem commentBody_stars (k : Nat) : CommentBody (List.replicate (2 * k) '*') := by
  induction k with
  | zero => exact .nil
  | succ k ih => exact .star (by decide) ih

theorem commentBody_of_last {cs : List Char} (hclosed : ¬ ['*', '/'] <:+: cs) (hlast : cs.getLast? ≠ some '*') :
    CommentBody cs := by
  match cs with
  | [] => exact .nil
  | [c] => exact .plain (by simpa using hlast) .nil
  | c :: d :: rest =>
    have hrest : ¬ ['*', '/'] <:+: d :: rest := fun h => hclosed (h.trans (List.suffix_cons c _).isInfix)
    by_cases hc : c = '*'
    · subst hc
      have hd : d ≠ '/' := by
        rintro rfl
        exact hclosed (List.prefix_append ['*', '/'] rest).isInfix
      apply CommentBody.star hd
      cases rest with
      | nil => exact .nil
      | cons e rest =>
        apply commentBody_of_last
        · exact fun h => hrest (h.trans (List.suffix_cons d _).isInfix)
        · simpa using hlast
    · apply CommentBody.plain hc
      apply commentBody_of_last hrest
      simpa using hlast

def endStars (cs : List Char) : Nat :=
  (cs.rtakeWhile (· == '*')).length

theorem exists_front (cs : List Char) :
    ∃ front, cs = front ++ List.replicate (endStars cs) '*' ∧ front.getLast? ≠ some '*' := by
  refine ⟨cs.rdropWhile (· == '*'), ?_, ?_⟩
  · have hstars : cs.rtakeWhile (· == '*') = List.replicate (endStars cs) '*' := by
      apply List.eq_replicate_iff.mpr
      refine ⟨rfl, fun c hc => ?_⟩
      simpa using List.mem_rtakeWhile_imp hc
    rw [← hstars, List.rdropWhile_append_rtakeWhile]
  · intro hlast
    have hne : cs.rdropWhile (· == '*') ≠ [] := by
      intro hnil
      simp [hnil] at hlast
    rw [List.getLast?_eq_some_getLast hne] at hlast
    exact List.rdropWhile_last_not _ _ hne (by simp [Option.some.inj hlast])

variable {cs : List Char}

theorem commentBody_of_even (hclosed : ¬ ['*', '/'] <:+: cs) (heven : Even (endStars cs)) : CommentBody cs := by
  obtain ⟨front, hcs, hlast⟩ := exists_front cs
  obtain ⟨k, hk⟩ := heven
  rw [hk, ← two_mul] at hcs
  rw [hcs] at hclosed ⊢
  exact (commentBody_of_last (fun h => hclosed (h.trans (List.prefix_append _ _).isInfix)) hlast).append
    (commentBody_stars k)

theorem commentBody_of_odd (hclosed : ¬ ['*', '/'] <:+: cs) (hodd : ¬ Even (endStars cs)) :
    CommentBody (cs ++ ['*', '/']) := by
  obtain ⟨front, hcs, hlast⟩ := exists_front cs
  obtain ⟨k, hk⟩ := Nat.not_even_iff_odd.mp hodd
  have hstars : List.replicate (2 * (k + 1)) '*' = List.replicate (2 * k + 1) '*' ++ ['*'] :=
    List.replicate_succ'
  have hsigns : cs ++ ['*', '/'] = front ++ (List.replicate (2 * (k + 1)) '*' ++ ['/']) := by
    rw [hcs, hk, hstars]
    simp
  rw [hcs] at hclosed
  rw [hsigns]
  have hfront : CommentBody front :=
    commentBody_of_last (fun h => hclosed (h.trans (List.prefix_append _ _).isInfix)) hlast
  exact hfront.append ((commentBody_stars _).append (.plain (by decide) .nil))

theorem piece_comment {body : List Char} (h : CommentBody body) (rest : List Char) :
    piece '/' ('*' :: (body ++ ['*', '/']) ++ rest) = (.gap, ('*' :: (body ++ ['*', '/'])).length) := by
  have hclosed := h.closed rest 0
  rw [Nat.zero_add] at hclosed
  simp [piece, isGap, slashPiece, hclosed]

def comment (body : String) : String :=
  "/*" ++ body ++ "*/"

theorem toList_comment (body : String) : (comment body).toList = '/' :: '*' :: (body.toList ++ ['*', '/']) := by
  simp [comment]

theorem lexemes_comment {body : String} (h : CommentBody body.toList) (rest : String) :
    lexemes (comment body ++ rest) = shifted (utf8Length (comment body).toList) (lexemes rest) := by
  rw [lexemes, String.toList_append, toList_comment, List.cons_append,
    lexemesFrom_append 0 [] (piece_comment h rest.toList) (by simp), Nat.zero_add]
  exact (lexemesFrom_eq_shifted _ _).trans (by rw [String.ofList_toList])

theorem commentBody_open (h : ∀ body rest, CommentBody body → cs ≠ body ++ '*' :: '/' :: rest) (n : Nat) :
    (commentBody cs n).1 = false := by
  by_contra hclosed
  rw [Bool.not_eq_false] at hclosed
  obtain ⟨body, hb, htake, -⟩ := commentBody_take (Prod.ext hclosed rfl : commentBody cs n = (true, _))
  apply h body (cs.drop ((commentBody cs n).2 - n)) hb
  conv_lhs => rw [← List.take_append_drop ((commentBody cs n).2 - n) cs, htake]
  simp

theorem lexemes_open (h : (commentBody cs 0).1 = false) :
    ∃ e, lexemes (String.ofList ('/' :: '*' :: cs)) = .error e ∧ e.span.start = 0 := by
  have hpiece : piece '/' ('*' :: cs) = (.unknown, (commentBody cs 0).2 + 1) := by
    rw [piece, if_neg (by decide), if_pos rfl, slashPiece, (Prod.ext h rfl : commentBody cs 0 = (false, _))]
  rw [lexemes, String.toList_ofList, lexemesFrom, hpiece]
  exact ⟨_, rfl, rfl⟩

theorem comment_ends (c r : String) (hc : ¬ ['*', '/'] <:+: c.toList) :
    if Even (endStars c.toList) then
      lexemes (comment c ++ r) = shifted (utf8Length (comment c).toList) (lexemes r)
    else
      (∀ body rest, CommentBody body.toList → r = body ++ "*/" ++ rest →
        lexemes (comment c ++ r) = shifted (utf8Length (comment (c ++ "*/" ++ body)).toList) (lexemes rest)) ∧
      ((∀ body rest, CommentBody body.toList → r ≠ body ++ "*/" ++ rest) →
        ∃ e, lexemes (comment c ++ r) = .error e ∧ e.span.start = 0) := by
  split
  · next heven => exact lexemes_comment (commentBody_of_even hc heven) r
  · next hodd =>
    have hsigns := commentBody_of_odd hc hodd
    constructor
    · rintro body rest hbody rfl
      have hlonger : CommentBody (c ++ "*/" ++ body).toList := by
        simpa using hsigns.append hbody
      rw [← lexemes_comment hlonger]
      simp [comment, String.append_assoc]
    · intro hopen
      have htext : comment c ++ r = String.ofList ('/' :: '*' :: (c.toList ++ ['*', '/'] ++ r.toList)) := by
        apply String.toList_inj.mp
        simp [toList_comment]
      rw [htext]
      apply lexemes_open
      rw [hsigns.skip]
      apply commentBody_open
      intro body rest hbody hr
      apply hopen (String.ofList body) (String.ofList rest) (by rwa [String.toList_ofList])
      apply String.toList_inj.mp
      simp [hr]

theorem comment_ends_stars :
    ¬ ['*', '/'] <:+: " x ** y **".toList ∧
      lexemes (comment " x ** y **" ++ "z") = .ok [⟨.name "z", ⟨14, 15⟩⟩] := by
  have hc : ¬ ['*', '/'] <:+: " x ** y **".toList := by decide
  have heven : Even (endStars " x ** y **".toList) := by decide
  have hz : lexemes "z" = .ok [⟨.name "z", ⟨0, 1⟩⟩] := by cbv
  refine ⟨hc, ?_⟩
  have hends := comment_ends " x ** y **" "z" hc
  rw [if_pos heven, hz] at hends
  rw [hends]
  rfl

theorem starred_comment_open :
    ¬ ∀ c r : String, ¬ ['*', '/'] <:+: c.toList →
      lexemes (comment c ++ r) = shifted (utf8Length (comment c).toList) (lexemes r) := by
  intro h
  have hstar := h "*" "" (by decide)
  have hopen : lexemes (comment "*" ++ "") = .error ⟨"/***/", ⟨0, 5⟩⟩ := by cbv
  have hempty : lexemes "" = .ok [] := by cbv
  rw [hopen, hempty] at hstar
  cases hstar

end FactFold.Script
