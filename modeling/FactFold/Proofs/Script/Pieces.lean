import Mathlib
import FactFold.Script.Lexer

namespace FactFold.Script

/-- The body of a block comment: characters that are no star, and stars with a character behind each that is
no slash. -/
inductive CommentBody : List Char → Prop
  | nil : CommentBody []
  | plain {c : Char} {cs : List Char} (hc : c ≠ '*') (h : CommentBody cs) : CommentBody (c :: cs)
  | star {c : Char} {cs : List Char} (hc : c ≠ '/') (h : CommentBody cs) : CommentBody ('*' :: c :: cs)

inductive Skipped : List Char → Prop
  | blanks {cs : List Char} (hne : cs ≠ []) (h : ∀ c ∈ cs, c ∈ [' ', '\t', '\r', '\n', '\x0c']) : Skipped cs
  | line {cs : List Char} (h : '\n' ∉ cs) : Skipped ('/' :: '/' :: cs)
  | block {cs : List Char} (h : CommentBody cs) : Skipped ('/' :: '*' :: (cs ++ ['*', '/']))

theorem isGap_iff {c : Char} : isGap c = true ↔ c ∈ [' ', '\t', '\r', '\n', '\x0c'] := by
  simp [isGap, or_assoc]

theorem mem_take_run {p : Char → Bool} {cs : List Char} {c : Char} (h : c ∈ cs.take (run p cs)) : p c = true := by
  have htake : cs.take (run p cs) = cs.takeWhile p :=
    (List.prefix_iff_eq_take.1 (List.takeWhile_prefix p)).symm
  exact List.mem_takeWhile_imp (htake ▸ h)

theorem commentBody_take {cs : List Char} {n m : Nat} (h : commentBody cs n = (true, m)) :
    ∃ body, CommentBody body ∧ cs.take (m - n) = body ++ ['*', '/'] ∧ n < m := by
  fun_induction commentBody cs n with
  | case1 rest n =>
    cases h
    exact ⟨[], .nil, by simp, by omega⟩
  | case2 c rest n hc ih =>
    obtain ⟨body, hbody, htake, hlt⟩ := ih h
    refine ⟨'*' :: c :: body, .star (fun he => hc he) hbody, ?_, by omega⟩
    rw [show m - n = m - (n + 2) + 2 by omega, List.take_succ_cons, List.take_succ_cons, htake]
    rfl
  | case3 n => cases h
  | case4 c rest n hclosing hstar hlast ih =>
    obtain ⟨body, hbody, htake, hlt⟩ := ih h
    refine ⟨c :: body, .plain ?_ hbody, ?_, by omega⟩
    · rintro rfl
      cases rest with
      | nil => exact hlast rfl rfl
      | cons d rest => exact hstar d rest rfl rfl
    · rw [show m - n = m - (n + 1) + 1 by omega, List.take_succ_cons, htake]
      rfl
  | case5 n => cases h

theorem numberPiece_ne_gap (c : Char) (rest : List Char) : (numberPiece c rest).1 ≠ .gap := by
  unfold numberPiece
  dsimp only
  split
  · split <;> nofun
  · split <;> nofun

theorem namePiece_ne_gap (c : Char) (rest : List Char) : (namePiece c rest).1 ≠ .gap := by
  unfold namePiece
  dsimp only
  split <;> nofun

theorem quotedPiece_ne_gap (quote : Char) (rest : List Char) : (quotedPiece quote rest).1 ≠ .gap := by
  unfold quotedPiece
  split
  · nofun
  · split <;> nofun

theorem signPiece_ne_gap (c : Char) (rest : List Char) : (signPiece c rest).1 ≠ .gap := by
  unfold signPiece
  split
  · nofun
  · split <;> nofun

theorem skipped_of_slashPiece {rest : List Char} {n : Nat} (h : slashPiece rest = (.gap, n)) :
    Skipped ('/' :: rest.take n) := by
  unfold slashPiece at h
  split at h
  · cases h
    rw [Nat.add_comm, List.take_succ_cons]
    refine .line fun hmem => ?_
    simpa using mem_take_run hmem
  · rename_i rest
    split at h
    · rename_i m hm
      cases h
      obtain ⟨body, hbody, htake, -⟩ := commentBody_take hm
      rw [List.take_succ_cons, ← Nat.sub_zero m, htake]
      exact .block hbody
    · cases h
  · exact absurd (congrArg Prod.fst h) (signPiece_ne_gap '/' rest)

theorem skipped_of_piece {c : Char} {rest : List Char} {n : Nat} (h : piece c rest = (.gap, n)) :
    Skipped (c :: rest.take n) := by
  unfold piece at h
  split at h
  · rename_i hc
    cases h
    refine .blanks (List.cons_ne_nil _ _) fun d hd => isGap_iff.1 ?_
    rcases List.mem_cons.1 hd with rfl | hd
    · exact hc
    · exact mem_take_run hd
  · split at h
    · rename_i hc
      subst hc
      exact skipped_of_slashPiece h
    · split at h
      · exact absurd (congrArg Prod.fst h) (quotedPiece_ne_gap c rest)
      · split at h
        · exact absurd (congrArg Prod.fst h) (numberPiece_ne_gap c rest)
        · split at h
          · exact absurd (congrArg Prod.fst h) (namePiece_ne_gap c rest)
          · exact absurd (congrArg Prod.fst h) (signPiece_ne_gap c rest)

/-- The length of a match lies in the text, and stays the same if text behind the match is cut off. -/
def Local (f : List Char → Nat) : Prop :=
  ∀ cs, f cs ≤ cs.length ∧ ∀ k, f cs ≤ k → f (cs.take k) = f cs

theorem run_take (p : Char → Bool) (cs : List Char) (k : Nat) : run p (cs.take k) = min k (run p cs) := by
  rw [run, run, ← List.take_takeWhile, List.length_take]

theorem run_le (p : Char → Bool) (cs : List Char) : run p cs ≤ cs.length :=
  (List.takeWhile_prefix p).length_le

theorem local_run (p : Char → Bool) : Local (run p) := by
  intro cs
  refine ⟨run_le p cs, fun k hk => ?_⟩
  rw [run_take, Nat.min_eq_right hk]

theorem local_fractionRun : Local fractionRun := by
  intro cs
  rcases cs with _ | ⟨c, rest⟩
  · simp [fractionRun]
  by_cases hc : c = '.'
  · subst hc
    have hle := run_le Char.isDigit rest
    refine ⟨by simp only [fractionRun, List.length_cons]; split <;> omega, fun k hk => ?_⟩
    cases k with
    | zero =>
      rw [List.take_zero, Nat.le_zero.1 hk]
      rfl
    | succ k =>
      simp only [fractionRun, List.take_succ_cons, run_take] at hk ⊢
      split at hk <;> split <;> omega
  · have hzero (rest : List Char) : fractionRun (c :: rest) = 0 := by
      simp [fractionRun, hc]
    refine ⟨by simp [hzero], fun k hk => ?_⟩
    cases k with
    | zero => rw [List.take_zero, hzero, fractionRun.eq_def]
    | succ k => rw [List.take_succ_cons, hzero, hzero]

theorem exponentRun_cons (e sign : Char) (rest : List Char) : Decimal.exponentRun (e :: sign :: rest) =
    if e ≠ 'e' ∧ e ≠ 'E' then 0
    else if sign = '+' ∨ sign = '-' then
      if run Char.isDigit rest = 0 then 0 else run Char.isDigit rest + 2
    else if run Char.isDigit (sign :: rest) = 0 then 0 else run Char.isDigit (sign :: rest) + 1 :=
  rfl

theorem local_exponentRun : Local Decimal.exponentRun := by
  intro cs
  rcases cs with _ | ⟨e, _ | ⟨sign, rest⟩⟩
  · simp [Decimal.exponentRun]
  · refine ⟨Nat.zero_le _, fun k hk => ?_⟩
    cases k <;> simp [Decimal.exponentRun]
  · have hle := run_le Char.isDigit rest
    have hle' := run_le Char.isDigit (sign :: rest)
    simp only [List.length_cons] at hle hle' ⊢
    refine ⟨by rw [exponentRun_cons]; split_ifs <;> omega, fun k hk => ?_⟩
    rcases k with _ | _ | k
    · rw [List.take_zero, Nat.le_zero.1 hk]
      rfl
    · rw [exponentRun_cons] at hk ⊢
      simp only [List.take_succ_cons, List.take_zero, Decimal.exponentRun]
      split_ifs at hk ⊢ <;> omega
    · have hsign : sign :: rest.take k = (sign :: rest).take (k + 1) := rfl
      rw [exponentRun_cons] at hk
      rw [List.take_succ_cons, List.take_succ_cons, exponentRun_cons, exponentRun_cons, hsign, run_take, run_take]
      split_ifs at hk ⊢ <;> omega

theorem Local.then {f g : List Char → Nat} (hf : Local f) (hg : Local g) :
    Local fun cs => f cs + g (cs.drop (f cs)) := by
  intro cs
  have hg' := hg (cs.drop (f cs))
  have hlength := (hf cs).1
  rw [List.length_drop] at hg'
  refine ⟨by dsimp only; omega, fun k hk => ?_⟩
  dsimp only at hk ⊢
  have hfront := (hf cs).2 k (by omega)
  rw [hfront, List.drop_take, hg'.2 (k - f cs) (by omega)]

theorem commentBody_plain {c : Char} (hc : c ≠ '*') (cs : List Char) (n : Nat) :
    commentBody (c :: cs) n = commentBody cs (n + 1) := by
  simp [commentBody, hc]

theorem commentBody_star {c : Char} (hc : c ≠ '/') (cs : List Char) (n : Nat) :
    commentBody ('*' :: c :: cs) n = commentBody cs (n + 2) := by
  simp [commentBody]

theorem CommentBody.skip {body : List Char} (h : CommentBody body) (rest : List Char) (n : Nat) :
    commentBody (body ++ rest) n = commentBody rest (n + body.length) := by
  induction h generalizing n with
  | nil => rfl
  | plain hc h ih =>
    rw [List.cons_append, commentBody_plain hc, ih, List.length_cons]
    congr 1
    omega
  | star hc h ih =>
    rw [List.cons_append, List.cons_append, commentBody_star hc, ih, List.length_cons, List.length_cons]
    congr 1
    omega

theorem CommentBody.closed {body : List Char} (h : CommentBody body) (rest : List Char) (n : Nat) :
    commentBody (body ++ '*' :: '/' :: rest) n = (true, n + body.length + 2) := by
  rw [h.skip, commentBody]

theorem commentBody_cut {cs : List Char} {n k : Nat} (h : commentBody cs 0 = (true, n)) :
    n ≤ cs.length ∧ (n ≤ k → commentBody (cs.take k) 0 = (true, n)) := by
  obtain ⟨body, hbody, htake, -⟩ := commentBody_take h
  rw [Nat.sub_zero] at htake
  have hclosed := hbody.closed (cs.drop n) 0
  have hcs : body ++ '*' :: '/' :: cs.drop n = cs := by
    conv_rhs => rw [← List.take_append_drop n cs, htake]
    simp
  rw [hcs, h] at hclosed
  have hn : n = body.length + 2 := by simpa using congrArg Prod.snd hclosed
  refine ⟨?_, fun hk => ?_⟩
  · rw [← hcs]
    simp only [List.length_append, List.length_cons]
    omega
  · obtain ⟨j, rfl⟩ := Nat.exists_eq_add_of_le hk
    rw [List.take_add, htake, List.append_assoc]
    simpa [hn] using hbody.closed ((cs.drop n).take j) 0

theorem quotedBody_plain {quote c : Char} (hc : c ≠ '\\') (cs : List Char) (n : Nat) :
    quotedBody quote (c :: cs) n = if c = quote then (true, n + 1) else quotedBody quote cs (n + 1) := by
  simp [quotedBody, hc]

theorem ne_backslash {c : Char} {cs : List Char} (hescape : ∀ d ds, c = '\\' → cs = d :: ds → False)
    (hlast : c = '\\' → cs = [] → False) : c ≠ '\\' := by
  intro hc
  cases cs with
  | nil => exact hlast hc rfl
  | cons d ds => exact hescape d ds hc rfl

theorem quotedBody_cut {quote : Char} {cs : List Char} {n m : Nat} (h : quotedBody quote cs n = (true, m)) :
    n < m ∧ m ≤ n + cs.length ∧ ∀ k, m ≤ n + k → quotedBody quote (cs.take k) n = (true, m) := by
  fun_induction quotedBody quote cs n with
  | case1 => cases h
  | case2 c rest n hc ih =>
    obtain ⟨hlt, hle, hcut⟩ := ih h
    refine ⟨by omega, by simp only [List.length_cons]; omega, fun k hk => ?_⟩
    obtain ⟨j, rfl⟩ : ∃ j, k = j + 2 := ⟨k - 2, by omega⟩
    simp only [List.take_succ_cons, quotedBody, if_neg hc]
    exact hcut j (by omega)
  | case3 n => cases h
  | case4 rest n hescape hlast =>
    cases h
    refine ⟨by omega, by simp only [List.length_cons]; omega, fun k hk => ?_⟩
    obtain ⟨j, rfl⟩ : ∃ j, k = j + 1 := ⟨k - 1, by omega⟩
    rw [List.take_succ_cons, quotedBody_plain (ne_backslash hescape hlast), if_pos rfl]
  | case5 c rest n hescape hlast hc ih =>
    obtain ⟨hlt, hle, hcut⟩ := ih h
    refine ⟨by omega, by simp only [List.length_cons]; omega, fun k hk => ?_⟩
    obtain ⟨j, rfl⟩ : ∃ j, k = j + 1 := ⟨k - 1, by omega⟩
    rw [List.take_succ_cons, quotedBody_plain (ne_backslash hescape hlast), if_neg hc]
    exact hcut j (by omega)
  | case6 n => cases h

theorem quotedPiece_cut {quote : Char} {rest : List Char} {kind : Piece} {n k : Nat}
    (h : quotedPiece quote rest = (kind, n)) (hkind : kind ≠ .unknown) :
    n ≤ rest.length ∧ (n ≤ k → quotedPiece quote (rest.take k) = (kind, n)) := by
  rw [quotedPiece.eq_def] at h
  split at h
  · cases h
    exact absurd rfl hkind
  · rename_i m hm
    obtain ⟨hpos, hle, hcut⟩ := quotedBody_cut hm
    have hn : m = n := by split at h <;> exact congrArg Prod.snd h
    subst hn
    refine ⟨by omega, fun hk => ?_⟩
    have hcontent : (rest.take k).take (m - 1) = rest.take (m - 1) := by
      rw [List.take_take, Nat.min_eq_left (by omega)]
    rw [quotedPiece, hcut k (by omega)]
    simp only [hcontent]
    exact h

theorem numberPiece_cut {c : Char} {rest : List Char} {kind : Piece} {n k : Nat}
    (h : numberPiece c rest = (kind, n)) :
    n ≤ rest.length ∧ (n ≤ k → numberPiece c (rest.take k) = (kind, n)) := by
  have hwhole := local_run Char.isDigit rest
  have hfraction := (local_run Char.isDigit).then local_fractionRun rest
  have hexponent := ((local_run Char.isDigit).then local_fractionRun).then local_exponentRun rest
  dsimp only at hwhole hfraction hexponent
  generalize hw : run Char.isDigit rest = whole at hwhole hfraction hexponent
  generalize hf : fractionRun (rest.drop whole) = fraction at hfraction hexponent
  generalize he : Decimal.exponentRun (rest.drop (whole + fraction)) = exponent at hexponent
  have hn : whole + fraction + exponent = n := by
    unfold numberPiece at h
    simp only [hw, hf, he] at h
    split at h
    · have := congrArg Prod.snd h
      dsimp only at this
      omega
    · split at h <;> exact congrArg Prod.snd h
  refine ⟨hn ▸ hexponent.1, fun hk => ?_⟩
  have hw' := hwhole.2 k (by omega)
  have hf' := hfraction.2 k (by omega)
  rw [hw', Nat.add_left_cancel_iff] at hf'
  have he' := hexponent.2 k (by omega)
  rw [hw', hf', Nat.add_left_cancel_iff] at he'
  have htake {m : Nat} (hm : m ≤ n) : (rest.take k).take m = rest.take m := by
    rw [List.take_take, Nat.min_eq_left (by omega)]
  rw [← h, numberPiece, numberPiece]
  simp only [hw, hf, he, hw', hf', he', htake (m := whole) (by omega),
    htake (m := whole + fraction + exponent) (by omega)]

theorem namePiece_cut {c : Char} {rest : List Char} {kind : Piece} {n k : Nat} (h : namePiece c rest = (kind, n)) :
    n ≤ rest.length ∧ (n ≤ k → namePiece c (rest.take k) = (kind, n)) := by
  have hn : run isNamePart rest = n := by
    unfold namePiece at h
    dsimp only at h
    split at h <;> exact congrArg Prod.snd h
  refine ⟨hn ▸ run_le isNamePart rest, fun hk => ?_⟩
  have hspelling : (rest.take k).take n = rest.take n := by rw [List.take_take, Nat.min_eq_left hk]
  rw [← h, namePiece, namePiece, (local_run isNamePart rest).2 k (hn ▸ hk), hn, hspelling]

theorem signPiece_cut {c : Char} {rest : List Char} {kind : Piece} {n k : Nat} (h : signPiece c rest = (kind, n)) :
    n ≤ rest.length ∧ (n ≤ k → signPiece c (rest.take k) = (kind, n)) := by
  unfold signPiece at h
  split at h
  · rename_i f hf
    cases h
    cases rest with
    | nil => cases hf
    | cons d rest =>
      refine ⟨Nat.succ_le_succ (Nat.zero_le _), fun hk => ?_⟩
      obtain ⟨j, rfl⟩ : ∃ j, k = j + 1 := ⟨k - 1, by omega⟩
      rw [signPiece, List.take_succ_cons, List.head?_cons, ← List.head?_cons (l := rest), hf]
  · rename_i hpair
    have hn : n = 0 := by split at h <;> exact (congrArg Prod.snd h).symm
    subst hn
    refine ⟨Nat.zero_le _, fun _ => ?_⟩
    have hcut : (rest.take k).head?.bind (pair? c) = none := by
      cases k with
      | zero => rfl
      | succ k => rwa [List.head?_take, if_neg (Nat.succ_ne_zero k)]
    rw [← h, signPiece, hcut]

theorem exists_of_take_eq_cons {cs ds : List Char} {c : Char} {k : Nat} (h : cs.take k = c :: ds) :
    ∃ rest, cs = c :: rest := by
  have hhead : (cs.take k).head? = some c := by rw [h, List.head?_cons]
  rw [List.head?_take] at hhead
  split at hhead
  · cases hhead
  · exact ⟨cs.tail, List.eq_cons_of_mem_head? hhead⟩

theorem slashPiece_cut {rest : List Char} {kind : Piece} {n k : Nat} (h : slashPiece rest = (kind, n))
    (hkind : kind ≠ .unknown) : n ≤ rest.length ∧ (n ≤ k → slashPiece (rest.take k) = (kind, n)) := by
  unfold slashPiece at h
  split at h
  · rename_i rest
    cases h
    have hlocal := local_run (· != '\n') rest
    refine ⟨by simp only [List.length_cons]; omega, fun hk => ?_⟩
    obtain ⟨j, rfl⟩ : ∃ j, k = j + 1 := ⟨k - 1, by omega⟩
    rw [List.take_succ_cons, slashPiece, hlocal.2 j (by omega)]
  · rename_i rest
    split at h
    · rename_i m hm
      cases h
      have hcut := fun k => commentBody_cut (k := k) hm
      refine ⟨Nat.succ_le_succ (hcut 0).1, fun hk => ?_⟩
      obtain ⟨j, rfl⟩ : ∃ j, k = j + 1 := ⟨k - 1, by omega⟩
      rw [List.take_succ_cons, slashPiece, (hcut j).2 (by omega)]
    · cases h
      exact absurd rfl hkind
  · rename_i hline hblock
    obtain ⟨hle, hcut⟩ := signPiece_cut (k := k) h
    refine ⟨hle, fun hk => ?_⟩
    -- a text that is cut off begins a comment only if the whole text does
    rw [slashPiece.eq_def]
    split
    · rename_i hfront
      obtain ⟨rest, rfl⟩ := exists_of_take_eq_cons hfront
      exact (hline rest rfl).elim
    · rename_i hfront
      obtain ⟨rest, rfl⟩ := exists_of_take_eq_cons hfront
      exact (hblock rest rfl).elim
    · exact hcut hk

theorem piece_cut {c : Char} {rest : List Char} {kind : Piece} {n k : Nat} (h : piece c rest = (kind, n))
    (hkind : kind ≠ .unknown) (hk : n ≤ k) : n ≤ rest.length ∧ piece c (rest.take k) = (kind, n) := by
  unfold piece at h ⊢
  by_cases hgap : isGap c = true
  · rw [if_pos hgap] at h ⊢
    have hlocal := local_run isGap rest
    cases h
    exact ⟨hlocal.1, by rw [hlocal.2 k hk]⟩
  rw [if_neg hgap] at h ⊢
  by_cases hslash : c = '/'
  · rw [if_pos hslash] at h ⊢
    exact (slashPiece_cut h hkind).imp_right (· hk)
  rw [if_neg hslash] at h ⊢
  by_cases hquote : c = '"' ∨ c = '\''
  · rw [if_pos hquote] at h ⊢
    exact (quotedPiece_cut h hkind).imp_right (· hk)
  rw [if_neg hquote] at h ⊢
  by_cases hdigit : c.isDigit = true
  · rw [if_pos hdigit] at h ⊢
    exact (numberPiece_cut h).imp_right (· hk)
  rw [if_neg hdigit] at h ⊢
  by_cases hname : isNameStart c = true
  · rw [if_pos hname] at h ⊢
    exact (namePiece_cut h).imp_right (· hk)
  rw [if_neg hname] at h ⊢
  exact (signPiece_cut h).imp_right (· hk)

end FactFold.Script
