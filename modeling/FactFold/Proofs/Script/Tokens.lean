import Mathlib.Tactic.SplitIfs
import FactFold.Script.Lexer

namespace FactFold.Script

section

variable {c : Char} {rest : List Char} {n : Nat} {t : Token}

theorem signPiece_fixed (h : signPiece c rest = (.token t, n)) : ∃ f, t = .fixed f := by
  unfold signPiece at h
  split at h
  · cases h
    exact ⟨_, rfl⟩
  · split at h
    · cases h
      exact ⟨_, rfl⟩
    · cases h

theorem slashPiece_fixed (h : slashPiece rest = (.token t, n)) : ∃ f, t = .fixed f := by
  unfold slashPiece at h
  split at h
  · cases h
  · split at h <;> cases h
  · exact signPiece_fixed h

theorem quotedPiece_text (h : quotedPiece c rest = (.token t, n)) : ∃ s, t = .text s := by
  unfold quotedPiece at h
  split at h
  · cases h
  · split at h
    · cases h
      exact ⟨_, rfl⟩
    · cases h

theorem namePiece_token (h : namePiece c rest = (.token t, n)) :
    (∃ f, t = .fixed f) ∨ t = .name (String.ofList (c :: rest.take n)) := by
  unfold namePiece at h
  dsimp only at h
  split at h
  · cases h
    exact .inl ⟨_, rfl⟩
  · cases h
    exact .inr rfl

theorem numberPiece_token (h : numberPiece c rest = (.token t, n)) : (∃ m, t = .int m) ∨ ∃ x, t = .float x := by
  unfold numberPiece at h
  dsimp only at h
  split at h
  · split at h
    · cases h
      exact .inl ⟨_, rfl⟩
    · cases h
  · split at h
    · cases h
      exact .inr ⟨_, rfl⟩
    · cases h

theorem piece_token (h : piece c rest = (.token t, n)) :
    (∃ f, t = .fixed f) ∨ (∃ s, t = .text s) ∨ t = .name (String.ofList (c :: rest.take n)) ∨
      numberPiece c rest = (.token t, n) := by
  unfold piece at h
  split_ifs at h
  · cases h
  · exact .inl (slashPiece_fixed h)
  · exact .inr (.inl (quotedPiece_text h))
  · exact .inr (.inr (.inr h))
  · rcases namePiece_token h with hf | hn
    · exact .inl hf
    · exact .inr (.inr (.inl hn))
  · exact .inl (signPiece_fixed h)

end

theorem tokens_of_lexemesFrom {P : Token → Prop} (hP : ∀ {c rest t n}, piece c rest = (.token t, n) → P t)
    {start : Nat} {cs : List Char} {done ls : List Lexeme} (h : lexemesFrom start cs done = .ok ls)
    (hdone : ∀ l ∈ done, P l.token) : ∀ l ∈ ls, P l.token := by
  fun_induction lexemesFrom start cs done with
  | case1 =>
    cases h
    simpa using hdone
  | case2 start done c rest n text span hp ih => exact ih h hdone
  | case3 start done c rest n text span t hp ih => exact ih h (List.forall_mem_cons.2 ⟨hP hp, hdone⟩)
  | case4 => cases h

theorem tokens_of_lexemes {P : Token → Prop} (hP : ∀ {c rest t n}, piece c rest = (.token t, n) → P t)
    {source : String} {ls : List Lexeme} (h : lexemes source = .ok ls) : ∀ l ∈ ls, P l.token :=
  tokens_of_lexemesFrom hP h (by simp)

end FactFold.Script
