import FactFold.Proofs.Script.Grammar.Soundness
import FactFold.Proofs.Script.Places
import FactFold.Proofs.Script.Tokens

namespace FactFold.Script

open Grammar

section

variable {n : Int64}

theorem neg_ne_minValue (h : n ≠ Int64.minValue) : -n ≠ Int64.minValue := by
  intro hneg
  apply h
  rw [← Int64.neg_neg (a := n), hneg]
  decide

theorem int64?_neg (h : n ≠ Int64.minValue) : int64? (-n.toInt) = some (-n) := by
  have hne : n.toInt ≠ Int64.minValue.toInt := fun heq => h (Int64.toInt_inj.1 heq)
  have hmin : Int64.minValue.toInt = -2 ^ 63 := rfl
  have hle := n.minValue_le_toInt
  have hlt := n.toInt_lt
  rw [int64?_eq_some_iff, Int64.toInt_neg, Int.bmod_eq_of_le] <;> omega

theorem toInt_neg (h : n ≠ Int64.minValue) : (-n).toInt = -n.toInt :=
  (int64?_eq_some_iff _ _).1 (int64?_neg h)

end

section

variable {c : Char} {rest : List Char} {k : Nat} {n : Int64}

theorem numberPiece_int (h : numberPiece c rest = (.token (.int n), k)) : n ≠ Int64.minValue := by
  unfold numberPiece at h
  dsimp only at h
  split at h
  · split at h
    · rename_i hlt
      cases h
      intro hmin
      have hnat := Int64.toInt_ofNat_of_lt hlt
      rw [hmin] at hnat
      exact absurd hnat (by simp)
    · cases h
  · split at h <;> cases h

theorem piece_int (h : piece c rest = (.token (.int n), k)) : n ≠ Int64.minValue := by
  rcases piece_token h with ⟨f, hf⟩ | ⟨s, hs⟩ | hname | hnumber
  · cases hf
  · cases hs
  · cases hname
  · exact numberPiece_int hnumber

end

def Unsigned (ls : List Lexeme) : Prop :=
  ∀ l ∈ ls, l.token ≠ .int Int64.minValue

theorem unsigned_of_lexemes {source : String} {ls : List Lexeme} (h : lexemes source = .ok ls) : Unsigned ls := by
  refine tokens_of_lexemes (P := (· ≠ .int Int64.minValue)) (fun hp ht => ?_) h
  subst ht
  exact piece_int hp rfl

mutual

theorem Grammar.Expression.int_ne {ts : List Token} {e : Expr} {n : Int64} {s : Span} (h : Expression ts e)
    (he : e = .literal (.int n) s) (ht : .int Int64.minValue ∉ ts) : n ≠ Int64.minValue := by
  match h with
  | .plain h => exact h.int_ne he ht
  | .conditional .. => cases he
termination_by structural h

theorem Grammar.Level.int_ne {k : Nat} {ts : List Token} {e : Expr} {n : Int64} {s : Span} (h : Level k ts e)
    (he : e = .literal (.int n) s) (ht : .int Int64.minValue ∉ ts) : n ≠ Int64.minValue := by
  match h with
  | .operand h => exact h.int_ne he ht
  | .higher h => exact h.int_ne he ht
  | .join .. => cases he
termination_by structural h

theorem Grammar.Operand.int_ne {ts : List Token} {e : Expr} {n : Int64} {s : Span} (h : Operand ts e)
    (he : e = .literal (.int n) s) (ht : .int Int64.minValue ∉ ts) : n ≠ Int64.minValue := by
  match h with
  | .plain h => exact h.int_ne he ht
  | .negInt h =>
    cases he
    exact neg_ne_minValue (h.int_ne rfl (List.not_mem_of_not_mem_cons ht))
  | .negFloat _ | .neg .. | .not _ => cases he
termination_by structural h

theorem Grammar.Postfixed.int_ne {ts : List Token} {e : Expr} {n : Int64} {s : Span} (h : Postfixed ts e)
    (he : e = .literal (.int n) s) (ht : .int Int64.minValue ∉ ts) : n ≠ Int64.minValue := by
  match h with
  | .atom h => exact h.int_ne he ht
  | .field .. | .call .. => cases he
termination_by structural h

theorem Grammar.Atom.int_ne {ts : List Token} {e : Expr} {n : Int64} {s : Span} (h : Atom ts e)
    (he : e = .literal (.int n) s) (ht : .int Int64.minValue ∉ ts) : n ≠ Int64.minValue := by
  match h with
  | .literal hl =>
    cases hl <;> cases he
    rintro rfl
    exact ht List.mem_cons_self
  | .name _ => cases he
  | .parens h => exact h.int_ne he fun hmem => ht (List.mem_cons_of_mem _ (List.mem_append_left _ hmem))
termination_by structural h

end

theorem Alone.expression {p : List Lexeme} {e : Expr} (h : Alone p e) : Expression (p.map Lexeme.token) e.bare := by
  obtain ⟨depth, h⟩ := h
  obtain ⟨⟨e', c⟩, hexpr, hend⟩ := bind_eq_ok.1 h
  obtain ⟨ts, hts, he⟩ := expr_sound hexpr
  dsimp only at hend
  split at hend
  · rename_i hnone
    cases hend
    rw [Cursor.peek?_eq, List.head?_eq_none_iff] at hnone
    rw [hnone, List.append_nil] at hts
    have htokens : p.map Lexeme.token = ts := hts
    exact htokens ▸ he
  · cases hend

def Expr.Negatable (e : Expr) : Prop :=
  ∀ n span, e.Contains (.literal (.int n) span) → n ≠ Int64.minValue

section

variable {ls p : List Lexeme} {e : Expr} {depth : Nat}

theorem Covers.negatable (h : Covers p e) (hp : p <:+: ls) (hls : Unsigned ls) : e.Negatable := by
  intro n span hn
  obtain ⟨q, hq, hcovers⟩ := h.contains hn
  cases hcovers with
  | node nonempty alone span parts =>
    refine alone.expression.int_ne rfl fun hmem => ?_
    obtain ⟨l, hl, htoken⟩ := List.mem_map.1 hmem
    exact hls l ((hq.trans hp).subset hl) htoken

theorem parseScript_negatable {ss : List Stmt} (h : parseScript depth ls = .ok ss) (hls : Unsigned ls) :
    ∀ e ∈ blockExprs ss, e.Negatable := by
  intro e he
  obtain ⟨p, hp, hcovers⟩ := (parseScript_coversAll h).covers he
  exact hcovers.negatable hp hls

theorem parseExpr_negatable (h : parseExpr depth ls = .ok e) (hls : Unsigned ls) : e.Negatable :=
  (parseExpr_covers h).negatable List.infix_rfl hls

end

end FactFold.Script
