import FactFold.Proofs.Results
import FactFold.Script.Parser

namespace FactFold.Script.Cursor

def tokens (c : Cursor) : List Token :=
  c.rest.map Lexeme.token

variable {c c' : Cursor} {f g : Fixed} {t : Token} {ts : List Token}

theorem peek?_eq (c : Cursor) : c.peek? = c.tokens.head? := by
  simp [peek?, tokens]

theorem ahead_eq (c : Cursor) : c.ahead = c.tokens.take 3 := by
  simp [ahead, tokens]

theorem tokens_length (c : Cursor) : c.tokens.length = c.rest.length := by
  simp [tokens]

theorem tokens_next (h : c.tokens = t :: ts) : c.next.tokens = ts := by
  unfold tokens at h
  unfold tokens next
  cases hr : c.rest with
  | nil => simp [hr] at h
  | cons l rest => simpa [hr] using (List.cons.inj (hr ▸ h)).2

theorem tokens_of_peek? (h : c.peek? = some t) : c.tokens = t :: c.next.tokens := by
  rw [peek?_eq] at h
  obtain ⟨ts, hts⟩ := List.head?_eq_some_iff.mp h
  rw [tokens_next hts, hts]

theorem tokens_of_ahead (h : c.ahead = t :: ts) : c.tokens = t :: c.next.tokens := by
  rw [ahead_eq] at h
  have hhead := congrArg List.head? h
  rw [List.head?_take, List.head?_cons, if_neg (by decide), ← peek?_eq] at hhead
  exact tokens_of_peek? hhead

theorem ahead_next (h : c.ahead = t :: ts) : ∃ us, c.next.ahead = ts ++ us := by
  have ht := tokens_of_ahead h
  rw [ahead_eq, ht, List.take_succ_cons] at h
  refine ⟨(c.next.tokens.drop 2).take 1, ?_⟩
  rw [ahead_eq, ← (List.cons.inj h).2, ← List.take_add]

theorem isAt_iff : c.isAt f = true ↔ c.peek? = some (.fixed f) := by
  unfold isAt
  split
  · rename_i g hg
    simp [hg, eq_comm (a := f)]
  · rename_i hg
    simpa using hg f

theorem tokens_of_isAt (h : c.isAt f = true) : c.tokens = .fixed f :: c.next.tokens :=
  tokens_of_peek? (isAt_iff.mp h)

theorem isAt_fixed (h : c.tokens = .fixed g :: ts) (f : Fixed) : c.isAt f = (f == g) := by
  simp [isAt, peek?_eq, h]

theorem isAt_false (h : c.tokens.head? ≠ some (.fixed f)) : c.isAt f = false := by
  rw [← Bool.not_eq_true, isAt_iff, peek?_eq]
  exact h

theorem tokens_of_expect (h : c.expect f = .ok c') : c.tokens = .fixed f :: c'.tokens := by
  unfold expect at h
  split at h
  · rename_i hf
    cases h
    exact tokens_of_isAt hf
  · cases h

theorem expect_ok (h : c.tokens = .fixed f :: ts) : c.expect f = .ok c.next := by
  simp [expect, isAt_fixed h]

theorem tokens_of_name {place : Place} {n : String} (h : c.name place = .ok (n, c')) :
    c.tokens = .name n :: c'.tokens := by
  unfold name at h
  split at h
  · rename_i m hm
    cases h
    exact tokens_of_peek? hm
  · cases h

theorem name_ok {n : String} (h : c.tokens = .name n :: ts) (place : Place) :
    c.name place = .ok (n, c.next) := by
  simp [name, peek?_eq, h]

end FactFold.Script.Cursor
