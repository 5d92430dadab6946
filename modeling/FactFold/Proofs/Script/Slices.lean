import FactFold.Proofs.Script.Places
import FactFold.Proofs.Script.Tiling
import FactFold.Proofs.Script.Tokens

namespace FactFold.Text

theorem prefix_of_utf8Length_le {p q s : List Char} (hp : p <+: s) (hq : q <+: s)
    (h : utf8Length p ≤ utf8Length q) : p <+: q := by
  rcases List.prefix_or_prefix_of_prefix hp hq with hpq | ⟨r, rfl⟩
  · exact hpq
  · rw [utf8Length_append] at h
    have hr : r = [] := by
      by_contra hne
      have hpos := utf8Length_pos hne
      omega
    rw [hr, List.append_nil]

end FactFold.Text

namespace FactFold.Script

open Text

variable {source text text' : List Char} {s s' : Span}

def BetweenChars (source : List Char) (n : Nat) : Prop :=
  ∃ before, before <+: source ∧ utf8Length before = n

theorem betweenChars_zero (source : List Char) : BetweenChars source 0 :=
  ⟨[], List.nil_prefix, rfl⟩

theorem Slice.start (h : Slice source s text) : BetweenChars source s.start := by
  obtain ⟨before, after, rfl, rfl⟩ := h
  exact ⟨before, by simp, rfl⟩

theorem Slice.stop (h : Slice source s text) : BetweenChars source s.stop := by
  obtain ⟨before, after, rfl, rfl⟩ := h
  exact ⟨before ++ text, List.prefix_append _ _, utf8Length_append ..⟩

theorem exists_slice (hstart : BetweenChars source s.start) (hstop : BetweenChars source s.stop) (h : s.start ≤ s.stop) :
    ∃ text, Slice source s text := by
  obtain ⟨before, hbefore, hs⟩ := hstart
  obtain ⟨front, hfront, hs'⟩ := hstop
  obtain ⟨text, rfl⟩ := prefix_of_utf8Length_le hbefore hfront (by omega)
  obtain ⟨after, rfl⟩ := hfront
  rw [utf8Length_append, hs] at hs'
  refine ⟨text, before, after, rfl, ?_⟩
  rw [hs, hs']

theorem Slice.part (h : Slice source s text) (h' : Slice source s' text') (hstart : s.start ≤ s'.start)
    (hstop : s'.stop ≤ s.stop) : text' <:+: text := by
  obtain ⟨before, after, rfl, rfl⟩ := h
  obtain ⟨before', after', heq, rfl⟩ := h'
  dsimp only at hstart hstop
  have hbefore : before <+: before ++ text ++ after := ⟨text ++ after, by simp⟩
  have hbefore' : before' <+: before ++ text ++ after := ⟨text' ++ after', by simp [heq]⟩
  have htext : before ++ text <+: before ++ text ++ after := List.prefix_append _ _
  have htext' : before' ++ text' <+: before ++ text ++ after := ⟨after', heq.symm⟩
  obtain ⟨gap, rfl⟩ := prefix_of_utf8Length_le hbefore hbefore' hstart
  rw [← utf8Length_append, ← utf8Length_append] at hstop
  obtain ⟨rest, hrest⟩ := prefix_of_utf8Length_le htext' htext hstop
  rw [List.append_assoc, List.append_assoc, List.append_cancel_left_eq] at hrest
  exact ⟨gap, rest, by rw [List.append_assoc, hrest]⟩

def Span.behind (before : List Char) (s : Span) : Span :=
  ⟨utf8Length before + s.start, utf8Length before + s.stop⟩

theorem Slice.around (h : Slice source s text) (before after : List Char) :
    Slice (before ++ (source ++ after)) (s.behind before) text := by
  obtain ⟨front, back, rfl, rfl⟩ := h
  refine ⟨before ++ front, back ++ after, by simp, ?_⟩
  rw [Span.behind, utf8Length_append, Nat.add_assoc]

section

variable {c : Char} {rest : List Char} {n : Nat} {name : String}

theorem piece_name (h : piece c rest = (.token (.name name), n)) : c :: rest.take n = name.toList := by
  rcases piece_token h with ⟨f, hf⟩ | ⟨s, hs⟩ | hname | hnumber
  · cases hf
  · cases hs
  · cases hname
    rw [String.toList_ofList]
  · rcases numberPiece_token hnumber with ⟨m, hm⟩ | ⟨x, hx⟩
    · cases hm
    · cases hx

theorem name_of_alone (h : lexemes (String.ofList text) = .ok [⟨.name name, ⟨0, utf8Length text⟩⟩]) :
    text = name.toList := by
  rw [lexemes, String.toList_ofList] at h
  cases text with
  | nil =>
    rw [lexemesFrom] at h
    cases h
  | cons c rest =>
    rw [lexemesFrom] at h
    cases hp : piece c rest with
    | mk kind k =>
    simp only [hp] at h
    cases kind with
    | gap =>
      obtain ⟨ls, hls, htiled⟩ := tiled_of_lexemesFrom h
      -- what stands behind a gap does not begin at the first byte
      rw [List.reverse_nil, List.nil_append] at hls
      have hpos := utf8Length_pos (List.cons_ne_nil c (rest.take k))
      have hstart := (htiled.nonempty _ (hls ▸ List.mem_cons_self)).1
      dsimp only at hstart
      omega
    | token t =>
      obtain ⟨ls, hls, -⟩ := tiled_of_lexemesFrom h
      simp only [List.reverse_cons, List.reverse_nil, List.nil_append, List.singleton_append, List.cons.injEq,
        Lexeme.mk.injEq, Span.mk.injEq, Nat.zero_add, true_and] at hls
      obtain ⟨⟨rfl, hlength⟩, -⟩ := hls
      have hwhole : c :: rest <+: c :: rest.take k :=
        prefix_of_utf8Length_le List.prefix_rfl (List.prefix_cons_inj c |>.2 (List.take_prefix k rest)) hlength.le
      rw [← piece_name hp]
      exact hwhole.eq_of_length_le (by simp)
    | unknown => cases h

end

theorem Tiling.ascending {ls : List Lexeme} (h : Tiling source ls) : Ascending ls :=
  ⟨fun l hl => (h.nonempty l hl).le, h.ordered⟩

theorem Tiling.name {ls : List Lexeme} (h : Tiling source ls) {l : Lexeme} (hl : l ∈ ls) {name : String}
    (hname : l.token = .name name) : Slice source l.span name.toList := by
  obtain ⟨text, hslice, halone⟩ := h.alone l hl
  rw [hname] at halone
  rwa [← name_of_alone halone]

end FactFold.Script
