import FactFold.Proofs.Script.CompileErrors
import FactFold.Proofs.Unit

/-!
The places of script errors are counted from the first character that is not blank. Moved behind the blanks in front
of it they are places in the expression of the plan, and the text of the error stands there.
-/

namespace FactFold

open Script Text

theorem Text.trim_cut (s : String) :
    ∃ behind, s.toList = s.toList.takeWhile isBlank ++ ((trim s).toList ++ behind) := by
  obtain ⟨behind, hbehind⟩ : (trim s).toList <+: s.toList.dropWhile isBlank := by
    rw [trim, String.toList_ofList]
    exact List.rdropWhile_prefix isBlank _
  exact ⟨behind, by rw [hbehind, List.takeWhile_append_dropWhile]⟩

namespace Script

def ScriptError.span? : ScriptError → Option Span
  | .lex e => some e.span
  | .parse e => some e.span
  | .unknownName _ span => some span
  | .unknownType _ span => some span
  | .unknownFunction _ span => some span
  | .notAssignable _ span => some span
  | .tooLarge _ => none

/-- The text is that of the error if the error has one, and else has the name in it that the error is about. The name
of a function is a path, which may be written with gaps in it. -/
def ScriptError.Shows (text : List Char) : ScriptError → Prop
  | .lex e => text = e.text.toList
  | .unknownName name _ => name.toList <:+: text
  | .unknownType name _ => name.toList <:+: text
  | .notAssignable target _ => target.toList <:+: text
  | _ => True

section

variable {source : List Char} {ls : List Lexeme} {s : Span} {e : ScriptError}

theorem Tiling.betweenChars (h : Tiling source ls) {n : Nat} (hn : Edge ls n) : BetweenChars source n := by
  rcases hn with rfl | ⟨l, hl, rfl | rfl⟩
  · exact betweenChars_zero source
  · obtain ⟨text, hslice, -⟩ := h.alone l hl
    exact hslice.start
  · obtain ⟨text, hslice, -⟩ := h.alone l hl
    exact hslice.stop

theorem Span.Stands.slice (hs : s.Stands ls) (h : Tiling source ls) : ∃ text, Slice source s text :=
  exists_slice (h.betweenChars hs.start) (h.betweenChars hs.stop) hs.forward

theorem Span.Holds.shows {name : String} {text : List Char} (hs : s.Holds ls name) (h : Tiling source ls)
    (htext : Slice source s text) : name.toList <:+: text := by
  obtain ⟨l, hl, hname, hstart, hstop⟩ := hs
  exact htext.part (h.name hl hname) hstart hstop

theorem ScriptError.Stands.shown (he : e.Stands ls) (h : Tiling source ls) (hspan : e.span? = some s) :
    ∃ text, Slice source s text ∧ e.Shows text := by
  have hname {name : String} (hs : s.Stands ls ∧ s.Holds ls name) :
      ∃ text, Slice source s text ∧ name.toList <:+: text := by
    obtain ⟨text, htext⟩ := hs.1.slice h
    exact ⟨text, htext, hs.2.shows h htext⟩
  have hplain (hs : s.Stands ls) : ∃ text, Slice source s text ∧ True := by
    obtain ⟨text, htext⟩ := hs.slice h
    exact ⟨text, htext, trivial⟩
  cases e with
  | lex e => cases he
  | tooLarge limit => cases hspan
  | parse e | unknownFunction name span =>
    cases hspan
    exact hplain he
  | unknownName name span | unknownType name span | notAssignable target span =>
    cases hspan
    exact hname he

end

theorem source_error {c : Compiler} {depth : Nat} {text : String} {e : ScriptError} {s : Span}
    (h : c.source depth text = .error e) (hspan : e.span? = some s) :
    ∃ part, Slice text.toList s part ∧ e.Shows part := by
  rcases bind_eq_error.1 h with hlex | ⟨ls, hls, h⟩
  · cases hl : lexemes text with
    | ok ls =>
      rw [hl] at hlex
      cases hlex
    | error e' =>
      rw [hl] at hlex
      cases hlex
      cases hspan
      obtain ⟨before, after, ls, hsource, -, hplace, -⟩ := lexemesFrom_error hl
      rw [Nat.zero_add] at hplace
      exact ⟨e'.text.toList, ⟨before, after, by rw [hsource, List.append_assoc], hplace⟩, rfl⟩
  · obtain ⟨ls', hls', htiled⟩ := tiled_of_lexemesFrom (mapError_eq_ok.1 hls)
    rw [List.reverse_nil, List.nil_append] at hls'
    subst hls'
    have htiling := htiled.tiling
    have hpoints := parseScript_points htiling.ascending depth
    refine ScriptError.Stands.shown ?_ htiling hspan
    cases hparse : parseScript depth ls with
    | error e' =>
      rw [hparse] at h hpoints
      cases h
      exact hpoints
    | ok ss =>
      rw [hparse] at h hpoints
      exact Compiler.script_refuses htiling.ascending hpoints e (map_eq_error.1 h)

end Script

theorem Plan.compile_script_error {p : Plan} {config : Config} {r : Registry} {e : CompileError}
    {cause : ScriptError} (h : p.compile config r = .error e) (hcause : e.cause = .script cause) :
    ∃ c : Compiler, c.source config.maxNestingDepth.toNat (trim p.expression) = .error cause := by
  rcases Plan.compile_error_cases h with ⟨_, he⟩ | ⟨_, he⟩ | he | ⟨_, he⟩ | ⟨c, error, hsource, he⟩
  case inr.inr.inr.inr =>
    obtain rfl : error = cause := by injection he.symm.trans hcause
    exact ⟨c, hsource⟩
  all_goals cases he.symm.trans hcause

/-- The place of a script error, moved behind the blanks at the front, is a place in the expression of the plan, on
boundaries of characters, and the error is seen there. The place itself is one if the expression does not begin with
a blank. -/
theorem script_errors_placed {config : Config} {r : Registry} {p : Plan} {e : CompileError} {cause : ScriptError}
    {span : Span} (h : p.compile config r = .error e) (hcause : e.cause = .script cause)
    (hspan : cause.span? = some span) :
    ∃ text, cause.Shows text ∧
      Slice p.expression.toList (span.behind (p.expression.toList.takeWhile isBlank)) text ∧
      ((∀ c ∈ p.expression.toList.head?, isBlank c = false) → Slice p.expression.toList span text) := by
  obtain ⟨c, hsource⟩ := Plan.compile_script_error h hcause
  obtain ⟨text, hslice, hshows⟩ := source_error hsource hspan
  obtain ⟨behind, hcut⟩ := trim_cut p.expression
  have hplaced := hslice.around (p.expression.toList.takeWhile isBlank) behind
  rw [← hcut] at hplaced
  refine ⟨text, hshows, hplaced, fun hfront => ?_⟩
  have hnone : p.expression.toList.takeWhile isBlank = [] := by
    cases hlist : p.expression.toList with
    | nil => rfl
    | cons c cs =>
      have hc := hfront c (by rw [hlist]; rfl)
      rw [List.takeWhile_cons_of_neg (by simp [hc])]
  rw [hnone] at hplaced
  simpa [Span.behind, utf8Length] using hplaced

def indentedSign : Plan where
  name := "u"
  expression := "  #"

def indentedName : Plan where
  name := "u"
  expression := " missing"
  strict := true

theorem indentedSign_error : indentedSign.compile {} ⟨[], [], []⟩ = .error ⟨"u", "u", .script (.lex ⟨"#", ⟨0, 1⟩⟩)⟩ := by
  cbv

theorem indentedName_error :
    indentedName.compile {} ⟨[], [], []⟩ = .error ⟨"u", "missing", .script (.unknownName "missing" ⟨0, 7⟩)⟩ := by
  cbv

theorem script_errors_placed_sign :
    indentedSign.compile {} ⟨[], [], []⟩ = .error ⟨"u", "u", .script (.lex ⟨"#", ⟨0, 1⟩⟩)⟩ ∧
      Slice indentedSign.expression.toList ⟨2, 3⟩ ['#'] := by
  obtain ⟨text, rfl, hslice, -⟩ := script_errors_placed indentedSign_error rfl rfl
  exact ⟨indentedSign_error, hslice⟩

theorem indented_errors_misplaced :
    (indentedSign.compile {} ⟨[], [], []⟩ = .error ⟨"u", "u", .script (.lex ⟨"#", ⟨0, 1⟩⟩)⟩ ∧
      ¬ Slice indentedSign.expression.toList ⟨0, 1⟩ ['#']) ∧
    indentedName.compile {} ⟨[], [], []⟩ = .error ⟨"u", "missing", .script (.unknownName "missing" ⟨0, 7⟩)⟩ ∧
      ∀ text, Slice indentedName.expression.toList ⟨0, 7⟩ text → ¬ "missing".toList <:+: text := by
  have hsign : Slice indentedSign.expression.toList ⟨0, 1⟩ [' '] := ⟨[], [' ', '#'], by decide, by decide⟩
  have hname : Slice indentedName.expression.toList ⟨0, 7⟩ " missin".toList := ⟨[], ['g'], by decide, by decide⟩
  refine ⟨⟨indentedSign_error, fun h => ?_⟩, indentedName_error, fun text htext hmissing => ?_⟩
  · have hinfix := hsign.part h (Nat.le_refl _) (Nat.le_refl _)
    revert hinfix
    decide
  · have hinfix := hmissing.trans (hname.part htext (Nat.le_refl _) (Nat.le_refl _))
    revert hinfix
    decide

end FactFold
