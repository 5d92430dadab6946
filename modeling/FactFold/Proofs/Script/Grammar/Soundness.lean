import FactFold.Proofs.Script.Grammar.Precedence

namespace FactFold.Script

open Grammar

theorem literal?_spells {t : Token} {l : Literal} (h : t.literal? = some l) : Spells t l := by
  cases t with
  | fixed f => cases f <;> cases h <;> constructor
  | int n => cases h; exact .int n
  | float x => cases h; exact .float x
  | text s => cases h; exact .text s
  | name s => cases h

theorem operand_signed {t : Token} {op : UnaryOp} {ts : List Token} {e : Expr} (ht : t.sign? = some op)
    (h : Operand ts e.bare) (span : Span) : Operand (t :: ts) (Expr.signed op e span).bare := by
  have ht' : t = .fixed .minus ∧ op = .neg ∨ t = .fixed .bang ∧ op = .not := by
    cases t with
    | fixed f => cases f <;> cases ht <;> simp
    | _ => cases ht
  obtain ⟨rfl, rfl⟩ | ⟨rfl, rfl⟩ := ht'
  · cases e with
    | literal l place =>
      cases l with
      | int n => exact .negInt h
      | float x => exact .negFloat h
      | _ => exact .neg h nofun
    | _ => exact .neg h nofun
  · exact .not h

theorem arguments_sound {argument : Cursor → Except ParseError (Expr × Cursor)}
    (ha : ∀ c e c', argument c = .ok (e, c') → ∃ ts, c.tokens = ts ++ c'.tokens ∧ Expression ts e.bare)
    {bound : List Lexeme} {c c' : Cursor} {done args : List Expr}
    (h : arguments argument bound c done = .ok (args, c')) :
    ∃ ts es, args = done.reverse ++ es ∧ c.tokens = ts ++ .fixed .rightParen :: c'.tokens ∧
      Arguments ts (bareArgs es) := by
  unfold arguments at h
  split at h
  · rename_i hp
    cases h
    exact ⟨[], [], by simp, by simp [Cursor.tokens_of_isAt hp], .none⟩
  · obtain ⟨⟨e, c₁⟩, h₁, h⟩ := bind_eq_ok.mp h
    obtain ⟨ts, hts, he⟩ := ha c e c₁ h₁
    dsimp only at h
    split at h
    · rename_i hp
      cases h
      exact ⟨ts, [e], by simp, by simp [hts, Cursor.tokens_of_isAt hp], .last he⟩
    · obtain ⟨c₂, h₂, h⟩ := bind_eq_ok.mp h
      cases bound with
      | nil => cases h
      | cons l bound =>
        obtain ⟨us, es, rfl, hus, hes⟩ := arguments_sound ha h
        exact ⟨ts ++ .fixed .comma :: us, e :: es, by simp,
          by simp [hts, Cursor.tokens_of_expect h₂, hus], .more he hes⟩
termination_by structural bound

mutual

theorem expr_sound {depth : Nat} {c c' : Cursor} {e : Expr} (h : expr depth c = .ok (e, c')) :
    ∃ ts, c.tokens = ts ++ c'.tokens ∧ Expression ts e.bare := by
  cases depth with
  | zero =>
    rw [expr] at h
    cases h
  | succ depth =>
    simp only [expr] at h
    obtain ⟨⟨condition, c₁⟩, h₁, h⟩ := bind_eq_ok.mp h
    obtain ⟨ts, k, hts, hk, -, -⟩ := operators_sound (Nat.zero_le _) h₁
    dsimp only at h
    split at h
    · rename_i hq
      obtain ⟨⟨yes, c₂⟩, h₂, h⟩ := bind_eq_ok.mp h
      obtain ⟨c₃, h₃, h⟩ := bind_eq_ok.mp h
      obtain ⟨⟨no, c₄⟩, h₄, h⟩ := bind_eq_ok.mp h
      obtain ⟨us, hus, hyes⟩ := expr_sound h₂
      obtain ⟨vs, hvs, hno⟩ := expr_sound h₄
      cases h
      refine ⟨ts ++ .fixed .question :: (us ++ .fixed .colon :: vs), ?_,
        .conditional (hk.lower (Nat.zero_le k)) hyes hno⟩
      simp [hts, Cursor.tokens_of_isAt hq, hus, Cursor.tokens_of_expect h₃, hvs]
    · cases h
      exact ⟨ts, hts, .plain (hk.lower (Nat.zero_le k))⟩
termination_by (depth, 0)

theorem operators_sound {depth level : Nat} {c c' : Cursor} {e : Expr}
    (hlevel : level ≤ precedence levels.length) (h : operators depth level c = .ok (e, c')) :
    ∃ ts k, c.tokens = ts ++ c'.tokens ∧ Level k ts e.bare ∧ level ≤ precedence k ∧
      Below level c'.tokens := by
  simp only [operators] at h
  obtain ⟨⟨left, c₁⟩, h₁, h⟩ := bind_eq_ok.mp h
  obtain ⟨ts, hts, he⟩ := operand_sound h₁
  have hb : Below (precedence levels.length + 1) c₁.tokens := (below_last c₁.tokens).mono (Nat.le_succ _)
  obtain ⟨us, k, hus, hk, hle, hb'⟩ := joined_sound (.operand he) hlevel hb h
  exact ⟨ts ++ us, k, by simp [hts, hus], hk, hle, hb'⟩
termination_by (depth, 4)

theorem joined_sound {depth level start k : Nat} {ts : List Token} {left e : Expr} {c c' : Cursor}
    (hl : Level k ts left.bare) (hk : level ≤ precedence k) (hb : Below (precedence k + 1) c.tokens)
    (h : joined depth level start left c = .ok (e, c')) :
    ∃ us k', c.tokens = us ++ c'.tokens ∧ Level k' (ts ++ us) e.bare ∧ level ≤ precedence k' ∧
      Below level c'.tokens := by
  rw [joined.eq_def, Cursor.peek?_eq] at h
  split at h
  · rename_i hnone
    cases h
    refine ⟨[], k, rfl, by simpa using hl, hk, fun p op hp => ?_⟩
    rw [hnone] at hp
    cases hp
  · rename_i p op hp
    split at h
    · rename_i hlt
      cases h
      refine ⟨[], k, rfl, by simpa using hl, hk, fun p' op' hp' => ?_⟩
      rw [hp] at hp'
      cases hp'
      exact hlt
    · rename_i hge
      cases depth with
      | zero => cases h
      | succ depth =>
        obtain ⟨⟨right, c₁⟩, h₁, h₂⟩ := bind_eq_ok.mp h
        obtain ⟨t, ht, hop⟩ := Option.bind_eq_some_iff.mp hp
        obtain ⟨f, j, rfl, hj, rfl⟩ := joins_of_binary? hop
        have hlast : precedence j + 1 ≤ precedence levels.length := precedence_lt _ le_rfl j hj.lt
        obtain ⟨us, k', hus, hk', hle, hb'⟩ := operators_sound hlast h₁
        -- The operator binds no more than the left side, and less than the right side.
        have hjk : j ≤ k := le_of_precedence_le hj.lt.le (Nat.lt_succ_iff.mp (hb _ _ hp))
        have hjk' : j + 1 ≤ k' := by
          by_contra hlt
          have := precedence_le (Nat.lt_succ_iff.mp (Nat.not_le.mp hlt))
          omega
        have hjoin : Level j _ (Expr.binary op left right (c₁.since start)).bare :=
          .join (hl.lower hjk) hj (hk'.lower hjk')
        obtain ⟨vs, k'', hvs, hk'', hle', hb''⟩ := joined_sound hjoin (Nat.not_lt.mp hge) hb' h₂
        refine ⟨.fixed f :: (us ++ vs), k'', ?_, by simpa using hk'', hle', hb''⟩
        simp [Cursor.tokens_of_peek? (c.peek?_eq.trans ht), hus, hvs]
termination_by (depth, 0)

theorem operand_sound {depth : Nat} {c c' : Cursor} {e : Expr} (h : operand depth c = .ok (e, c')) :
    ∃ ts, c.tokens = ts ++ c'.tokens ∧ Operand ts e.bare := by
  rw [operand] at h
  split at h
  · obtain ⟨ts, hts, he⟩ := primary_sound h
    exact ⟨ts, hts, .plain he⟩
  · rename_i op hop
    cases depth with
    | zero => cases h
    | succ depth =>
      obtain ⟨⟨e', c₁⟩, h₁, h⟩ := bind_eq_ok.mp h
      obtain ⟨ts, hts, he⟩ := operand_sound h₁
      obtain ⟨t, ht, hsign⟩ := Option.bind_eq_some_iff.mp hop
      cases h
      exact ⟨t :: ts, by simp [Cursor.tokens_of_peek? ht, hts], operand_signed hsign he _⟩
termination_by (depth, 3)

theorem primary_sound {depth : Nat} {c c' : Cursor} {e : Expr} (h : primary depth c = .ok (e, c')) :
    ∃ ts, c.tokens = ts ++ c'.tokens ∧ Postfixed ts e.bare := by
  simp only [primary] at h
  obtain ⟨⟨e', c₁⟩, h₁, h⟩ := bind_eq_ok.mp h
  obtain ⟨ts, hts, he⟩ := atom_sound h₁
  obtain ⟨us, hus, he'⟩ := chain_sound (.atom he) h
  exact ⟨ts ++ us, by simp [hts, hus], he'⟩
termination_by (depth, 2)

theorem chain_sound {depth start : Nat} {ts : List Token} {e e' : Expr} {c c' : Cursor}
    (he : Postfixed ts e.bare) (h : chain depth start e c = .ok (e', c')) :
    ∃ us, c.tokens = us ++ c'.tokens ∧ Postfixed (ts ++ us) e'.bare := by
  rw [chain.eq_def] at h
  split at h
  · rename_i hd
    cases depth with
    | zero => cases h
    | succ depth =>
      obtain ⟨⟨name, c₁⟩, h₁, h⟩ := bind_eq_ok.mp h
      have hf : Postfixed _ (Expr.field e name (c₁.since start)).bare := he.field name
      obtain ⟨us, hus, he'⟩ := chain_sound hf h
      exact ⟨[.fixed .dot, .name name] ++ us,
        by simp [Cursor.tokens_of_isAt hd, Cursor.tokens_of_name h₁, hus], by simpa using he'⟩
  · split at h
    · rename_i hp
      split at h
      · cases h
      · cases h
      · rename_i function depth hfunction
        obtain ⟨⟨args, c₁⟩, h₁, h⟩ := bind_eq_ok.mp h
        obtain ⟨us, es, rfl, hus, hes⟩ := arguments_sound (fun _ _ _ hx => expr_sound hx) h₁
        have hc : Postfixed _ (Expr.call function args (c₁.since start)).bare :=
          he.call (e.path?_bare.trans hfunction) hes
        obtain ⟨vs, hvs, he'⟩ := chain_sound hc h
        exact ⟨.fixed .leftParen :: (us ++ [.fixed .rightParen]) ++ vs,
          by simp [Cursor.tokens_of_isAt hp, hus, hvs], by simpa using he'⟩
    · cases h
      exact ⟨[], rfl, by simpa using he⟩
termination_by (depth, 0)

theorem atom_sound {depth : Nat} {c c' : Cursor} {e : Expr} (h : atom depth c = .ok (e, c')) :
    ∃ ts, c.tokens = ts ++ c'.tokens ∧ Atom ts e.bare := by
  simp only [atom] at h
  split at h
  · rename_i n hn
    cases h
    exact ⟨[.name n], Cursor.tokens_of_peek? hn, .name n⟩
  · rename_i hp
    obtain ⟨⟨e', c₁⟩, h₁, h⟩ := bind_eq_ok.mp h
    obtain ⟨c₂, h₂, h⟩ := bind_eq_ok.mp h
    obtain ⟨ts, hts, he⟩ := expr_sound h₁
    cases h
    refine ⟨.fixed .leftParen :: (ts ++ [.fixed .rightParen]), ?_, ?_⟩
    · simp [Cursor.tokens_of_peek? hp, hts, Cursor.tokens_of_expect h₂]
    · rw [Expr.bare_withSpan]
      exact .parens he
  · split at h
    · rename_i l hl
      obtain ⟨t, ht, hl⟩ := Option.bind_eq_some_iff.mp hl
      cases h
      exact ⟨[t], Cursor.tokens_of_peek? ht, .literal (literal?_spells hl)⟩
    · cases h
termination_by (depth, 1)

end

theorem endOfStatement_sound {c c' : Cursor} (h : endOfStatement c = .ok c') :
    ∃ us, c.tokens = us ++ c'.tokens ∧ Closing us c'.tokens := by
  unfold endOfStatement at h
  split at h
  · rename_i hs
    cases h
    exact ⟨[.fixed .semicolon], Cursor.tokens_of_isAt hs, .semicolon _⟩
  · split at h
    · rename_i he
      cases h
      refine ⟨[], rfl, ?_⟩
      rw [Bool.or_eq_true, Option.isNone_iff_eq_none, Cursor.peek?_eq, List.head?_eq_none_iff] at he
      obtain he | hb := he
      · rw [he]
        exact .finish
      · rw [Cursor.tokens_of_isAt hb]
        exact .brace _
    · exact ⟨[.fixed .semicolon], Cursor.tokens_of_expect h, .semicolon _⟩

theorem declaration_sound {depth start : Nat} {type : Option String} {place : Place} {s : Stmt}
    {c c' : Cursor} (h : declaration depth start type place c = .ok (s, c')) :
    ∃ name us, Closing us c'.tokens ∧
      (c.tokens = .name name :: (us ++ c'.tokens) ∧ s.bare = .declare name type none ⟨0, 0⟩ ∨
        ∃ ts e, c.tokens = .name name :: .fixed .equal :: (ts ++ us ++ c'.tokens) ∧ Expression ts e ∧
          s.bare = .declare name type (some e) ⟨0, 0⟩) := by
  obtain ⟨⟨name, c₁⟩, h₁, h⟩ := bind_eq_ok.mp h
  obtain ⟨⟨value, c₂⟩, h₂, h⟩ := bind_eq_ok.mp h
  obtain ⟨c₃, h₃, h⟩ := bind_eq_ok.mp h
  obtain ⟨us, hus, hc⟩ := endOfStatement_sound h₃
  cases h
  refine ⟨name, us, hc, ?_⟩
  unfold initialValue at h₂
  split at h₂
  · rename_i hq
    obtain ⟨⟨e, c₄⟩, h₄, heq⟩ := map_eq_ok.mp h₂
    obtain ⟨ts, hts, he⟩ := expr_sound h₄
    cases heq
    refine .inr ⟨ts, e.bare, ?_, he, rfl⟩
    simp [Cursor.tokens_of_name h₁, Cursor.tokens_of_isAt hq, hts, hus]
  · cases h₂
    refine .inl ⟨?_, rfl⟩
    rw [Cursor.tokens_of_name h₁, hus]

theorem assignment_sound {depth start : Nat} {target : String} {op : AssignOp} {s : Stmt} {c c' : Cursor}
    (h : assignment depth start target op c = .ok (s, c')) :
    ∃ ts us e, c.tokens = ts ++ us ++ c'.tokens ∧ Expression ts e ∧ Closing us c'.tokens ∧
      s.bare = .assign target op e ⟨0, 0⟩ := by
  obtain ⟨⟨e, c₁⟩, h₁, h⟩ := bind_eq_ok.mp h
  obtain ⟨c₂, h₂, h⟩ := bind_eq_ok.mp h
  obtain ⟨ts, hts, he⟩ := expr_sound h₁
  obtain ⟨us, hus, hc⟩ := endOfStatement_sound h₂
  cases h
  exact ⟨ts, us, e.bare, by simp [hts, hus], he, hc, rfl⟩

theorem returned_sound {depth : Nat} {s : Stmt} {c c' : Cursor} (h : returned depth c = .ok (s, c')) :
    ∃ ts us, c.tokens = ts ++ us ++ c'.tokens ∧ Closing us c'.tokens ∧
      Simple (.fixed .returnWord :: ts) s.bare := by
  unfold returned at h
  split at h
  · obtain ⟨c₁, h₁, h⟩ := bind_eq_ok.mp h
    obtain ⟨us, hus, hc⟩ := endOfStatement_sound h₁
    cases h
    exact ⟨[], us, by simp [hus], hc, .ret⟩
  · obtain ⟨⟨e, c₁⟩, h₁, h⟩ := bind_eq_ok.mp h
    obtain ⟨c₂, h₂, h⟩ := bind_eq_ok.mp h
    obtain ⟨ts, hts, he⟩ := expr_sound h₁
    obtain ⟨us, hus, hc⟩ := endOfStatement_sound h₂
    cases h
    exact ⟨ts, us, by simp [hts, hus], hc, .retValue he⟩

theorem typed_sound {depth start : Nat} {type name : String} {place : Place} {f : Fixed} {s : Stmt}
    {ts : List Token} {c c' : Cursor} (h : declaration depth start (some type) place c = .ok (s, c'))
    (hf : f = .equal ∨ f = .semicolon) (ht : c.tokens = .name name :: .fixed f :: ts) :
    ∃ us, c.tokens = us ++ c'.tokens ∧ Statement (.name type :: us) s.bare c'.tokens := by
  obtain ⟨name', us, hc, ⟨hts, hs⟩ | ⟨vs, e, hts, he, hs⟩⟩ := declaration_sound h
  · generalize c'.tokens = next at hc hts ⊢
    cases hc with
    | semicolon =>
      refine ⟨[.name name', .fixed .semicolon], by simpa using hts, ?_⟩
      exact hs ▸ .typed type name' next
    | brace next =>
      have ht' := hts.symm.trans ht
      obtain rfl | rfl := hf <;> simp at ht'
    | finish =>
      have ht' := hts.symm.trans ht
      simp at ht'
  · refine ⟨.name name' :: .fixed .equal :: (vs ++ us), by simp [hts], ?_⟩
    exact hs ▸ .simple (.typedValue type name' he) hc

theorem simpleStatement_sound {depth : Nat} {s : Stmt} {c c' : Cursor}
    (h : simpleStatement depth c = .ok (s, c')) :
    ∃ ts, c.tokens = ts ++ c'.tokens ∧ Statement ts s.bare c'.tokens := by
  have hassign {target : String} {f : Fixed} {op : AssignOp} {rest : List Token} {start : Nat}
      (hop : Assigns f op) (ha : c.ahead = .name target :: .fixed f :: rest)
      (h : assignment depth start target op c.next.next = .ok (s, c')) :
      ∃ ts, c.tokens = ts ++ c'.tokens ∧ Statement ts s.bare c'.tokens := by
    obtain ⟨vs, hvs⟩ := Cursor.ahead_next ha
    obtain ⟨ts, us, e, hts, he, hc, hs⟩ := assignment_sound h
    refine ⟨.name target :: .fixed f :: ts ++ us, ?_, hs ▸ .simple (.assign target hop he) hc⟩
    simp [Cursor.tokens_of_ahead ha, Cursor.tokens_of_ahead hvs, hts]
  have htyped {type name : String} {f : Fixed} {start : Nat} (hf : f = .equal ∨ f = .semicolon)
      (ha : c.ahead = [.name type, .name name, .fixed f])
      (h : declaration depth start (some type) .asName c.next = .ok (s, c')) :
      ∃ ts, c.tokens = ts ++ c'.tokens ∧ Statement ts s.bare c'.tokens := by
    obtain ⟨vs, hvs⟩ := Cursor.ahead_next ha
    obtain ⟨ws, hws⟩ := Cursor.ahead_next hvs
    have ht := Cursor.tokens_of_ahead hvs
    rw [Cursor.tokens_of_ahead hws] at ht
    obtain ⟨us, hus, hs⟩ := typed_sound h hf ht
    exact ⟨.name type :: us, by simp [Cursor.tokens_of_ahead ha, hus], hs⟩
  simp only [simpleStatement] at h
  split at h
  · rename_i hw
    obtain ⟨name, us, hc, ⟨hts, hs⟩ | ⟨ts, e, hts, he, hs⟩⟩ := declaration_sound h
    · refine ⟨.fixed .varWord :: .name name :: us, by simp [Cursor.tokens_of_ahead hw, hts], ?_⟩
      exact hs ▸ .simple (.declare name) hc
    · refine ⟨.fixed .varWord :: .name name :: .fixed .equal :: ts ++ us,
        by simp [Cursor.tokens_of_ahead hw, hts], ?_⟩
      exact hs ▸ .simple (.declareValue name he) hc
  · rename_i hw
    obtain ⟨ts, us, hts, hc, hs⟩ := returned_sound h
    exact ⟨.fixed .returnWord :: ts ++ us, by simp [Cursor.tokens_of_ahead hw, hts], .simple hs hc⟩
  · rename_i ha
    exact hassign .set ha h
  · rename_i ha
    exact hassign .add ha h
  · rename_i ha
    exact hassign .sub ha h
  · rename_i ha
    exact htyped (.inl rfl) ha h
  · rename_i ha
    exact htyped (.inr rfl) ha h
  · obtain ⟨⟨e, c₁⟩, h₁, h⟩ := bind_eq_ok.mp h
    obtain ⟨c₂, h₂, h⟩ := bind_eq_ok.mp h
    obtain ⟨ts, hts, he⟩ := expr_sound h₁
    obtain ⟨us, hus, hc⟩ := endOfStatement_sound h₂
    cases h
    exact ⟨ts ++ us, by simp [hts, hus], .simple (.expr he) hc⟩

mutual

theorem statement_sound {depth : Nat} {s : Stmt} {c c' : Cursor} (h : statement depth c = .ok (s, c')) :
    ∃ ts, c.tokens = ts ++ c'.tokens ∧ Statement ts s.bare c'.tokens := by
  rw [statement] at h
  split at h
  · rename_i hw
    obtain ⟨c₁, h₁, h⟩ := bind_eq_ok.mp h
    obtain ⟨⟨condition, c₂⟩, h₂, h⟩ := bind_eq_ok.mp h
    obtain ⟨c₃, h₃, h⟩ := bind_eq_ok.mp h
    obtain ⟨⟨yes, c₄⟩, h₄, h⟩ := bind_eq_ok.mp h
    obtain ⟨cs, hcs, hc⟩ := expr_sound h₂
    obtain ⟨ts, hts, hyes⟩ := body_sound h₄
    have hif : c.tokens = .fixed .ifWord :: .fixed .leftParen ::
        (cs ++ .fixed .rightParen :: (ts ++ c₄.tokens)) := by
      rw [Cursor.tokens_of_isAt hw, Cursor.tokens_of_expect h₁, hcs, Cursor.tokens_of_expect h₃, hts]
    dsimp only at h
    split at h
    · rename_i he
      obtain ⟨⟨no, c₅⟩, h₅, h⟩ := bind_eq_ok.mp h
      obtain ⟨us, hus, hno⟩ := body_sound h₅
      have helse := Cursor.tokens_of_isAt he
      rw [helse, hus] at hif hyes
      cases h
      exact ⟨_, by simpa using hif, .branchElse hc hyes hno⟩
    · rename_i he
      cases h
      refine ⟨_, by simpa using hif, .branch hc hyes ?_⟩
      rwa [← Cursor.peek?_eq, ne_eq, ← Cursor.isAt_iff]
  · exact simpleStatement_sound h
termination_by (depth, 2, 0)

theorem body_sound {depth : Nat} {ss : List Stmt} {c c' : Cursor} (h : body depth c = .ok (ss, c')) :
    ∃ ts, c.tokens = ts ++ c'.tokens ∧ Body ts (bareBlock ss) c'.tokens := by
  cases depth with
  | zero =>
    rw [body] at h
    cases h
  | succ depth =>
    rw [body] at h
    split at h
    · rename_i hb
      obtain ⟨ts, ss', rfl, hts, hss⟩ := block_sound h
      refine ⟨.fixed .leftBrace :: (ts ++ [.fixed .rightBrace]), ?_, .block hss⟩
      simp [Cursor.tokens_of_isAt hb, hts]
    · obtain ⟨⟨s, c₁⟩, h₁, heq⟩ := map_eq_ok.mp h
      obtain ⟨ts, hts, hs⟩ := statement_sound h₁
      cases heq
      exact ⟨ts, hts, .single hs⟩
termination_by (depth, 1, 0)

theorem block_sound {depth : Nat} {bound : List Lexeme} {done ss : List Stmt} {c c' : Cursor}
    (h : block depth bound c done = .ok (ss, c')) :
    ∃ ts ss', ss = done.reverse ++ ss' ∧ c.tokens = ts ++ .fixed .rightBrace :: c'.tokens ∧
      Statements ts (bareBlock ss') (.fixed .rightBrace :: c'.tokens) := by
  rw [block.eq_def] at h
  split at h
  · rename_i hb
    cases h
    exact ⟨[], [], by simp, Cursor.tokens_of_isAt hb, .nil _⟩
  · split at h
    · cases h
    · cases h
    · rename_i bound t ht
      split at h
      · rename_i hs
        obtain ⟨ts, ss', hss, hts, hder⟩ := block_sound h
        exact ⟨.fixed .semicolon :: ts, ss', hss, by simp [Cursor.tokens_of_isAt hs, hts], .stray hder⟩
      · obtain ⟨⟨s, c₁⟩, h₁, h⟩ := bind_eq_ok.mp h
        obtain ⟨ts, hts, hs⟩ := statement_sound h₁
        obtain ⟨us, ss', hss, hus, hder⟩ := block_sound h
        rw [hus] at hts hs
        exact ⟨ts ++ us, s :: ss', by simp [hss], by simp [hts], .cons hs hder⟩
termination_by (depth, 3, bound.length)

end

theorem statements_sound {depth : Nat} {bound : List Lexeme} {done ss : List Stmt} {c : Cursor}
    (h : statements depth bound c done = .ok ss) :
    ∃ ss', ss = done.reverse ++ ss' ∧ Statements c.tokens (bareBlock ss') [] := by
  unfold statements at h
  split at h
  · rename_i hnone
    cases h
    rw [Cursor.peek?_eq, List.head?_eq_none_iff] at hnone
    exact ⟨[], by simp, hnone ▸ .nil []⟩
  · cases h
  · rename_i bound t ht
    split at h
    · rename_i hs
      obtain ⟨ss', hss, hder⟩ := statements_sound h
      exact ⟨ss', hss, Cursor.tokens_of_isAt hs ▸ .stray hder⟩
    · obtain ⟨⟨s, c₁⟩, h₁, h⟩ := bind_eq_ok.mp h
      obtain ⟨ts, hts, hs⟩ := statement_sound h₁
      obtain ⟨ss', hss, hder⟩ := statements_sound h
      refine ⟨s :: ss', by simp [hss], ?_⟩
      rw [hts]
      exact .cons (by simpa using hs) hder
termination_by bound.length

theorem parseScript_sound {depth : Nat} {ls : List Lexeme} {ss : List Stmt}
    (h : parseScript depth ls = .ok ss) : Derives (ls.map Lexeme.token) (bareBlock ss) := by
  obtain ⟨ss', rfl, hss⟩ := statements_sound h
  exact hss

end FactFold.Script
