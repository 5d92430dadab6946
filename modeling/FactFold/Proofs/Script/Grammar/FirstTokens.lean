import FactFold.Proofs.Script.Grammar.Precedence

namespace FactFold.Script.Grammar

def StartsIn (fs : List Fixed) (ts : List Token) : Prop :=
  ∃ t rest, ts = t :: rest ∧ ∀ f, t = .fixed f → f ∈ fs

namespace StartsIn

variable {fs gs : List Fixed} {ts : List Token}

theorem append (h : StartsIn fs ts) (us : List Token) : StartsIn fs (ts ++ us) := by
  obtain ⟨t, rest, rfl, ht⟩ := h
  exact ⟨t, rest ++ us, rfl, ht⟩

theorem mono (h : StartsIn fs ts) (hsub : fs ⊆ gs) : StartsIn gs ts := by
  obtain ⟨t, rest, hts, ht⟩ := h
  exact ⟨t, rest, hts, fun f hf => hsub (ht f hf)⟩

theorem fixed {f : Fixed} (hf : f ∈ fs) (ts : List Token) : StartsIn fs (.fixed f :: ts) :=
  ⟨_, ts, rfl, fun _ hg => Token.fixed.inj hg ▸ hf⟩

theorem isAt {c : Cursor} {f : Fixed} (h : StartsIn fs c.tokens) (hf : f ∉ fs) : c.isAt f = false := by
  obtain ⟨t, rest, hts, ht⟩ := h
  apply Cursor.isAt_false
  rw [hts, List.head?_cons]
  rintro ⟨⟩
  exact hf (ht f rfl)

end StartsIn

def operandStarts : List Fixed :=
  [.nullWord, .trueWord, .falseWord, .leftParen]

def expressionStarts : List Fixed :=
  .minus :: .bang :: operandStarts

def simpleStarts : List Fixed :=
  .varWord :: .returnWord :: expressionStarts

theorem Atom.starts {ts : List Token} {e : Expr} (h : Atom ts e) : StartsIn operandStarts ts := by
  cases h with
  | literal h => cases h <;> exact ⟨_, _, rfl, by rintro f ⟨⟩ <;> decide⟩
  | name n => exact ⟨_, _, rfl, nofun⟩
  | parens h => exact .fixed (by decide) _

theorem Postfixed.starts {ts : List Token} {e : Expr} (h : Postfixed ts e) : StartsIn operandStarts ts := by
  match h with
  | .atom h => exact h.starts
  | .field h _ => exact h.starts.append _
  | .call h _ _ => exact h.starts.append _
termination_by structural h

theorem StartsIn.sign? {ts : List Token} (h : StartsIn operandStarts ts) :
    ts.head?.bind Token.sign? = none := by
  obtain ⟨t, rest, rfl, ht⟩ := h
  cases t with
  | fixed f =>
    have table : ∀ g ∈ operandStarts, (Token.fixed g).sign? = none := by decide
    exact table f (ht f rfl)
  | _ => rfl

theorem Operand.starts {ts : List Token} {e : Expr} (h : Operand ts e) : StartsIn expressionStarts ts := by
  cases h with
  | plain h => exact h.starts.mono (by decide)
  | _ => exact .fixed (by decide) _

theorem Level.starts {k : Nat} {ts : List Token} {e : Expr} (h : Level k ts e) :
    StartsIn expressionStarts ts := by
  match h with
  | .operand h => exact h.starts
  | .higher h => exact h.starts
  | .join hl _ _ => exact hl.starts.append _
termination_by structural h

theorem Expression.starts {ts : List Token} {e : Expr} (h : Expression ts e) :
    StartsIn expressionStarts ts := by
  cases h with
  | plain h => exact h.starts
  | conditional hc hy hn => exact hc.starts.append _

theorem Simple.starts {ts : List Token} {s : Stmt} (h : Simple ts s) : StartsIn simpleStarts ts := by
  cases h with
  | expr h => exact h.starts.mono (by decide)
  | assign target | typedValue type name => exact ⟨_, _, rfl, nofun⟩
  | _ => exact .fixed (by decide) _

theorem Statement.starts {ts next : List Token} {s : Stmt} (h : Statement ts s next) :
    StartsIn (.ifWord :: simpleStarts) ts := by
  cases h with
  | simple h hc => exact (h.starts.append _).mono (by decide)
  | typed type name => exact ⟨_, _, rfl, nofun⟩
  | branch | branchElse => exact .fixed (by decide) _

def continuing : List Fixed :=
  .dot :: .leftParen :: .question :: levels.flatten.map Prod.fst

theorem Joins.continuing {level : Nat} {f : Fixed} {op : BinaryOp} (h : Joins level f op) :
    f ∈ continuing := by
  have hl := h.lt
  rw [Joins, List.getD_eq_getElem _ _ hl] at h
  have hmem : (f, op) ∈ levels.flatten := List.mem_flatten.mpr ⟨_, List.getElem_mem hl, h⟩
  simp only [Grammar.continuing, List.mem_cons, List.mem_map]
  exact .inr (.inr (.inr ⟨_, hmem, rfl⟩))

theorem second_append {n : String} {t : Token} {fs : List Fixed} {ts us rest : List Token} {f : Fixed}
    (hs : StartsIn fs ts) (h : ts ++ .fixed f :: us = .name n :: t :: rest) :
    t = .fixed f ∨ ∃ rest', ts = .name n :: t :: rest' := by
  obtain ⟨t', ts', rfl, -⟩ := hs
  cases ts' with
  | nil =>
    simp only [List.cons_append, List.nil_append, List.cons.injEq] at h
    exact .inl h.2.1.symm
  | cons u ts' =>
    simp only [List.cons_append, List.cons.injEq] at h
    exact .inr ⟨ts', by rw [h.1, h.2.1]⟩

theorem Postfixed.second {n : String} {t : Token} {ts rest : List Token} {e : Expr} (h : Postfixed ts e)
    (hts : ts = .name n :: t :: rest) : ∃ f ∈ continuing, t = .fixed f := by
  match h with
  | .atom h => cases h <;> cases hts
  | .field h name =>
    obtain rfl | ⟨rest', hrest⟩ := second_append h.starts hts
    · exact ⟨.dot, by decide, rfl⟩
    · exact h.second hrest
  | .call h hp ha =>
    obtain rfl | ⟨rest', hrest⟩ := second_append h.starts hts
    · exact ⟨.leftParen, by decide, rfl⟩
    · exact h.second hrest
termination_by structural h

theorem Operand.second {n : String} {t : Token} {ts rest : List Token} {e : Expr} (h : Operand ts e)
    (hts : ts = .name n :: t :: rest) : ∃ f ∈ continuing, t = .fixed f := by
  cases h with
  | plain h => exact h.second hts
  | _ => cases hts

theorem Level.second {k : Nat} {n : String} {t : Token} {ts rest : List Token} {e : Expr} (h : Level k ts e)
    (hts : ts = .name n :: t :: rest) : ∃ f ∈ continuing, t = .fixed f := by
  match h with
  | .operand h => exact h.second hts
  | .higher h => exact h.second hts
  | .join hl hj hr =>
    obtain rfl | ⟨rest', hrest⟩ := second_append hl.starts hts
    · exact ⟨_, hj.continuing, rfl⟩
    · exact hl.second hrest
termination_by structural h

theorem Expression.second {n : String} {t : Token} {ts rest : List Token} {e : Expr} (h : Expression ts e)
    (hts : ts = .name n :: t :: rest) : ∃ f ∈ continuing, t = .fixed f := by
  cases h with
  | plain h => exact h.second hts
  | conditional hc hy hn =>
    obtain rfl | ⟨rest', hrest⟩ := second_append hc.starts hts
    · exact ⟨.question, by decide, rfl⟩
    · exact hc.second hrest

structure Apart (ts : List Token) : Prop where
  dot : ts.head? ≠ some (.fixed .dot)
  paren : ts.head? ≠ some (.fixed .leftParen)

structure Ends (ts : List Token) : Prop extends Apart ts where
  operator : Below 0 ts
  question : ts.head? ≠ some (.fixed .question)

theorem Joins.apart {level : Nat} {f : Fixed} {op : BinaryOp} (h : Joins level f op) (ts : List Token) :
    Apart (.fixed f :: ts) := by
  have hb := h.binary?
  constructor <;> rintro ⟨⟩ <;> cases hb

theorem Joins.below {level : Nat} {f : Fixed} {op : BinaryOp} (h : Joins level f op) (ts : List Token) :
    Below (precedence level + 1) (.fixed f :: ts) := by
  intro p op' hp
  cases h.binary?.symm.trans hp
  exact Nat.lt_succ_self _

def closers : List Fixed :=
  [.rightParen, .comma, .colon, .semicolon, .rightBrace]

theorem ends_cons {f : Fixed} (hf : f ∈ closers) (ts : List Token) : Ends (.fixed f :: ts) := by
  have table : ∀ g ∈ closers, g ≠ .dot ∧ g ≠ .leftParen ∧ g ≠ .question ∧ g.binary? = none := by decide
  obtain ⟨hd, hp, hq, hb⟩ := table f hf
  refine ⟨⟨by simpa using hd, by simpa using hp⟩, fun p op hop => ?_, by simpa using hq⟩
  cases hb.symm.trans hop

theorem Closing.ends {us next : List Token} (h : Closing us next) : Ends (us ++ next) := by
  cases h with
  | semicolon => exact ends_cons (by decide) next
  | brace => exact ends_cons (by decide) _
  | finish => exact ⟨⟨nofun, nofun⟩, nofun, nofun⟩

theorem Closing.head {us next : List Token} {t : Token} (h : Closing us next)
    (ht : (us ++ next).head? = some t) : t = .fixed .semicolon ∨ t = .fixed .rightBrace := by
  cases h with
  | semicolon => exact .inl (Option.some.inj ht).symm
  | brace => exact .inr (Option.some.inj ht).symm
  | finish => cases ht

theorem Closing.isAt {us next : List Token} {c : Cursor} {f : Fixed} (h : Closing us next)
    (ht : c.tokens = us ++ next) (hf : f ∉ [Fixed.semicolon, .rightBrace]) : c.isAt f = false := by
  apply Cursor.isAt_false
  intro hhead
  obtain heq | heq := h.head (ht ▸ hhead) <;> cases heq <;> exact hf (by decide)

theorem Expression.second_closed {n : String} {t : Token} {ts us next rest : List Token} {e : Expr}
    (h : Expression ts e) (hc : Closing us next) (hts : ts ++ (us ++ next) = .name n :: t :: rest) :
    ∃ f, t = .fixed f ∧ f ∉ [Fixed.equal, .plusEqual, .minusEqual] := by
  obtain ⟨t', ts', rfl, -⟩ := h.starts
  cases ts' with
  | nil =>
    rw [List.cons_append, List.nil_append, List.cons.injEq] at hts
    obtain rfl | rfl := hc.head (hts.2 ▸ rfl : (us ++ next).head? = some t)
    · exact ⟨_, rfl, by decide⟩
    · exact ⟨_, rfl, by decide⟩
  | cons u ts' =>
    simp only [List.cons_append, List.cons.injEq] at hts
    obtain ⟨f, hf, rfl⟩ := h.second (by rw [hts.1, hts.2.1])
    have table : ∀ g ∈ continuing, g ∉ [Fixed.equal, .plusEqual, .minusEqual] := by decide
    exact ⟨f, rfl, table f hf⟩

end FactFold.Script.Grammar
