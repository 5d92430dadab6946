import FactFold.Proofs.Script.Grammar.FirstTokens

namespace FactFold.Script.Grammar

def Declares (ts : List Token) : Prop :=
  ts.head? = some (.fixed .equal) ∨ ts.head? = some (.fixed .semicolon)

def Paired (ts : List Token) : Prop :=
  ∀ before a b after, ts = before ++ .name a :: .name b :: after → Declares after

def Unnamed (ts : List Token) : Prop :=
  ∀ n, ts.head? ≠ some (.name n)

section

variable {ts : List Token} {t : Token}

theorem unnamed_fixed (f : Fixed) (ts : List Token) : Unnamed (.fixed f :: ts) := by
  intro n
  simp

theorem Declares.unnamed (h : Declares ts) : Unnamed ts := by
  intro n hn
  rcases h with h | h
  · cases h.symm.trans hn
  · cases h.symm.trans hn

theorem paired_nil : Paired [] := by
  intro before a b after h
  simp at h

theorem paired_cons (h : Paired ts)
    (hpair : ∀ a b after, t = .name a → ts = .name b :: after → Declares after) :
    Paired (t :: ts) := by
  intro before a b after hts
  cases before with
  | nil =>
    obtain ⟨ha, hb⟩ := List.cons.inj hts
    exact hpair a b after ha hb
  | cons t' before => exact h before a b after (List.cons.inj hts).2

theorem Paired.fixed (h : Paired ts) (f : Fixed) : Paired (.fixed f :: ts) := by
  apply paired_cons h
  intro a b after hf
  cases hf

theorem Paired.name (h : Paired ts) (hn : Unnamed ts) (n : String) : Paired (.name n :: ts) := by
  apply paired_cons h
  intro a b after _ hts
  rw [hts] at hn
  exact absurd rfl (hn b)

theorem Paired.declaration (h : Paired ts) (hd : Declares ts) (type name : String) :
    Paired (.name type :: .name name :: ts) := by
  apply paired_cons (h.name hd.unnamed name)
  intro a b after _ hts
  obtain ⟨-, rfl⟩ := List.cons.inj hts
  exact hd

end

mutual

theorem Expression.paired {ts us : List Token} {e : Expr} (h : Expression ts e)
    (hus : Paired us) (hn : Unnamed us) : Paired (ts ++ us) := by
  match h with
  | .plain h => exact h.paired hus hn
  | .conditional hc hy hno =>
    have hyes := hy.paired ((hno.paired hus hn).fixed .colon) (unnamed_fixed _ _)
    simpa using hc.paired (hyes.fixed .question) (unnamed_fixed _ _)
termination_by structural h

theorem Level.paired {k : Nat} {ts us : List Token} {e : Expr} (h : Level k ts e)
    (hus : Paired us) (hn : Unnamed us) : Paired (ts ++ us) := by
  match h with
  | .operand h => exact h.paired hus hn
  | .higher h => exact h.paired hus hn
  | .join hl _ hr => simpa using hl.paired ((hr.paired hus hn).fixed _) (unnamed_fixed _ _)
termination_by structural h

theorem Operand.paired {ts us : List Token} {e : Expr} (h : Operand ts e) (hus : Paired us) (hn : Unnamed us) :
    Paired (ts ++ us) := by
  match h with
  | .plain h => exact h.paired hus hn
  | .negInt h => exact (h.paired hus hn).fixed .minus
  | .negFloat h => exact (h.paired hus hn).fixed .minus
  | .neg h _ => exact (h.paired hus hn).fixed .minus
  | .not h => exact (h.paired hus hn).fixed .bang
termination_by structural h

theorem Postfixed.paired {ts us : List Token} {e : Expr} (h : Postfixed ts e)
    (hus : Paired us) (hn : Unnamed us) : Paired (ts ++ us) := by
  match h with
  | .atom h => exact h.paired hus hn
  | .field h name => simpa using h.paired ((hus.name hn name).fixed .dot) (unnamed_fixed _ _)
  | .call h _ ha =>
    have hargs := ha.paired (hus.fixed .rightParen) (unnamed_fixed _ _)
    simpa using h.paired (hargs.fixed .leftParen) (unnamed_fixed _ _)
termination_by structural h

theorem Atom.paired {ts us : List Token} {e : Expr} (h : Atom ts e) (hus : Paired us) (hn : Unnamed us) :
    Paired (ts ++ us) := by
  match h with
  | .literal h =>
    apply paired_cons hus
    intro a b after ha
    subst ha
    cases h
  | .name n => exact hus.name hn n
  | .parens h => simpa using (h.paired (hus.fixed .rightParen) (unnamed_fixed _ _)).fixed .leftParen
termination_by structural h

theorem Arguments.paired {ts us : List Token} {args : List Expr} (h : Arguments ts args)
    (hus : Paired us) (hn : Unnamed us) : Paired (ts ++ us) := by
  match h with
  | .none => exact hus
  | .last h => exact h.paired hus hn
  | .more h hs => simpa using h.paired ((hs.paired hus hn).fixed .comma) (unnamed_fixed _ _)
termination_by structural h

end

theorem Closing.unnamed {us next : List Token} (h : Closing us next) : Unnamed (us ++ next) := by
  intro n hn
  obtain hs | hb := h.head hn
  · cases hs
  · cases hb

theorem Closing.paired {us next : List Token} (h : Closing us next) (hnext : Paired next) :
    Paired (us ++ next) := by
  cases h with
  | semicolon => exact hnext.fixed .semicolon
  | brace => exact hnext
  | finish => exact hnext

theorem Simple.paired {ts us : List Token} {s : Stmt} (h : Simple ts s) (hus : Paired us) (hn : Unnamed us) :
    Paired (ts ++ us) := by
  cases h with
  | expr h => exact h.paired hus hn
  | ret => exact hus.fixed .returnWord
  | retValue h => exact (h.paired hus hn).fixed .returnWord
  | assign target _ h => exact ((h.paired hus hn).fixed _).name (unnamed_fixed _ _) target
  | declare name => exact (hus.name hn name).fixed .varWord
  | declareValue name h =>
    exact (((h.paired hus hn).fixed .equal).name (unnamed_fixed _ _) name).fixed .varWord
  | typedValue type name h => exact ((h.paired hus hn).fixed .equal).declaration (.inl rfl) type name

mutual

theorem Statement.paired {ts next : List Token} {s : Stmt} (h : Statement ts s next) (hnext : Paired next) :
    Paired (ts ++ next) := by
  match h with
  | .simple h hc => simpa using h.paired (hc.paired hnext) hc.unnamed
  | .typed type name _ => exact (hnext.fixed .semicolon).declaration (.inr rfl) type name
  | .branch hc hy _ =>
    have hyes := (hy.paired hnext).fixed .rightParen
    simpa using ((hc.paired hyes (unnamed_fixed _ _)).fixed .leftParen).fixed .ifWord
  | .branchElse hc hy hn =>
    have hyes := (hy.paired ((hn.paired hnext).fixed .elseWord)).fixed .rightParen
    simpa using ((hc.paired hyes (unnamed_fixed _ _)).fixed .leftParen).fixed .ifWord
termination_by structural h

theorem Body.paired {ts next : List Token} {ss : List Stmt} (h : Body ts ss next) (hnext : Paired next) :
    Paired (ts ++ next) := by
  match h with
  | .block h => simpa using (h.paired (hnext.fixed .rightBrace)).fixed .leftBrace
  | .single h => exact h.paired hnext
termination_by structural h

theorem Statements.paired {ts next : List Token} {ss : List Stmt} (h : Statements ts ss next)
    (hnext : Paired next) : Paired (ts ++ next) := by
  match h with
  | .nil _ => exact hnext
  | .stray h => exact (h.paired hnext).fixed .semicolon
  | .cons hs h => simpa using hs.paired (h.paired hnext)
termination_by structural h

end

theorem Derives.paired {ts : List Token} {ss : List Stmt} (h : Derives ts ss) : Paired ts := by
  simpa using Statements.paired h paired_nil

end FactFold.Script.Grammar
