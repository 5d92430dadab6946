import FactFold.Proofs.Script.Bare
import FactFold.Script.Token

/-!
Which tokens make up expressions, statements and scripts, and the tree that stands for them. The grammar
knows of no precedence numbers, no limits and no places in the source: its trees are bare. What a statement is
depends on the tokens `next` that stand behind it.
-/

namespace FactFold.Script.Grammar

def levels : List (List (Fixed × BinaryOp)) :=
  [[(.orOr, .or)],
   [(.andAnd, .and)],
   [(.equalEqual, .strict .eq), (.bangEqual, .strict .ne)],
   [(.less, .strict (.order .lt)), (.lessEqual, .strict (.order .le)),
    (.greater, .strict (.order .gt)), (.greaterEqual, .strict (.order .ge))],
   [(.plus, .strict (.arith .add)), (.minus, .strict (.arith .sub))],
   [(.star, .strict (.arith .mul)), (.slash, .strict (.arith .div)), (.percent, .strict (.arith .rem))]]

def Joins (level : Nat) (f : Fixed) (op : BinaryOp) : Prop :=
  (f, op) ∈ levels.getD level []

instance (level : Nat) (f : Fixed) (op : BinaryOp) : Decidable (Joins level f op) :=
  inferInstanceAs (Decidable ((f, op) ∈ levels.getD level []))

inductive Spells : Token → Literal → Prop
  | null : Spells (.fixed .nullWord) .null
  | yes : Spells (.fixed .trueWord) (.bool true)
  | no : Spells (.fixed .falseWord) (.bool false)
  | int (n : Int64) : Spells (.int n) (.int n)
  | float (x : Float) : Spells (.float x) (.float x)
  | text (s : String) : Spells (.text s) (.text s)

inductive Assigns : Fixed → AssignOp → Prop
  | set : Assigns .equal .set
  | add : Assigns .plusEqual (.update .add)
  | sub : Assigns .minusEqual (.update .sub)

inductive IsNumber : Expr → Prop
  | int (n : Int64) (span : Span) : IsNumber (.literal (.int n) span)
  | float (x : Float) (span : Span) : IsNumber (.literal (.float x) span)

mutual

inductive Expression : List Token → Expr → Prop
  | plain {ts : List Token} {e : Expr} (h : Level 0 ts e) : Expression ts e
  | conditional {cs ts us : List Token} {condition yes no : Expr} (hc : Level 0 cs condition)
      (hy : Expression ts yes) (hn : Expression us no) :
      Expression (cs ++ .fixed .question :: (ts ++ .fixed .colon :: us))
        (.conditional condition yes no ⟨0, 0⟩)

/-- Operands joined by operators of the level and of the levels that bind more. On its own level an
operator has the operators to its left below it, and none to its right. -/
inductive Level : Nat → List Token → Expr → Prop
  | operand {ts : List Token} {e : Expr} (h : Operand ts e) : Level levels.length ts e
  | higher {level : Nat} {ts : List Token} {e : Expr} (h : Level (level + 1) ts e) : Level level ts e
  | join {level : Nat} {f : Fixed} {op : BinaryOp} {ts us : List Token} {left right : Expr}
      (hl : Level level ts left) (hj : Joins level f op) (hr : Level (level + 1) us right) :
      Level level (ts ++ .fixed f :: us) (.binary op left right ⟨0, 0⟩)

inductive Operand : List Token → Expr → Prop
  | plain {ts : List Token} {e : Expr} (h : Postfixed ts e) : Operand ts e
  | negInt {ts : List Token} {n : Int64} (h : Operand ts (.literal (.int n) ⟨0, 0⟩)) :
      Operand (.fixed .minus :: ts) (.literal (.int (-n)) ⟨0, 0⟩)
  | negFloat {ts : List Token} {x : Float} (h : Operand ts (.literal (.float x) ⟨0, 0⟩)) :
      Operand (.fixed .minus :: ts) (.literal (.float (-x)) ⟨0, 0⟩)
  | neg {ts : List Token} {e : Expr} (h : Operand ts e) (hn : ¬IsNumber e) :
      Operand (.fixed .minus :: ts) (.unary .neg e ⟨0, 0⟩)
  | not {ts : List Token} {e : Expr} (h : Operand ts e) :
      Operand (.fixed .bang :: ts) (.unary .not e ⟨0, 0⟩)

inductive Postfixed : List Token → Expr → Prop
  | atom {ts : List Token} {e : Expr} (h : Atom ts e) : Postfixed ts e
  | field {ts : List Token} {e : Expr} (h : Postfixed ts e) (name : String) :
      Postfixed (ts ++ [.fixed .dot, .name name]) (.field e name ⟨0, 0⟩)
  | call {ts us : List Token} {e : Expr} {function : String} {args : List Expr} (h : Postfixed ts e)
      (hp : e.path? = some function) (ha : Arguments us args) :
      Postfixed (ts ++ .fixed .leftParen :: (us ++ [.fixed .rightParen])) (.call function args ⟨0, 0⟩)

inductive Atom : List Token → Expr → Prop
  | literal {t : Token} {l : Literal} (h : Spells t l) : Atom [t] (.literal l ⟨0, 0⟩)
  | name (n : String) : Atom [.name n] (.name n ⟨0, 0⟩)
  | parens {ts : List Token} {e : Expr} (h : Expression ts e) :
      Atom (.fixed .leftParen :: (ts ++ [.fixed .rightParen])) e

inductive Arguments : List Token → List Expr → Prop
  | none : Arguments [] []
  | last {ts : List Token} {e : Expr} (h : Expression ts e) : Arguments ts [e]
  | more {ts us : List Token} {e : Expr} {es : List Expr} (h : Expression ts e) (hs : Arguments us es) :
      Arguments (ts ++ .fixed .comma :: us) (e :: es)

end

inductive Closing : List Token → List Token → Prop
  | semicolon (next : List Token) : Closing [.fixed .semicolon] next
  | brace (next : List Token) : Closing [] (.fixed .rightBrace :: next)
  | finish : Closing [] []

inductive Simple : List Token → Stmt → Prop
  | expr {ts : List Token} {e : Expr} (h : Expression ts e) : Simple ts (.expr e)
  | ret : Simple [.fixed .returnWord] (.ret none)
  | retValue {ts : List Token} {e : Expr} (h : Expression ts e) :
      Simple (.fixed .returnWord :: ts) (.ret (some e))
  | assign {f : Fixed} {op : AssignOp} {ts : List Token} {e : Expr} (target : String) (ha : Assigns f op)
      (h : Expression ts e) : Simple (.name target :: .fixed f :: ts) (.assign target op e ⟨0, 0⟩)
  | declare (name : String) :
      Simple [.fixed .varWord, .name name] (.declare name none none ⟨0, 0⟩)
  | declareValue {ts : List Token} {e : Expr} (name : String) (h : Expression ts e) :
      Simple (.fixed .varWord :: .name name :: .fixed .equal :: ts) (.declare name none (some e) ⟨0, 0⟩)
  | typedValue {ts : List Token} {e : Expr} (type name : String) (h : Expression ts e) :
      Simple (.name type :: .name name :: .fixed .equal :: ts)
        (.declare name (some type) (some e) ⟨0, 0⟩)

mutual

inductive Statement : List Token → Stmt → List Token → Prop
  | simple {ts us next : List Token} {s : Stmt} (h : Simple ts s) (hc : Closing us next) :
      Statement (ts ++ us) s next
  -- Without a value, a type and a name are a declaration only in front of a semicolon.
  | typed (type name : String) (next : List Token) :
      Statement [.name type, .name name, .fixed .semicolon] (.declare name (some type) none ⟨0, 0⟩) next
  -- An `else` belongs to the nearest `if`, so it does not stand behind an `if` that has none.
  | branch {cs ts next : List Token} {condition : Expr} {yes : List Stmt} (hc : Expression cs condition)
      (hy : Body ts yes next) (he : next.head? ≠ some (.fixed .elseWord)) :
      Statement (.fixed .ifWord :: .fixed .leftParen :: (cs ++ .fixed .rightParen :: ts))
        (.branch condition yes none) next
  | branchElse {cs ts us next : List Token} {condition : Expr} {yes no : List Stmt}
      (hc : Expression cs condition) (hy : Body ts yes (.fixed .elseWord :: (us ++ next)))
      (hn : Body us no next) :
      Statement (.fixed .ifWord :: .fixed .leftParen ::
          (cs ++ .fixed .rightParen :: (ts ++ .fixed .elseWord :: us)))
        (.branch condition yes (some no)) next

inductive Body : List Token → List Stmt → List Token → Prop
  | block {ts next : List Token} {ss : List Stmt} (h : Statements ts ss (.fixed .rightBrace :: next)) :
      Body (.fixed .leftBrace :: (ts ++ [.fixed .rightBrace])) ss next
  | single {ts next : List Token} {s : Stmt} (h : Statement ts s next) : Body ts [s] next

inductive Statements : List Token → List Stmt → List Token → Prop
  | nil (next : List Token) : Statements [] [] next
  | stray {ts next : List Token} {ss : List Stmt} (h : Statements ts ss next) :
      Statements (.fixed .semicolon :: ts) ss next
  | cons {ts us next : List Token} {s : Stmt} {ss : List Stmt} (hs : Statement ts s (us ++ next))
      (h : Statements us ss next) : Statements (ts ++ us) (s :: ss) next

end

def Derives (ts : List Token) (ss : List Stmt) : Prop :=
  Statements ts ss []

end FactFold.Script.Grammar
