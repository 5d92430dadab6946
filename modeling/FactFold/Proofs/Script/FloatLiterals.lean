import FactFold.Proofs.Decimal.NotNaN
import FactFold.Proofs.Script.Grammar.Soundness
import FactFold.Proofs.Script.Literals
import FactFold.Proofs.Script.Tiling
import FactFold.Proofs.Script.Tokens

namespace FactFold.Script

open Grammar

variable {P : Float → Prop}

def Literal.FloatsAll (P : Float → Prop) : Literal → Prop
  | .float x => P x
  | _ => True

mutual

def Expr.FloatsAll (P : Float → Prop) : Expr → Prop
  | .literal l _ => l.FloatsAll P
  | .name _ _ => True
  | .field object _ _ => object.FloatsAll P
  | .call _ args _ => ArgsFloatsAll P args
  | .unary _ operand _ => operand.FloatsAll P
  | .binary _ left right _ => left.FloatsAll P ∧ right.FloatsAll P
  | .conditional condition yes no _ => condition.FloatsAll P ∧ yes.FloatsAll P ∧ no.FloatsAll P
termination_by structural e => e

def ArgsFloatsAll (P : Float → Prop) : List Expr → Prop
  | [] => True
  | e :: rest => e.FloatsAll P ∧ ArgsFloatsAll P rest
termination_by structural es => es

end

mutual

def Stmt.FloatsAll (P : Float → Prop) : Stmt → Prop
  | .expr e => e.FloatsAll P
  | .assign _ _ value _ => value.FloatsAll P
  | .declare _ _ none _ => True
  | .declare _ _ (some value) _ => value.FloatsAll P
  | .branch condition yes none => condition.FloatsAll P ∧ BlockFloatsAll P yes
  | .branch condition yes (some no) => condition.FloatsAll P ∧ BlockFloatsAll P yes ∧ BlockFloatsAll P no
  | .ret none => True
  | .ret (some value) => value.FloatsAll P
termination_by structural s => s

def BlockFloatsAll (P : Float → Prop) : List Stmt → Prop
  | [] => True
  | s :: rest => s.FloatsAll P ∧ BlockFloatsAll P rest
termination_by structural ss => ss

end

mutual

theorem Expr.floatsAll_bare (e : Expr) : e.bare.FloatsAll P ↔ e.FloatsAll P := by
  cases e with
  | literal l span => rfl
  | name n span => rfl
  | field object name span => exact object.floatsAll_bare
  | call function args span => exact argsFloatsAll_bare args
  | unary op operand span => exact operand.floatsAll_bare
  | binary op left right span => exact and_congr left.floatsAll_bare right.floatsAll_bare
  | conditional condition yes no span =>
    exact and_congr condition.floatsAll_bare (and_congr yes.floatsAll_bare no.floatsAll_bare)
termination_by structural e

theorem argsFloatsAll_bare (es : List Expr) : ArgsFloatsAll P (bareArgs es) ↔ ArgsFloatsAll P es := by
  cases es with
  | nil => rfl
  | cons e rest => exact and_congr e.floatsAll_bare (argsFloatsAll_bare rest)
termination_by structural es

end

mutual

theorem Stmt.floatsAll_bare (s : Stmt) : s.bare.FloatsAll P ↔ s.FloatsAll P := by
  match s with
  | .expr e => exact e.floatsAll_bare
  | .assign target op value span => exact value.floatsAll_bare
  | .declare name type none span => rfl
  | .declare name type (some value) span => exact value.floatsAll_bare
  | .branch condition yes none => exact and_congr condition.floatsAll_bare (blockFloatsAll_bare yes)
  | .branch condition yes (some no) =>
    exact and_congr condition.floatsAll_bare (and_congr (blockFloatsAll_bare yes) (blockFloatsAll_bare no))
  | .ret none => rfl
  | .ret (some value) => exact value.floatsAll_bare
termination_by structural s

theorem blockFloatsAll_bare (ss : List Stmt) : BlockFloatsAll P (bareBlock ss) ↔ BlockFloatsAll P ss := by
  match ss with
  | [] => rfl
  | s :: rest => exact and_congr s.floatsAll_bare (blockFloatsAll_bare rest)
termination_by structural ss

end

structure TokensAll (P : Float → Prop) (ts : List Token) : Prop where
  float : ∀ x, .float x ∈ ts → P x
  neg : ∀ x, P x → P (-x)

theorem TokensAll.part {ts us : List Token} (h : TokensAll P us)
    (hsub : ∀ x, Token.float x ∈ ts → Token.float x ∈ us := by simp +contextual) : TokensAll P ts :=
  ⟨fun x hx => h.float x (hsub x hx), h.neg⟩

mutual

theorem expression_floats {ts : List Token} {e : Expr} (h : Expression ts e) (ht : TokensAll P ts) :
    e.FloatsAll P := by
  match h with
  | .plain h => exact level_floats h ht
  | .conditional hc hy hn =>
    exact ⟨level_floats hc ht.part, expression_floats hy ht.part,
      expression_floats hn ht.part⟩
termination_by structural h

theorem level_floats {level : Nat} {ts : List Token} {e : Expr} (h : Level level ts e) (ht : TokensAll P ts) :
    e.FloatsAll P := by
  match h with
  | .operand h => exact operand_floats h ht
  | .higher h => exact level_floats h ht
  | .join hl _ hr => exact ⟨level_floats hl ht.part, level_floats hr ht.part⟩
termination_by structural h

theorem operand_floats {ts : List Token} {e : Expr} (h : Operand ts e) (ht : TokensAll P ts) : e.FloatsAll P := by
  match h with
  | .plain h => exact postfixed_floats h ht
  | .negInt h => trivial
  | .negFloat h => exact ht.neg _ (operand_floats h ht.part)
  | .neg h _ =>
    have hoperand := operand_floats h ht.part
    exact hoperand
  | .not h =>
    have hoperand := operand_floats h ht.part
    exact hoperand
termination_by structural h

theorem postfixed_floats {ts : List Token} {e : Expr} (h : Postfixed ts e) (ht : TokensAll P ts) :
    e.FloatsAll P := by
  match h with
  | .atom h => exact atom_floats h ht
  | .field h name =>
    have hobject := postfixed_floats h ht.part
    exact hobject
  | .call h _ ha => exact arguments_floats ha ht.part
termination_by structural h

theorem atom_floats {ts : List Token} {e : Expr} (h : Atom ts e) (ht : TokensAll P ts) : e.FloatsAll P := by
  match h with
  | .literal (.float x) => exact ht.float x (List.mem_singleton_self _)
  | .literal .null | .literal .yes | .literal .no | .literal (.int _) | .literal (.text _) => trivial
  | .name n => trivial
  | .parens h => exact expression_floats h ht.part
termination_by structural h

theorem arguments_floats {ts : List Token} {es : List Expr} (h : Arguments ts es) (ht : TokensAll P ts) :
    ArgsFloatsAll P es := by
  match h with
  | .none => trivial
  | .last h => exact ⟨expression_floats h ht, trivial⟩
  | .more h hs =>
    exact ⟨expression_floats h ht.part, arguments_floats hs ht.part⟩
termination_by structural h

end

theorem simple_floats {ts : List Token} {s : Stmt} (h : Simple ts s) (ht : TokensAll P ts) : s.FloatsAll P := by
  cases h with
  | expr h => exact expression_floats h ht
  | ret => trivial
  | retValue h => exact expression_floats h ht.part
  | assign target ha h => exact expression_floats h ht.part
  | declare name => trivial
  | declareValue name h => exact expression_floats h ht.part
  | typedValue type name h => exact expression_floats h ht.part

mutual

theorem statement_floats {ts next : List Token} {s : Stmt} (h : Statement ts s next) (ht : TokensAll P ts) :
    s.FloatsAll P := by
  match h with
  | .simple h _ => exact simple_floats h ht.part
  | .typed type name next => trivial
  | .branch hc hy _ =>
    exact ⟨expression_floats hc ht.part, body_floats hy ht.part⟩
  | .branchElse hc hy hn =>
    exact ⟨expression_floats hc ht.part, body_floats hy ht.part,
      body_floats hn ht.part⟩
termination_by structural h

theorem body_floats {ts next : List Token} {ss : List Stmt} (h : Body ts ss next) (ht : TokensAll P ts) :
    BlockFloatsAll P ss := by
  match h with
  | .block h => exact statements_floats h ht.part
  | .single h => exact ⟨statement_floats h ht, trivial⟩
termination_by structural h

theorem statements_floats {ts next : List Token} {ss : List Stmt} (h : Statements ts ss next)
    (ht : TokensAll P ts) : BlockFloatsAll P ss := by
  match h with
  | .nil next => trivial
  | .stray h => exact statements_floats h ht.part
  | .cons hs h =>
    exact ⟨statement_floats hs ht.part, statements_floats h ht.part⟩
termination_by structural h

end

theorem parseScript_floats {depth : Nat} {ls : List Lexeme} {ss : List Stmt} (h : parseScript depth ls = .ok ss)
    (ht : TokensAll P (ls.map Lexeme.token)) : BlockFloatsAll P ss :=
  (blockFloatsAll_bare ss).1 (statements_floats (parseScript_sound h) ht)

theorem read?_isNaN {cs : List Char} {x : Float} (h : Decimal.read? cs = some x) : x.isNaN = false := by
  unfold Decimal.read? at h
  dsimp only at h
  split at h
  all_goals
    dsimp only at h
    split at h
    · cases h
    · split at h
      · cases h
      · exact Option.some.inj h ▸ Decimal.nearest_isNaN _ _

theorem numberPiece_isNaN {c : Char} {rest : List Char} {x : Float} {n : Nat}
    (h : numberPiece c rest = (.token (.float x), n)) : x.isNaN = false := by
  unfold numberPiece at h
  dsimp only at h
  split at h
  · split at h <;> cases h
  · split at h
    · next hread =>
      cases h
      exact read?_isNaN hread
    · cases h

theorem piece_isNaN {c : Char} {rest : List Char} {x : Float} {n : Nat} (h : piece c rest = (.token (.float x), n)) :
    x.isNaN = false := by
  rcases piece_token h with ⟨f, hf⟩ | ⟨s, hs⟩ | hname | hnumber
  · cases hf
  · cases hs
  · cases hname
  · exact numberPiece_isNaN hnumber

theorem lexemes_isNaN {source : String} {ls : List Lexeme} (h : lexemes source = .ok ls) :
    TokensAll (fun x => x.isNaN = false) (ls.map Lexeme.token) where
  float x hx := by
    obtain ⟨l, hl, he⟩ := List.mem_map.1 hx
    refine tokens_of_lexemes (P := fun t => ∀ x, t = .float x → x.isNaN = false) (fun hp x ht => ?_) h l hl x he
    subst ht
    exact piece_isNaN hp
  neg x hx := Decimal.neg_isNaN hx

inductive Drawn (c : Compiler) (P : Float → Prop) : Value → Prop
  | literal {l : Literal} (h : l.FloatsAll P) : Drawn c P l.value
  | constant {path : String} {v : Value} (h : c.symbols.constant path = some v) : Drawn c P v

namespace Compiler

variable {c : Compiler} {declared : List String}

theorem nameLiterals_drawn (name : String) : ∀ v ∈ c.nameLiterals declared name, Drawn c P v := by
  intro v hv
  unfold nameLiterals at hv
  split at hv
  · cases hv
  · split at hv
    · cases hv
    · exact .constant (Option.mem_toList.1 hv)

theorem pathConstant?_drawn {e : Expr} {v : Value} (h : c.pathConstant? declared e = some v) : Drawn c P v := by
  unfold pathConstant? at h
  split at h
  · split at h
    · cases h
    · exact .constant h
  · cases h

theorem drawn_bools (bs : List Bool) : ∀ v ∈ bs.map Value.bool, Drawn c P v := by
  intro v hv
  obtain ⟨b, -, rfl⟩ := List.mem_map.1 hv
  exact .literal (l := .bool b) trivial

mutual

theorem exprLiterals_drawn {e : Expr} (h : e.FloatsAll P) : ∀ v ∈ c.exprLiterals declared e, Drawn c P v := by
  match e with
  | .literal l span => exact List.forall_mem_singleton.2 (.literal h)
  | .name n span => exact nameLiterals_drawn n
  | .field object name span =>
    rw [exprLiterals]
    split
    · next v hv => exact List.forall_mem_singleton.2 (pathConstant?_drawn hv)
    · exact exprLiterals_drawn (e := object) h
  | .call function args span => exact argLiterals_drawn h
  | .unary op operand span => exact exprLiterals_drawn (e := operand) h
  | .binary (.strict op) left right span =>
    simp only [exprLiterals, List.forall_mem_append]
    exact ⟨exprLiterals_drawn h.1, exprLiterals_drawn h.2⟩
  | .binary .and left right span =>
    simp only [exprLiterals, List.forall_mem_append]
    exact ⟨⟨exprLiterals_drawn h.1, exprLiterals_drawn h.2⟩, drawn_bools [true, false]⟩
  | .binary .or left right span =>
    simp only [exprLiterals, List.forall_mem_append]
    exact ⟨⟨⟨exprLiterals_drawn h.1, drawn_bools [true]⟩, exprLiterals_drawn h.2⟩, drawn_bools [true, false]⟩
  | .conditional condition yes no span =>
    simp only [exprLiterals, List.forall_mem_append]
    exact ⟨⟨exprLiterals_drawn h.1, exprLiterals_drawn h.2.1⟩, exprLiterals_drawn h.2.2⟩
termination_by structural e

theorem argLiterals_drawn {es : List Expr} (h : ArgsFloatsAll P es) :
    ∀ v ∈ c.argLiterals declared es, Drawn c P v := by
  match es with
  | [] => nofun
  | e :: rest =>
    simp only [argLiterals, List.forall_mem_append]
    exact ⟨exprLiterals_drawn h.1, argLiterals_drawn h.2⟩
termination_by structural es

end

mutual

theorem stmtLiterals_drawn {s : Stmt} (h : s.FloatsAll P) (declared : List String) :
    ∀ v ∈ c.stmtLiterals declared s, Drawn c P v := by
  match s with
  | .expr e => exact exprLiterals_drawn (e := e) h
  | .assign target .set value span => exact exprLiterals_drawn (e := value) h
  | .assign target (.update op) value span =>
    simp only [stmtLiterals, List.forall_mem_append]
    exact ⟨nameLiterals_drawn target, exprLiterals_drawn (e := value) h⟩
  | .declare name type none span => exact List.forall_mem_singleton.2 (.literal (l := .null) trivial)
  | .declare name type (some value) span => exact exprLiterals_drawn (e := value) h
  | .branch condition yes none =>
    simp only [stmtLiterals, List.forall_mem_append]
    exact ⟨exprLiterals_drawn h.1, literals_drawn h.2 declared⟩
  | .branch condition yes (some no) =>
    simp only [stmtLiterals, List.forall_mem_append]
    exact ⟨⟨exprLiterals_drawn h.1, literals_drawn h.2.1 declared⟩, literals_drawn h.2.2 _⟩
  | .ret none => nofun
  | .ret (some value) => exact exprLiterals_drawn (e := value) h
termination_by structural s

theorem literals_drawn {ss : List Stmt} (h : BlockFloatsAll P ss) (declared : List String) :
    ∀ v ∈ c.literals declared ss, Drawn c P v := by
  match ss with
  | [] => nofun
  | s :: rest =>
    simp only [literals, List.forall_mem_append]
    exact ⟨stmtLiterals_drawn h.1 declared, literals_drawn h.2 _⟩
termination_by structural ss

end

end Compiler

end FactFold.Script
