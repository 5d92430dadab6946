import FactFold.Proofs.Script.Semicolons

/-!
The parser, with the tree of a sign and its operand left open. The parser itself is the one that merges a minus
into the number behind it, and another one keeps every sign as a node of the tree. Where a map of trees takes the
signs of such a parser to those of the parser, it takes all that is read: the same sources are refused with the
same errors, and what is accepted is the image of the other tree.
-/

namespace FactFold.Script

abbrev Signs :=
  UnaryOp → Expr → Span → Expr

namespace Signs

def merged : Signs :=
  Expr.signed

def kept : Signs :=
  Expr.unary

/-! ## The parsers -/

section

variable (sign : Signs)

mutual

def expr (depth : Nat) (c : Cursor) : Except ParseError (Expr × Cursor) :=
  match depth with
  | 0 => c.fail .tooDeep
  | depth + 1 => do
    let start := c.here.start
    let (condition, c) ← operators depth 0 c
    if c.isAt .question then
      let (yes, c) ← expr depth c.next
      let c ← c.expect .colon
      let (no, c) ← expr depth c
      return (.conditional condition yes no (c.since start), c)
    else return (condition, c)
termination_by (depth, 0)

def operators (depth level : Nat) (c : Cursor) : Except ParseError (Expr × Cursor) := do
  let start := c.here.start
  let (left, c) ← operand depth c
  joined depth level start left c
termination_by (depth, 4)

def joined (depth level start : Nat) (left : Expr) (c : Cursor) : Except ParseError (Expr × Cursor) :=
  match c.peek?.bind Token.binary? with
  | none => .ok (left, c)
  | some (precedence, op) =>
    if precedence < level then .ok (left, c)
    else
      match depth with
      | 0 => c.fail .tooDeep
      | depth + 1 => do
        let (right, c) ← operators depth (precedence + 1) c.next
        joined depth level start (.binary op left right (c.since start)) c
termination_by (depth, 0)

def operand (depth : Nat) (c : Cursor) : Except ParseError (Expr × Cursor) :=
  match c.peek?.bind Token.sign? with
  | none => primary depth c
  | some op =>
    match depth with
    | 0 => c.fail .tooDeep
    | depth + 1 => do
      let start := c.here.start
      let (e, c) ← operand depth c.next
      return (sign op e (c.since start), c)
termination_by (depth, 3)

def primary (depth : Nat) (c : Cursor) : Except ParseError (Expr × Cursor) := do
  let start := c.here.start
  let (e, c) ← atom depth c
  chain depth start e c
termination_by (depth, 2)

def chain (depth start : Nat) (e : Expr) (c : Cursor) : Except ParseError (Expr × Cursor) :=
  if c.isAt .dot then
    match depth with
    | 0 => c.fail .tooDeep
    | depth + 1 => do
      let (name, c) ← c.next.name .afterDot
      chain depth start (.field e name (c.since start)) c
  else if c.isAt .leftParen then
    match e.path?, depth with
    | none, _ => .error ⟨.notCallable, e.span⟩
    | some _, 0 => c.fail .tooDeep
    | some function, depth + 1 => do
      let (args, c) ← arguments (expr depth) c.rest c.next []
      chain depth start (.call function args (c.since start)) c
  else .ok (e, c)
termination_by (depth, 0)

def atom (depth : Nat) (c : Cursor) : Except ParseError (Expr × Cursor) :=
  if c.isAt .leftParen then do
    let start := c.here.start
    let (e, c) ← expr depth c.next
    let c ← c.expect .rightParen
    return (e.withSpan (c.since start), c)
  else FactFold.Script.atom depth c
termination_by (depth, 1)

end

def initialValue (depth : Nat) (c : Cursor) : Except ParseError (Option Expr × Cursor) :=
  if c.isAt .equal then (sign.expr depth c.next).map fun (e, c) => (some e, c) else .ok (none, c)

def declaration (depth start : Nat) (type : Option String) (place : Place) (c : Cursor) :
    Except ParseError (Stmt × Cursor) := do
  let (name, c) ← c.name place
  let (value, c) ← sign.initialValue depth c
  let span := c.since start
  let c ← endOfStatement c
  return (.declare name type value span, c)

def assignment (depth start : Nat) (target : String) (op : AssignOp) (c : Cursor) :
    Except ParseError (Stmt × Cursor) := do
  let (value, c) ← sign.expr depth c
  let span := c.since start
  let c ← endOfStatement c
  return (.assign target op value span, c)

def returned (depth : Nat) (c : Cursor) : Except ParseError (Stmt × Cursor) :=
  if c.peek?.isNone || c.isAt .semicolon || c.isAt .rightBrace then do
    let c ← endOfStatement c
    return (.ret none, c)
  else do
    let (e, c) ← sign.expr depth c
    let c ← endOfStatement c
    return (.ret (some e), c)

def simpleStatement (depth : Nat) (c : Cursor) : Except ParseError (Stmt × Cursor) :=
  match form c.ahead with
  | .declare => sign.declaration depth c.here.start none .afterVar c.next
  | .ret => sign.returned depth c.next
  | .assign target op => sign.assignment depth c.here.start target op c.next.next
  | .typed type => sign.declaration depth c.here.start (some type) .asName c.next
  | .expr => do
    let (e, c) ← sign.expr depth c
    let c ← endOfStatement c
    return (.expr e, c)

mutual

def statement (depth : Nat) (c : Cursor) : Except ParseError (Stmt × Cursor) :=
  if c.isAt .ifWord then do
    let c ← c.next.expect .leftParen
    let (condition, c) ← sign.expr depth c
    let c ← c.expect .rightParen
    let (yes, c) ← body depth c
    if c.isAt .elseWord then
      let (no, c) ← body depth c.next
      return (.branch condition yes (some no), c)
    else return (.branch condition yes none, c)
  else sign.simpleStatement depth c
termination_by (depth, 2, 0)

def body (depth : Nat) (c : Cursor) : Except ParseError (List Stmt × Cursor) :=
  match depth with
  | 0 => c.fail .tooDeep
  | depth + 1 =>
    if c.isAt .leftBrace then block depth c.rest c.next []
    else (statement depth c).map fun (s, c) => ([s], c)
termination_by (depth, 1, 0)

def block (depth : Nat) (bound : List Lexeme) (c : Cursor) (done : List Stmt) :
    Except ParseError (List Stmt × Cursor) :=
  if c.isAt .rightBrace then .ok (done.reverse, c.next)
  else
    match bound, c.peek? with
    | _, none => c.fail (.expected .rightBrace none)
    | [], found => c.fail (.expected .rightBrace found)
    | _ :: bound, some _ =>
      if c.isAt .semicolon then block depth bound c.next done
      else do
        let (s, c) ← statement depth c
        block depth bound c (s :: done)
termination_by (depth, 3, bound.length)

end

def statements (depth : Nat) : List Lexeme → Cursor → List Stmt → Except ParseError (List Stmt)
  | bound, c, done =>
    match bound, c.peek? with
    | _, none => .ok done.reverse
    | [], found => c.fail (.unexpected found .afterExpression)
    | _ :: bound, some _ =>
      if c.isAt .semicolon then statements depth bound c.next done
      else do
        let (s, c) ← sign.statement depth c
        statements depth bound c (s :: done)

def parseScript (depth : Nat) (ls : List Lexeme) : Except ParseError (List Stmt) :=
  sign.statements depth ls (.atStart ls) []

def parseExpr (depth : Nat) (ls : List Lexeme) : Except ParseError Expr := do
  let (e, c) ← sign.expr depth (.atStart ls)
  match c.peek? with
  | none => return e
  | found => c.fail (.unexpected found .afterExpression)

end

end Signs

/-! ## Maps of trees -/

mutual

def Stmt.mapExprs (f : Expr → Expr) : Stmt → Stmt
  | .expr e => .expr (f e)
  | .assign target op value span => .assign target op (f value) span
  | .declare name type value span => .declare name type (value.map f) span
  | .branch condition yes none => .branch (f condition) (mapBlock f yes) none
  | .branch condition yes (some no) => .branch (f condition) (mapBlock f yes) (some (mapBlock f no))
  | .ret value => .ret (value.map f)
termination_by structural s => s

def mapBlock (f : Expr → Expr) : List Stmt → List Stmt
  | [] => []
  | s :: rest => s.mapExprs f :: mapBlock f rest
termination_by structural ss => ss

end

theorem mapBlock_eq (f : Expr → Expr) (ss : List Stmt) : mapBlock f ss = ss.map (Stmt.mapExprs f) := by
  induction ss with
  | nil => rfl
  | cons s rest ih => rw [mapBlock, ih, List.map_cons]

mutual

theorem Stmt.mapExprs_id (s : Stmt) : s.mapExprs id = s := by
  match s with
  | .expr e => rfl
  | .assign target op value span => rfl
  | .declare name type value span => rw [Stmt.mapExprs, Option.map_id, id]
  | .branch condition yes none => rw [Stmt.mapExprs, mapBlock_id yes, id]
  | .branch condition yes (some no) => rw [Stmt.mapExprs, mapBlock_id yes, mapBlock_id no, id]
  | .ret value => rw [Stmt.mapExprs, Option.map_id, id]
termination_by structural s

theorem mapBlock_id (ss : List Stmt) : mapBlock id ss = ss := by
  match ss with
  | [] => rfl
  | s :: rest => rw [mapBlock, s.mapExprs_id, mapBlock_id rest]
termination_by structural ss

end

/-- The map takes the trees that are read with these signs to the trees of the parser. -/
structure Signs.Turns (sign : Signs) (f : Expr → Expr) : Prop where
  path (e : Expr) : (f e).path? = e.path?
  span (e : Expr) : (f e).span = e.span
  withSpan (e : Expr) (span : Span) : f (e.withSpan span) = (f e).withSpan span
  literal (l : Literal) (span : Span) : f (.literal l span) = .literal l span
  name (n : String) (span : Span) : f (.name n span) = .name n span
  field (e : Expr) (name : String) (span : Span) : f (.field e name span) = .field (f e) name span
  call (function : String) (args : List Expr) (span : Span) :
    f (.call function args span) = .call function (args.map f) span
  sign (op : UnaryOp) (e : Expr) (span : Span) : f (sign op e span) = .signed op (f e) span
  binary (op : BinaryOp) (left right : Expr) (span : Span) :
    f (.binary op left right span) = .binary op (f left) (f right) span
  conditional (condition yes no : Expr) (span : Span) :
    f (.conditional condition yes no span) = .conditional (f condition) (f yes) (f no) span

/-! ## Mapped results -/

def mapTree {α β : Type} (f : α → β) (x : Except ParseError (α × Cursor)) : Except ParseError (β × Cursor) :=
  x.map (Prod.map f id)

section

variable {α β γ δ : Type} {g : γ → δ}

theorem mapTree_ok (f : α → β) (a : α) (c : Cursor) : mapTree f (.ok (a, c)) = .ok (f a, c) :=
  rfl

theorem bind_mapped {x : Except ParseError α} {k : α → Except ParseError δ} {k' : α → Except ParseError γ}
    (h : ∀ a, k a = (k' a).map g) : x >>= k = (x >>= k').map g := by
  cases x with
  | ok a => exact h a
  | error e => rfl

theorem mapTree_bind {f : α → β} {x : Except ParseError (α × Cursor)} {k : β × Cursor → Except ParseError δ}
    {k' : α × Cursor → Except ParseError γ} (h : ∀ a c, k (f a, c) = (k' (a, c)).map g) :
    mapTree f x >>= k = (x >>= k').map g := by
  cases x with
  | ok a => exact h a.1 a.2
  | error e => rfl

end

/-! ## Expressions -/

theorem arguments_turned (f : Expr → Expr) (argument : Cursor → Except ParseError (Expr × Cursor))
    (bound : List Lexeme) (c : Cursor) (done : List Expr) :
    arguments (fun c => mapTree f (argument c)) bound c (done.map f) =
      mapTree (List.map f) (arguments argument bound c done) := by
  unfold arguments
  split
  · simp [mapTree, Except.map]
  · refine mapTree_bind fun e c₁ => ?_
    dsimp only
    split
    · simp [pure, Except.pure, Except.map]
    · refine bind_mapped fun c₂ => ?_
      cases bound with
      | nil => rfl
      | cons l bound => exact arguments_turned f argument bound c₂ (e :: done)
termination_by structural bound

mutual

theorem expr_turned {sign : Signs} {f : Expr → Expr} (h : sign.Turns f) (depth : Nat) (c : Cursor) :
    expr depth c = mapTree f (sign.expr depth c) := by
  cases depth with
  | zero =>
    rw [expr, Signs.expr]
    rfl
  | succ depth =>
    rw [expr, Signs.expr, operators_turned h depth 0 c]
    refine mapTree_bind fun condition c₁ => ?_
    dsimp only
    split
    · rw [expr_turned h depth c₁.next]
      refine mapTree_bind fun yes c₂ => ?_
      refine bind_mapped fun c₃ => ?_
      rw [expr_turned h depth c₃]
      refine mapTree_bind fun no c₄ => ?_
      dsimp only
      rw [← h.conditional]
      rfl
    · rfl
termination_by (depth, 0)

theorem operators_turned {sign : Signs} {f : Expr → Expr} (h : sign.Turns f) (depth level : Nat) (c : Cursor) :
    operators depth level c = mapTree f (sign.operators depth level c) := by
  rw [operators, Signs.operators, operand_turned h depth c]
  refine mapTree_bind fun left c₁ => ?_
  exact joined_turned h depth level _ left c₁
termination_by (depth, 4)

theorem joined_turned {sign : Signs} {f : Expr → Expr} (h : sign.Turns f) (depth level start : Nat) (left : Expr)
    (c : Cursor) : joined depth level start (f left) c = mapTree f (sign.joined depth level start left c) := by
  rw [joined.eq_def, Signs.joined.eq_def]
  cases c.peek?.bind Token.binary? with
  | none => rfl
  | some precedence =>
    obtain ⟨precedence, op⟩ := precedence
    dsimp only
    split
    · rfl
    · cases depth with
      | zero => rfl
      | succ depth =>
        dsimp only
        rw [operators_turned h depth _ c.next]
        refine mapTree_bind fun right c₁ => ?_
        dsimp only
        rw [← h.binary]
        exact joined_turned h depth level start _ c₁
termination_by (depth, 0)

theorem operand_turned {sign : Signs} {f : Expr → Expr} (h : sign.Turns f) (depth : Nat) (c : Cursor) :
    operand depth c = mapTree f (sign.operand depth c) := by
  rw [operand.eq_def, Signs.operand.eq_def]
  cases c.peek?.bind Token.sign? with
  | none => exact primary_turned h depth c
  | some op =>
    cases depth with
    | zero => rfl
    | succ depth =>
      dsimp only
      rw [operand_turned h depth c.next]
      refine mapTree_bind fun e c₁ => ?_
      dsimp only
      rw [← h.sign]
      rfl
termination_by (depth, 3)

theorem primary_turned {sign : Signs} {f : Expr → Expr} (h : sign.Turns f) (depth : Nat) (c : Cursor) :
    primary depth c = mapTree f (sign.primary depth c) := by
  rw [primary, Signs.primary, atom_turned h depth c]
  refine mapTree_bind fun e c₁ => ?_
  exact chain_turned h depth _ e c₁
termination_by (depth, 2)

theorem chain_turned {sign : Signs} {f : Expr → Expr} (h : sign.Turns f) (depth start : Nat) (e : Expr)
    (c : Cursor) : chain depth start (f e) c = mapTree f (sign.chain depth start e c) := by
  rw [chain.eq_def, Signs.chain.eq_def, h.path, h.span]
  split
  · cases depth with
    | zero => rfl
    | succ depth =>
      refine bind_mapped ?_
      rintro ⟨name, c₁⟩
      dsimp only
      rw [← h.field]
      exact chain_turned h depth start _ c₁
  · split
    · cases e.path? with
      | none => rfl
      | some function =>
        cases depth with
        | zero => rfl
        | succ depth =>
          have hargs := arguments_turned f (sign.expr depth) c.rest c.next []
          rw [List.map_nil, ← funext (expr_turned h depth)] at hargs
          dsimp only
          rw [hargs]
          refine mapTree_bind fun args c₁ => ?_
          dsimp only
          rw [← h.call]
          exact chain_turned h depth start _ c₁
    · rfl
termination_by (depth, 0)

theorem atom_turned {sign : Signs} {f : Expr → Expr} (h : sign.Turns f) (depth : Nat) (c : Cursor) :
    atom depth c = mapTree f (sign.atom depth c) := by
  rw [Signs.atom]
  split
  · rename_i hparen
    rw [atom, Cursor.isAt_iff.1 hparen]
    dsimp only
    rw [expr_turned h depth c.next]
    refine mapTree_bind fun e c₁ => ?_
    refine bind_mapped fun c₂ => ?_
    dsimp only
    rw [← h.withSpan]
    rfl
  · rename_i hparen
    rw [atom]
    split
    · rw [mapTree_ok, h.name]
    · rename_i hpeek
      exact absurd (Cursor.isAt_iff.2 hpeek) hparen
    · split
      · rw [mapTree_ok, h.literal]
      · rfl
termination_by (depth, 1)

end

theorem parseExpr_turned {sign : Signs} {f : Expr → Expr} (h : sign.Turns f) (depth : Nat) (ls : List Lexeme) :
    parseExpr depth ls = (sign.parseExpr depth ls).map f := by
  rw [parseExpr, Signs.parseExpr, expr_turned h depth (.atStart ls)]
  refine mapTree_bind fun e c => ?_
  dsimp only
  cases c.peek? with
  | none => rfl
  | some t => rfl

/-! ## Statements -/

section

variable {sign : Signs} {f : Expr → Expr} (h : sign.Turns f) (depth : Nat)

include h

theorem initialValue_turned (c : Cursor) :
    initialValue depth c = mapTree (Option.map f) (sign.initialValue depth c) := by
  unfold initialValue Signs.initialValue
  split
  · rw [expr_turned h depth c.next]
    cases sign.expr depth c.next <;> rfl
  · rfl

theorem declaration_turned (start : Nat) (type : Option String) (place : Place) (c : Cursor) :
    declaration depth start type place c = mapTree (Stmt.mapExprs f) (sign.declaration depth start type place c) := by
  refine bind_mapped ?_
  rintro ⟨name, c₁⟩
  dsimp only
  rw [initialValue_turned h depth c₁]
  refine mapTree_bind fun value c₂ => ?_
  exact bind_mapped fun c₃ => rfl

theorem assignment_turned (start : Nat) (target : String) (op : AssignOp) (c : Cursor) :
    assignment depth start target op c = mapTree (Stmt.mapExprs f) (sign.assignment depth start target op c) := by
  rw [assignment, Signs.assignment, expr_turned h depth c]
  refine mapTree_bind fun value c₁ => ?_
  exact bind_mapped fun c₂ => rfl

theorem returned_turned (c : Cursor) :
    returned depth c = mapTree (Stmt.mapExprs f) (sign.returned depth c) := by
  unfold returned Signs.returned
  split
  · exact bind_mapped fun c₁ => rfl
  · rw [expr_turned h depth c]
    refine mapTree_bind fun e c₁ => ?_
    exact bind_mapped fun c₂ => rfl

theorem simpleStatement_turned (c : Cursor) :
    simpleStatement depth c = mapTree (Stmt.mapExprs f) (sign.simpleStatement depth c) := by
  rw [simpleStatement_form, Signs.simpleStatement]
  cases form c.ahead with
  | declare => exact declaration_turned h depth ..
  | ret => exact returned_turned h depth _
  | assign target op => exact assignment_turned h depth ..
  | typed type => exact declaration_turned h depth ..
  | expr =>
    dsimp only
    rw [expr_turned h depth c]
    exact mapTree_bind fun e c₁ => bind_mapped fun c₂ => rfl

end

mutual

theorem statement_turned {sign : Signs} {f : Expr → Expr} (h : sign.Turns f) (depth : Nat) (c : Cursor) :
    statement depth c = mapTree (Stmt.mapExprs f) (sign.statement depth c) := by
  rw [statement, Signs.statement]
  split
  · refine bind_mapped fun c₁ => ?_
    rw [expr_turned h depth c₁]
    refine mapTree_bind fun condition c₂ => ?_
    refine bind_mapped fun c₃ => ?_
    rw [body_turned h depth c₃]
    refine mapTree_bind fun yes c₄ => ?_
    dsimp only
    split
    · rw [body_turned h depth c₄.next]
      refine mapTree_bind fun no c₅ => ?_
      rfl
    · rfl
  · exact simpleStatement_turned h depth c
termination_by (depth, 2, 0)

theorem body_turned {sign : Signs} {f : Expr → Expr} (h : sign.Turns f) (depth : Nat) (c : Cursor) :
    body depth c = mapTree (mapBlock f) (sign.body depth c) := by
  cases depth with
  | zero =>
    rw [body, Signs.body]
    rfl
  | succ depth =>
    rw [body, Signs.body]
    split
    · exact block_turned h depth _ c.next []
    · rw [statement_turned h depth c]
      cases sign.statement depth c <;> rfl
termination_by (depth, 1, 0)

theorem block_turned {sign : Signs} {f : Expr → Expr} (h : sign.Turns f) (depth : Nat) (bound : List Lexeme)
    (c : Cursor) (done : List Stmt) :
    block depth bound c (mapBlock f done) = mapTree (mapBlock f) (sign.block depth bound c done) := by
  rw [block.eq_def, Signs.block.eq_def]
  split
  · simp [mapTree, Except.map, mapBlock_eq]
  · cases c.peek? with
    | none => cases bound <;> rfl
    | some t =>
      cases bound with
      | nil => rfl
      | cons l bound =>
        dsimp only
        split
        · exact block_turned h depth bound c.next done
        · rw [statement_turned h depth c]
          exact mapTree_bind fun s c₁ => block_turned h depth bound c₁ (s :: done)
termination_by (depth, 3, bound.length)

end

theorem statements_turned {sign : Signs} {f : Expr → Expr} (h : sign.Turns f) (depth : Nat) (bound : List Lexeme)
    (c : Cursor) (done : List Stmt) :
    statements depth bound c (mapBlock f done) = (sign.statements depth bound c done).map (mapBlock f) := by
  rw [statements.eq_def, Signs.statements.eq_def]
  dsimp only
  cases c.peek? with
  | none => cases bound <;> simp [Except.map, mapBlock_eq]
  | some t =>
    cases bound with
    | nil => rfl
    | cons l bound =>
      dsimp only
      split
      · exact statements_turned h depth bound c.next done
      · rw [statement_turned h depth c]
        exact mapTree_bind fun s c₁ => statements_turned h depth bound c₁ (s :: done)
termination_by bound.length

theorem parseScript_turned {sign : Signs} {f : Expr → Expr} (h : sign.Turns f) (depth : Nat) (ls : List Lexeme) :
    parseScript depth ls = (sign.parseScript depth ls).map (mapBlock f) :=
  statements_turned h depth ls (.atStart ls) []

/-! ## The parser itself -/

theorem Signs.merged_turns : merged.Turns id := by
  constructor <;> intros <;> simp [merged]

theorem Signs.merged_parseExpr (depth : Nat) (ls : List Lexeme) :
    merged.parseExpr depth ls = FactFold.Script.parseExpr depth ls := by
  rw [parseExpr_turned merged_turns, Except.map_id, id]

theorem Signs.merged_parseScript (depth : Nat) (ls : List Lexeme) :
    merged.parseScript depth ls = FactFold.Script.parseScript depth ls := by
  rw [parseScript_turned merged_turns, funext mapBlock_id]
  exact Except.map_id ▸ rfl

end FactFold.Script
