import FactFold.Script.Cursor
import FactFold.Script.Lexer

/-!
Expressions are read by precedence: the conditional binds least, then come the binary operators in
six levels, all left associative, then signs, then fields and calls. Every node that deepens the tree
takes one level from the nesting that is left, and a source that needs more levels is refused. The
nesting left is also what bounds the recursion.
-/

namespace FactFold.Script

def Fixed.binary? : Fixed → Option (Nat × BinaryOp)
  | orOr => some (10, .or)
  | andAnd => some (20, .and)
  | equalEqual => some (30, .strict .eq)
  | bangEqual => some (30, .strict .ne)
  | less => some (35, .strict (.order .lt))
  | lessEqual => some (35, .strict (.order .le))
  | greater => some (35, .strict (.order .gt))
  | greaterEqual => some (35, .strict (.order .ge))
  | plus => some (40, .strict (.arith .add))
  | minus => some (40, .strict (.arith .sub))
  | star => some (50, .strict (.arith .mul))
  | slash => some (50, .strict (.arith .div))
  | percent => some (50, .strict (.arith .rem))
  | _ => none

def Token.binary? : Token → Option (Nat × BinaryOp)
  | fixed f => f.binary?
  | _ => none

def Token.sign? : Token → Option UnaryOp
  | fixed .minus => some .neg
  | fixed .bang => some .not
  | _ => none

def Token.literal? : Token → Option Literal
  | fixed .nullWord => some .null
  | fixed .trueWord => some (.bool true)
  | fixed .falseWord => some (.bool false)
  | int n => some (.int n)
  | float x => some (.float x)
  | text s => some (.text s)
  | _ => none

/-- The arguments of a call up to the closing parenthesis, a comma between them and perhaps one behind
the last. The list `bound` is as long as the lexemes left, of which every argument takes some. -/
def arguments (argument : Cursor → Except ParseError (Expr × Cursor)) :
    List Lexeme → Cursor → List Expr → Except ParseError (List Expr × Cursor)
  | bound, c, done =>
    if c.isAt .rightParen then .ok (done.reverse, c.next)
    else do
      let (e, c) ← argument c
      if c.isAt .rightParen then return ((e :: done).reverse, c.next)
      else
        let c ← c.expect .comma
        match bound with
        | [] => c.fail (.unexpected c.peek? .inExpression)
        | _ :: bound => arguments argument bound c (e :: done)

mutual

def expr (depth : Nat) (c : Cursor) : Except ParseError (Expr × Cursor) :=
  match depth with
  | 0 => c.fail .tooDeep
  | depth + 1 => do
    let start := c.here.start
    let (condition, c) ← operators depth 0 c
    if c.isAt .question then
      let (yes, c) ← expr depth c.next
      let c ← c.expect .colon
      let (no, c) ← expr depth c
      return (.conditional condition yes no (c.since start), c)
    else return (condition, c)
termination_by (depth, 0)

def operators (depth level : Nat) (c : Cursor) : Except ParseError (Expr × Cursor) := do
  let start := c.here.start
  let (left, c) ← operand depth c
  joined depth level start left c
termination_by (depth, 4)

def joined (depth level start : Nat) (left : Expr) (c : Cursor) : Except ParseError (Expr × Cursor) :=
  match c.peek?.bind Token.binary? with
  | none => .ok (left, c)
  | some (precedence, op) =>
    if precedence < level then .ok (left, c)
    else
      match depth with
      | 0 => c.fail .tooDeep
      | depth + 1 => do
        let (right, c) ← operators depth (precedence + 1) c.next
        joined depth level start (.binary op left right (c.since start)) c
termination_by (depth, 0)

def operand (depth : Nat) (c : Cursor) : Except ParseError (Expr × Cursor) :=
  match c.peek?.bind Token.sign? with
  | none => primary depth c
  | some op =>
    match depth with
    | 0 => c.fail .tooDeep
    | depth + 1 => do
      let start := c.here.start
      let (e, c) ← operand depth c.next
      return (.signed op e (c.since start), c)
termination_by (depth, 3)

def primary (depth : Nat) (c : Cursor) : Except ParseError (Expr × Cursor) := do
  let start := c.here.start
  let (e, c) ← atom depth c
  chain depth start e c
termination_by (depth, 2)

def chain (depth start : Nat) (e : Expr) (c : Cursor) : Except ParseError (Expr × Cursor) :=
  if c.isAt .dot then
    match depth with
    | 0 => c.fail .tooDeep
    | depth + 1 => do
      let (name, c) ← c.next.name .afterDot
      chain depth start (.field e name (c.since start)) c
  else if c.isAt .leftParen then
    match e.path?, depth with
    | none, _ => .error ⟨.notCallable, e.span⟩
    | some _, 0 => c.fail .tooDeep
    | some function, depth + 1 => do
      let (args, c) ← arguments (expr depth) c.rest c.next []
      chain depth start (.call function args (c.since start)) c
  else .ok (e, c)
termination_by (depth, 0)

def atom (depth : Nat) (c : Cursor) : Except ParseError (Expr × Cursor) :=
  match c.peek? with
  | some (.name n) => .ok (.name n (c.next.since c.here.start), c.next)
  | some (.fixed .leftParen) => do
    let start := c.here.start
    let (e, c) ← expr depth c.next
    let c ← c.expect .rightParen
    return (e.withSpan (c.since start), c)
  | found =>
    match found.bind Token.literal? with
    | some l => .ok (.literal l (c.next.since c.here.start), c.next)
    | none => c.fail (.unexpected found .inExpression)
termination_by (depth, 1)

end

def endOfStatement (c : Cursor) : Except ParseError Cursor :=
  if c.isAt .semicolon then .ok c.next
  else if c.peek?.isNone || c.isAt .rightBrace then .ok c
  else c.expect .semicolon

def initialValue (depth : Nat) (c : Cursor) : Except ParseError (Option Expr × Cursor) :=
  if c.isAt .equal then (expr depth c.next).map fun (e, c) => (some e, c) else .ok (none, c)

def declaration (depth start : Nat) (type : Option String) (place : Place) (c : Cursor) :
    Except ParseError (Stmt × Cursor) := do
  let (name, c) ← c.name place
  let (value, c) ← initialValue depth c
  let span := c.since start
  let c ← endOfStatement c
  return (.declare name type value span, c)

def assignment (depth start : Nat) (target : String) (op : AssignOp) (c : Cursor) :
    Except ParseError (Stmt × Cursor) := do
  let (value, c) ← expr depth c
  let span := c.since start
  let c ← endOfStatement c
  return (.assign target op value span, c)

def returned (depth : Nat) (c : Cursor) : Except ParseError (Stmt × Cursor) :=
  if c.peek?.isNone || c.isAt .semicolon || c.isAt .rightBrace then do
    let c ← endOfStatement c
    return (.ret none, c)
  else do
    let (e, c) ← expr depth c
    let c ← endOfStatement c
    return (.ret (some e), c)

def simpleStatement (depth : Nat) (c : Cursor) : Except ParseError (Stmt × Cursor) :=
  let start := c.here.start
  match c.ahead with
  | .fixed .varWord :: _ => declaration depth start none .afterVar c.next
  | .fixed .returnWord :: _ => returned depth c.next
  | .name target :: .fixed .equal :: _ => assignment depth start target .set c.next.next
  | .name target :: .fixed .plusEqual :: _ => assignment depth start target (.update .add) c.next.next
  | .name target :: .fixed .minusEqual :: _ => assignment depth start target (.update .sub) c.next.next
  | [.name type, .name _, .fixed .equal] => declaration depth start (some type) .asName c.next
  | [.name type, .name _, .fixed .semicolon] => declaration depth start (some type) .asName c.next
  | _ => do
    let (e, c) ← expr depth c
    let c ← endOfStatement c
    return (.expr e, c)

mutual

def statement (depth : Nat) (c : Cursor) : Except ParseError (Stmt × Cursor) :=
  if c.isAt .ifWord then do
    let c ← c.next.expect .leftParen
    let (condition, c) ← expr depth c
    let c ← c.expect .rightParen
    let (yes, c) ← body depth c
    if c.isAt .elseWord then
      let (no, c) ← body depth c.next
      return (.branch condition yes (some no), c)
    else return (.branch condition yes none, c)
  else simpleStatement depth c
termination_by (depth, 2, 0)

def body (depth : Nat) (c : Cursor) : Except ParseError (List Stmt × Cursor) :=
  match depth with
  | 0 => c.fail .tooDeep
  | depth + 1 =>
    if c.isAt .leftBrace then block depth c.rest c.next []
    else (statement depth c).map fun (s, c) => ([s], c)
termination_by (depth, 1, 0)

def block (depth : Nat) (bound : List Lexeme) (c : Cursor) (done : List Stmt) :
    Except ParseError (List Stmt × Cursor) :=
  if c.isAt .rightBrace then .ok (done.reverse, c.next)
  else
    match bound, c.peek? with
    | _, none => c.fail (.expected .rightBrace none)
    | [], found => c.fail (.expected .rightBrace found)
    | _ :: bound, some _ =>
      if c.isAt .semicolon then block depth bound c.next done
      else do
        let (s, c) ← statement depth c
        block depth bound c (s :: done)
termination_by (depth, 3, bound.length)

end

def statements (depth : Nat) : List Lexeme → Cursor → List Stmt → Except ParseError (List Stmt)
  | bound, c, done =>
    match bound, c.peek? with
    | _, none => .ok done.reverse
    | [], found => c.fail (.unexpected found .afterExpression)
    | _ :: bound, some _ =>
      if c.isAt .semicolon then statements depth bound c.next done
      else do
        let (s, c) ← statement depth c
        statements depth bound c (s :: done)

def parseScript (depth : Nat) (ls : List Lexeme) : Except ParseError (List Stmt) :=
  statements depth ls (.atStart ls) []

def parseExpr (depth : Nat) (ls : List Lexeme) : Except ParseError Expr := do
  let (e, c) ← expr depth (.atStart ls)
  match c.peek? with
  | none => return e
  | found => c.fail (.unexpected found .afterExpression)

example : parseScript 5 [⟨.fixed .ifWord, ⟨0, 2⟩⟩, ⟨.fixed .leftParen, ⟨3, 4⟩⟩, ⟨.name "a", ⟨4, 5⟩⟩,
    ⟨.fixed .rightParen, ⟨5, 6⟩⟩, ⟨.name "f", ⟨7, 8⟩⟩, ⟨.fixed .leftParen, ⟨8, 9⟩⟩, ⟨.fixed .minus, ⟨9, 10⟩⟩,
    ⟨.int 1, ⟨10, 11⟩⟩, ⟨.fixed .rightParen, ⟨11, 12⟩⟩, ⟨.fixed .semicolon, ⟨12, 13⟩⟩] =
    .ok [.branch (.name "a" ⟨4, 5⟩) [.expr (.call "f" [.literal (.int (-1)) ⟨9, 11⟩] ⟨7, 12⟩)] none] := by
  cbv

end FactFold.Script
