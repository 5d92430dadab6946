import FactFold.Decimal.Reading
import FactFold.Script.Token
import FactFold.Text.Blank

/-!
A source is cut into pieces from the left. Each piece is the longest one that starts there: blanks or
a comment, which are dropped, a token, or text that is none of these, which ends the scan.
-/

namespace FactFold.Script

inductive Piece where
  | gap
  | token (t : Token)
  | unknown

def isGap (c : Char) : Bool :=
  c == ' ' || c == '\t' || c == '\r' || c == '\n' || c == '\x0c'

def isNameStart (c : Char) : Bool :=
  c.isAlpha || c == '_' || c == '$'

def isNamePart (c : Char) : Bool :=
  isNameStart c || c.isDigit

def run (p : Char → Bool) (cs : List Char) : Nat :=
  (cs.takeWhile p).length

/-- The body of a block comment: whether it is closed, and how many characters it takes, the closing
signs included. A star takes the character after it along, unless that closes the comment. -/
def commentBody : List Char → Nat → Bool × Nat
  | '*' :: '/' :: _, n => (true, n + 2)
  | '*' :: _ :: rest, n => commentBody rest (n + 2)
  | ['*'], n => (false, n)
  | _ :: rest, n => commentBody rest (n + 1)
  | [], n => (false, n)

def quotedBody (quote : Char) : List Char → Nat → Bool × Nat
  | '\\' :: c :: rest, n => if c = '\n' then (false, n) else quotedBody quote rest (n + 2)
  | ['\\'], n => (false, n)
  | c :: rest, n => if c = quote then (true, n + 1) else quotedBody quote rest (n + 1)
  | [], n => (false, n)

def unescape? : List Char → List Char → Option (List Char)
  | '\\' :: c :: rest, done =>
    match c with
    | 'n' => unescape? rest ('\n' :: done)
    | 'r' => unescape? rest ('\r' :: done)
    | 't' => unescape? rest ('\t' :: done)
    | '\\' => unescape? rest ('\\' :: done)
    | '"' => unescape? rest ('"' :: done)
    | '\'' => unescape? rest ('\'' :: done)
    | _ => none
  | ['\\'], _ => none
  | c :: rest, done => unescape? rest (c :: done)
  | [], done => some done.reverse

def quotedPiece (quote : Char) (rest : List Char) : Piece × Nat :=
  match quotedBody quote rest 0 with
  | (false, n) => (.unknown, n)
  | (true, n) =>
    match unescape? (rest.take (n - 1)) [] with
    | some content => (.token (.text (String.ofList content)), n)
    | none => (.unknown, n)

def fractionRun : List Char → Nat
  | '.' :: rest =>
    let n := run Char.isDigit rest
    if n = 0 then 0 else n + 1
  | _ => 0

def numberPiece (c : Char) (rest : List Char) : Piece × Nat :=
  let whole := run Char.isDigit rest
  let fraction := fractionRun (rest.drop whole)
  let exponent := Decimal.exponentRun (rest.drop (whole + fraction))
  let length := whole + fraction + exponent
  if fraction + exponent = 0 then
    let n := Decimal.digitsValue (c :: rest.take whole)
    (if n < UInt64.size / 2 then .token (.int (Int64.ofNat n)) else .unknown, whole)
  else
    match Decimal.read? (c :: rest.take length) with
    | some x => (.token (.float x), length)
    | none => (.unknown, length)

def namePiece (c : Char) (rest : List Char) : Piece × Nat :=
  let length := run isNamePart rest
  let spelling := String.ofList (c :: rest.take length)
  match Fixed.words.find? (·.spelling == spelling) with
  | some f => (.token (.fixed f), length)
  | none => (.token (.name spelling), length)

def pair? : Char → Char → Option Fixed
  | '=', '=' => some .equalEqual
  | '!', '=' => some .bangEqual
  | '<', '=' => some .lessEqual
  | '>', '=' => some .greaterEqual
  | '&', '&' => some .andAnd
  | '|', '|' => some .orOr
  | '+', '=' => some .plusEqual
  | '-', '=' => some .minusEqual
  | _, _ => none

def single? : Char → Option Fixed
  | '+' => some .plus
  | '-' => some .minus
  | '*' => some .star
  | '/' => some .slash
  | '%' => some .percent
  | '<' => some .less
  | '>' => some .greater
  | '!' => some .bang
  | '=' => some .equal
  | '?' => some .question
  | ':' => some .colon
  | '.' => some .dot
  | ',' => some .comma
  | ';' => some .semicolon
  | '(' => some .leftParen
  | ')' => some .rightParen
  | '\x7b' => some .leftBrace
  | '\x7d' => some .rightBrace
  | _ => none

def signPiece (c : Char) (rest : List Char) : Piece × Nat :=
  match rest.head?.bind (pair? c) with
  | some f => (.token (.fixed f), 1)
  | none =>
    match single? c with
    | some f => (.token (.fixed f), 0)
    | none => (.unknown, 0)

def slashPiece (rest : List Char) : Piece × Nat :=
  match rest with
  | '/' :: rest => (.gap, 1 + run (· != '\n') rest)
  | '*' :: rest =>
    match commentBody rest 0 with
    | (true, n) => (.gap, n + 1)
    | (false, n) => (.unknown, n + 1)
  | _ => signPiece '/' rest

def piece (c : Char) (rest : List Char) : Piece × Nat :=
  if isGap c then (.gap, run isGap rest)
  else if c = '/' then slashPiece rest
  else if c = '"' ∨ c = '\'' then quotedPiece c rest
  else if c.isDigit then numberPiece c rest
  else if isNameStart c then namePiece c rest
  else signPiece c rest

def lexemesFrom (start : Nat) (source : List Char) (done : List Lexeme) : Except LexError (List Lexeme) :=
  match source with
  | [] => .ok done.reverse
  | c :: rest =>
    let (kind, length) := piece c rest
    let text := c :: rest.take length
    let span : Span := ⟨start, start + Text.utf8Length text⟩
    match kind with
    | .gap => lexemesFrom span.stop (rest.drop length) done
    | .token t => lexemesFrom span.stop (rest.drop length) (⟨t, span⟩ :: done)
    | .unknown => .error ⟨String.ofList text, span⟩
termination_by source.length

def lexemes (source : String) : Except LexError (List Lexeme) :=
  lexemesFrom 0 source.toList []

example : lexemes "x/**/+'\\n'" =
    .ok [⟨.name "x", ⟨0, 1⟩⟩, ⟨.fixed .plus, ⟨5, 6⟩⟩, ⟨.text "\n", ⟨6, 10⟩⟩] := by
  cbv

end FactFold.Script
