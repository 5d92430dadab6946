import FactFold.Yaml.BlockScalar
import FactFold.Yaml.FlowScalar
import FactFold.Yaml.Property

/-!
A key of a mapping is recognised by the colon behind it, which must come in the same line. Until then the
place of the key is remembered, and its token is put there when the colon is found.
-/

namespace FactFold.Yaml

structure KeyStart where
  before : Nat
  start : Glyph
  required : Bool

structure Scan where
  rest : List Glyph
  tokens : List Token := []
  count : Nat := 0
  indents : List Nat := []
  -- Where a key may have started: here, in each pair of brackets around, and last in the blocks around them all.
  key : Option KeyStart := none
  outer : List (Option KeyStart) := []
  keyAllowed : Bool := true

namespace Scan

def inFlow (s : Scan) : Bool :=
  !s.outer.isEmpty

def push (t : Token) (s : Scan) : Scan :=
  { s with tokens := t :: s.tokens, count := s.count + 1 }

def insert (before : Nat) (t : Token) (s : Scan) : Scan :=
  let newer := s.tokens.take (s.count - before)
  { s with tokens := newer ++ t :: s.tokens.drop newer.length, count := s.count + 1 }

def openBlock (column : Nat) (before : Nat) (t : Token) (s : Scan) : Scan :=
  if s.inFlow || s.indents.head?.any (column ≤ ·) then s
  else { s.insert before t with indents := column :: s.indents }

def closeBlocks (test : Nat → Bool) (s : Scan) : Scan :=
  if s.inFlow then s
  else
    let closed := s.indents.takeWhile test
    { s with
      indents := s.indents.drop closed.length
      tokens := closed.map (fun _ => .blockEnd) ++ s.tokens
      count := s.count + closed.length }

def dropKey (s : Scan) : Option Scan :=
  if s.key.any (·.required) then none else some { s with key := none }

def startKey (g : Glyph) (s : Scan) : Option Scan :=
  if s.keyAllowed then do
    let s ← s.dropKey
    let required := !s.inFlow && s.indents.head? == some g.column
    return { s with key := some ⟨s.count, g, required⟩ }
  else some s

def isStale (g : Glyph) (k : KeyStart) : Bool :=
  k.start.line < g.line || k.start.index + 1024 < g.index

def ifFresh (g : Glyph) (key : Option KeyStart) : Option KeyStart :=
  key.filter fun k => !isStale g k

def dropStale (g : Glyph) (s : Scan) : Option Scan :=
  let stale := fun k => isStale g k && k.required
  if s.key.any stale || s.outer.any (·.any stale) then none
  else some { s with key := ifFresh g s.key, outer := s.outer.map (ifFresh g) }

def separator (t : Token) (keyAllowed : Bool) (rest : List Glyph) (s : Scan) : Option Scan := do
  let s ← s.dropKey
  return { s.push t with keyAllowed, rest }

def keyPart (g : Glyph) (read : Option (Token × List Glyph)) (s : Scan) : Option Scan := do
  let s ← s.startKey g
  let (t, rest) ← read
  return { s.push t with keyAllowed := false, rest }

def document (read : Option (Token × List Glyph)) (s : Scan) : Option Scan := do
  let (t, rest) ← read
  (s.closeBlocks fun _ => true).separator t false rest

def openBracket (g : Glyph) (t : Token) (rest : List Glyph) (s : Scan) : Option Scan := do
  let s ← s.startKey g
  return { s.push t with keyAllowed := true, rest, key := none, outer := s.key :: s.outer }

def closeBracket (t : Token) (rest : List Glyph) (s : Scan) : Option Scan := do
  let s ← s.dropKey
  let (key, outer) := match s.outer with
    | [] => (s.key, [])
    | key :: outer => (key, outer)
  return { s.push t with keyAllowed := false, rest, key, outer }

def blockIndicator (g : Glyph) (block t : Token) (keyAllowed : Bool) (rest : List Glyph) (s : Scan) :
    Option Scan :=
  if s.inFlow then s.separator t keyAllowed rest
  else if s.keyAllowed then (s.openBlock g.column s.count block).separator t keyAllowed rest
  else none

def colon (g : Glyph) (rest : List Glyph) (s : Scan) : Option Scan :=
  match s.key with
  | some k =>
    let s := (s.insert k.before .key).openBlock k.start.column k.before .blockMappingStart
    some { s.push .value with key := none, keyAllowed := false, rest }
  | none =>
    if s.inFlow then some { s.push .value with keyAllowed := false, rest }
    else if s.keyAllowed then
      some { (s.openBlock g.column s.count .blockMappingStart).push .value with keyAllowed := true, rest }
    else none

def blockScalar (literal : Bool) (rest : List Glyph) (s : Scan) : Option Scan := do
  let s ← s.dropKey
  let (t, rest) ← blockScalar? literal s.indents rest
  return { s.push t with keyAllowed := true, rest }

def quotedScalar (g : Glyph) (double : Bool) (rest : List Glyph) (s : Scan) : Option Scan :=
  s.keyPart g ((quoted double 0 .nothing [] rest).map fun (text, rest) => (.scalar text .other, rest))

def plainScalar (g : Glyph) (rest : List Glyph) (s : Scan) : Option Scan := do
  let s ← s.startKey g
  let indent := match s.indents with
    | [] => 0
    | n :: _ => n + 1
  let ((text, gap), rest) ← plain s.inFlow indent .nothing [] (g :: rest)
  return { s.push (.scalar text .plain) with keyAllowed := gap.isBroken, rest }

def startsPlain (flow : Bool) (g : Glyph) : Bool :=
  g.char == '-' || !flow && (g.char == '?' || g.char == ':')
    || !isBlank g.char && !(['?', ':', '|', '>', '#', '%', '@', '\x60'].contains g.char)

def token (g : Glyph) (rest : List Glyph) (s : Scan) : Option Scan :=
  if g.column == 0 && g.char == '%' then s.document (directive? rest)
  else if isMark '-' (g :: rest) then s.document (some (.documentStart, rest.drop 2))
  else if isMark '.' (g :: rest) then s.document (some (.documentEnd, rest.drop 2))
  else
    match g.char with
    | '[' => s.openBracket g .flowSequenceStart rest
    | '\x7b' => s.openBracket g .flowMappingStart rest
    | ']' => s.closeBracket .flowSequenceEnd rest
    | '\x7d' => s.closeBracket .flowMappingEnd rest
    | ',' => s.separator .flowEntry true rest
    | '*' => s.keyPart g ((anchorName? rest).map fun (name, rest) => (.reference name, rest))
    | '&' => s.keyPart g ((anchorName? rest).map fun (name, rest) => (.anchor name, rest))
    | '!' => s.keyPart g (tag? s.inFlow rest)
    | '\'' => s.quotedScalar g false rest
    | '"' => s.quotedScalar g true rest
    | c =>
      if c == '-' && endsWord rest then s.blockIndicator g .blockSequenceStart .blockEntry true rest
      else if c == '?' && (s.inFlow || endsWord rest) then
        s.blockIndicator g .blockMappingStart .key (!s.inFlow) rest
      else if c == ':' && (s.inFlow || endsWord rest) then s.colon g rest
      else if c == '|' && !s.inFlow then s.blockScalar true rest
      else if c == '>' && !s.inFlow then s.blockScalar false rest
      else if startsPlain s.inFlow g then s.plainScalar g rest
      else none

/-- Passes over blanks, byte order marks, comments and line breaks, and tells whether a key may start behind
them. In a block a new line may start a key, and no tab may stand where a key may start. -/
def passBlanks (flow : Bool) : (keyAllowed comment : Bool) → List Glyph → Bool × List Glyph
  | keyAllowed, _, [] => (keyAllowed, [])
  | keyAllowed, comment, g :: rest =>
    if isBreak g.char then passBlanks flow (keyAllowed || !flow) false rest
    else if comment then passBlanks flow keyAllowed true rest
    else if g.isLeadingMark then passBlanks flow keyAllowed false rest
    else if g.char == ' ' || g.char == '\t' && (flow || !keyAllowed) then passBlanks flow keyAllowed false rest
    else if g.char == '#' then passBlanks flow keyAllowed true rest
    else (keyAllowed, g :: rest)
termination_by structural _ _ gs => gs

def all? : (bound : List Glyph) → Scan → Option (List Token)
  | bound, s =>
    let (keyAllowed, rest) := passBlanks s.inFlow s.keyAllowed false s.rest
    match rest with
    | [] => do
      let s ← (s.closeBlocks fun _ => true).dropKey
      return s.tokens.reverse
    | g :: rest =>
      match bound with
      | [] => none
      | _ :: bound => do
        let s ← dropStale g { s with keyAllowed }
        let s ← (s.closeBlocks (g.column < ·)).token g rest
        all? bound s
termination_by structural bound => bound

end Scan

def tokens? (s : String) : Option (List Token) := do
  let gs ← glyphs? s
  Scan.all? gs { rest := gs }

end FactFold.Yaml
