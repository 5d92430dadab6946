import FactFold.Text.Hex
import FactFold.Yaml.Glyph

namespace FactFold.Yaml

inductive Gap where
  | blanks (cs : List Char)
  -- Line breaks. The first one is missing if it was escaped.
  | lines (first : Option Char) (more : List Char)

namespace Gap

def nothing : Gap :=
  blanks []

def isNothing : Gap → Bool
  | blanks [] => true
  | _ => false

def isBroken : Gap → Bool
  | blanks _ => false
  | lines _ _ => true

def add (c : Char) : Gap → Gap
  | blanks cs => if isBreak c then lines (some c) [] else blanks (c :: cs)
  | lines first more => if isBreak c then lines first (c :: more) else lines first more

def joined : Gap → List Char
  | blanks cs => cs
  | lines (some '\n') [] => [' ']
  | lines (some '\n') more => more
  | lines first more => more ++ first.toList

end Gap

def unescape? : Char → Option Char
  | '0' => some '\x00'
  | 'a' => some '\x07'
  | 'b' => some '\x08'
  | 't' => some '\t'
  | '\t' => some '\t'
  | 'n' => some '\n'
  | 'v' => some '\x0B'
  | 'f' => some '\x0C'
  | 'r' => some '\r'
  | 'e' => some '\x1B'
  | ' ' => some ' '
  | '"' => some '"'
  | '/' => some '/'
  | '\\' => some '\\'
  | 'N' => some '\x85'
  | '_' => some '\xA0'
  | 'L' => some '\u2028'
  | 'P' => some '\u2029'
  | _ => none

def escapeDigits : Char → Nat
  | 'x' => 2
  | 'u' => 4
  | 'U' => 8
  | _ => 0

def escape? : List Glyph → Option (Char × Nat)
  | [] => none
  | g :: rest =>
    match escapeDigits g.char with
    | 0 => (unescape? g.char).map fun c => (c, 1)
    | n => do
      let digits := (rest.take n).map Glyph.char
      let code ← Text.hexNumber? digits
      if digits.length = n ∧ code.isValidChar then some (Char.ofNat code, n + 1) else none

def quoted (double : Bool) : Nat → Gap → List Char → List Glyph → Option (String × List Glyph)
  | _, _, _, [] => none
  | skip + 1, gap, done, _ :: rest => quoted double skip gap done rest
  | 0, gap, done, g :: rest =>
    if isBlank g.char || isBreak g.char then quoted double 0 (gap.add g.char) done rest
    else if atDocumentMark (g :: rest) then none
    else if double && g.char == '\\' then
      if rest.head?.any fun e => isBreak e.char then quoted double 1 (.lines none []) (gap.joined ++ done) rest
      else
        match escape? rest with
        | some (c, skip) => quoted double skip .nothing (c :: gap.joined ++ done) rest
        | none => none
    else if g.char == (if double then '"' else '\'') then
      if !double && startsWith '\'' rest then quoted double 1 .nothing ('\'' :: gap.joined ++ done) rest
      else some (String.ofList (gap.joined ++ done).reverse, rest)
    else quoted double 0 .nothing (g.char :: gap.joined ++ done) rest
termination_by structural _ _ _ gs => gs

def isFlowIndicator (c : Char) : Bool :=
  c == ',' || c == '[' || c == ']' || c == '\x7b' || c == '\x7d'

def endsPlain (flow : Bool) (g : Glyph) (rest : List Glyph) : Bool :=
  g.char == ':' && endsWord rest || flow && isFlowIndicator g.char

/-- Whether a plain scalar ends at the given glyph because of what comes before: a gap, behind which
comments and documents may start and lines have to be indented. -/
def endsPlainAfter (flow : Bool) (indent : Nat) (gap : Gap) (g : Glyph) (rest : List Glyph) : Bool :=
  !gap.isNothing && (!flow && g.column < indent || atDocumentMark (g :: rest) || g.char == '#')

def plain (flow : Bool) (indent : Nat) :
    Gap → List Char → List Glyph → Option ((String × Gap) × List Glyph)
  | gap, done, [] => some ((String.ofList done.reverse, gap), [])
  | gap, done, g :: rest =>
    if isBlank g.char || isBreak g.char then
      if gap.isBroken && g.char == '\t' && g.column < indent then none
      else plain flow indent (gap.add g.char) done rest
    else if endsPlainAfter flow indent gap g rest then some ((String.ofList done.reverse, gap), g :: rest)
    else if flow && g.char == ':' && (rest.head?.any fun h => isFlowIndicator h.char || h.char == '?') then none
    else if endsPlain flow g rest then some ((String.ofList done.reverse, gap), g :: rest)
    else plain flow indent .nothing (g.char :: gap.joined ++ done) rest
termination_by structural _ _ gs => gs

end FactFold.Yaml
