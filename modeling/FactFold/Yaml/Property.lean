import FactFold.Text.Hex
import FactFold.Yaml.Token
import FactFold.Yaml.Glyph

namespace FactFold.Yaml

def endsAnchor (gs : List Glyph) : Bool :=
  endsWord gs || gs.head?.any fun g => ['?', ':', ',', ']', '\x7d', '%', '@', '\x60'].contains g.char

def anchorName? (gs : List Glyph) : Option (String × List Glyph) :=
  match run isWordChar gs with
  | ([], _) => none
  | (name, rest) => if endsAnchor rest then some (String.ofList name, rest) else none

def octet? : List Glyph → Option UInt8
  | g :: a :: b :: _ => if g.char == '%' then (Text.hexNumber? [a.char, b.char]).map UInt8.ofNat else none
  | _ => none

def octetWidth? (b : UInt8) : Option Nat :=
  if b < 0x80 then some 1
  else if b / 0x20 = 6 then some 2
  else if b / 0x10 = 14 then some 3
  else if b / 0x08 = 30 then some 4
  else none

def continued? : Nat → List Glyph → Option (List UInt8)
  | 0, _ => some []
  | count + 1, gs => do
    let b ← octet? gs
    if b / 0x40 = 2 then return b :: (← continued? count (gs.drop 3)) else none

def encodedChar? (gs : List Glyph) : Option (List UInt8) := do
  let b ← octet? gs
  return b :: (← continued? ((← octetWidth? b) - 1) (gs.drop 3))

def isTagChar (verbatim : Bool) (c : Char) : Bool :=
  isWordChar c || ";/?:@&=+$.%!~*'()".contains c || verbatim && ",[]".contains c

/-- The bytes of a tag, the ones read before in reverse. The first `skip` glyphs are passed over. -/
def tagBytes? (verbatim : Bool) : Nat → List UInt8 → List Glyph → Option (List UInt8 × List Glyph)
  | _, done, [] => some (done.reverse, [])
  | skip + 1, done, _ :: rest => tagBytes? verbatim skip done rest
  | 0, done, g :: rest =>
    if g.char == '%' then
      match encodedChar? (g :: rest) with
      | some bytes => tagBytes? verbatim (3 * bytes.length - 1) (bytes.reverse ++ done) rest
      | none => none
    else if isTagChar verbatim g.char then tagBytes? verbatim 0 (g.char.toUInt8 :: done) rest
    else some (done.reverse, g :: rest)
termination_by structural _ _ gs => gs

def tagPart? (verbatim : Bool) (gs : List Glyph) : Option (Tag × List Glyph) :=
  match tagBytes? verbatim 0 [] gs with
  | some ([], _) => none
  | some (bytes, rest) => some (.ofWritten bytes, rest)
  | none => none

def handleRest (gs : List Glyph) : (List Char × Bool) × List Glyph :=
  let (name, rest) := run isWordChar gs
  if startsWith '!' rest then ((name, true), rest.tail) else ((name, false), rest)

def verbatimTag? (gs : List Glyph) : Option (Token × List Glyph) := do
  let (t, rest) ← tagPart? true gs
  if startsWith '>' rest then return (.tag "" t, rest.tail) else none

def shortTag? (gs : List Glyph) : Option (Token × List Glyph) := do
  let ((name, closed), rest) := handleRest gs
  if closed then
    let (t, rest) ← tagPart? false rest
    return (.tag ("!" ++ String.ofList name ++ "!") t, rest)
  else
    let (bytes, rest) ← tagBytes? false 0 [] rest
    let t := Tag.ofWritten (Tag.ofText (String.ofList name) ++ bytes)
    return (if t.isEmpty then .tag "" (Tag.ofText "!") else .tag "!" t, rest)

def tag? (flow : Bool) (gs : List Glyph) : Option (Token × List Glyph) := do
  let (t, rest) ← if startsWith '<' gs then verbatimTag? gs.tail else shortTag? gs
  if endsWord rest || flow && startsWith ',' rest then return (t, rest) else none

def versionNumber? (gs : List Glyph) : Option (Nat × List Glyph) := do
  let (digits, rest) := run Char.isDigit gs
  if digits.length ≤ 9 then return (← Text.number? 10 digits, rest) else none

def versionDirective? (gs : List Glyph) : Option (Token × List Glyph) := do
  let (major, rest) ← versionNumber? (skipBlanks gs)
  if startsWith '.' rest then
    let (minor, rest) ← versionNumber? rest.tail
    return (.version major minor, rest)
  else none

def handle? (gs : List Glyph) : Option (String × List Glyph) :=
  if startsWith '!' gs then
    match handleRest gs.tail with
    | ((name, true), rest) => some ("!" ++ String.ofList name ++ "!", rest)
    | (([], false), rest) => some ("!", rest)
    | _ => none
  else none

def handleDirective? (gs : List Glyph) : Option (Token × List Glyph) := do
  let (name, rest) ← handle? (skipBlanks gs)
  if rest.head?.any fun g => isBlank g.char then
    let (start, rest) ← tagPart? true (skipBlanks rest)
    if endsWord rest then return (.handle name start, rest) else none
  else none

def directive? (gs : List Glyph) : Option (Token × List Glyph) := do
  let (name, rest) := run isWordChar gs
  let (t, rest) ←
    if !endsWord rest then none
    else if name = "YAML".toList then versionDirective? rest
    else if name = "TAG".toList then handleDirective? rest
    else none
  return (t, ← nextLine? rest)

end FactFold.Yaml
