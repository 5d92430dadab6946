namespace FactFold.Yaml

structure Glyph where
  char : Char
  index : Nat
  line : Nat
  column : Nat

def isBreak (c : Char) : Bool :=
  c == '\n' || c == '\u2028' || c == '\u2029'

def isBlank (c : Char) : Bool :=
  c == ' ' || c == '\t'

def Glyph.isLeadingMark (g : Glyph) : Bool :=
  g.column == 0 && g.char == '\uFEFF'

def isWordChar (c : Char) : Bool :=
  c.isAlphanum || c == '-' || c == '_'

def allowedRanges : List (Nat × Nat) :=
  [(0x09, 0x0A), (0x0D, 0x0D), (0x20, 0x7E), (0x85, 0x85), (0xA0, 0xD7FF), (0xE000, 0xFFFD), (0x10000, 0x10FFFF)]

def isAllowed (c : Char) : Bool :=
  allowedRanges.any fun (low, high) => low ≤ c.toNat && c.toNat ≤ high

def placed (index line column : Nat) : List Char → List Glyph
  | [] => []
  | '\r' :: '\n' :: rest => ⟨'\n', index, line, column⟩ :: placed (index + 2) (line + 1) 0 rest
  | c :: rest =>
    let next := index + c.utf8Size
    if c == '\r' || c == '\x85' then ⟨'\n', index, line, column⟩ :: placed next (line + 1) 0 rest
    else if isBreak c then ⟨c, index, line, column⟩ :: placed next (line + 1) 0 rest
    else ⟨c, index, line, column⟩ :: placed next line (column + 1) rest

def glyphs? (s : String) : Option (List Glyph) :=
  if s.toList.all isAllowed then some (placed 0 0 0 s.toList) else none

def endsWord : List Glyph → Bool
  | [] => true
  | g :: _ => isBlank g.char || isBreak g.char

def startsWith (c : Char) : List Glyph → Bool
  | [] => false
  | g :: _ => g.char == c

def run (test : Char → Bool) (gs : List Glyph) : List Char × List Glyph :=
  ((gs.takeWhile fun g => test g.char).map Glyph.char, gs.dropWhile fun g => test g.char)

def skipBlanks (gs : List Glyph) : List Glyph :=
  gs.dropWhile fun g => isBlank g.char

def nextLine? (gs : List Glyph) : Option (List Glyph) :=
  let gs := skipBlanks gs
  let gs := if startsWith '#' gs then gs.dropWhile fun g => !isBreak g.char else gs
  match gs with
  | [] => some []
  | g :: rest => if isBreak g.char then some rest else none

def isMark (c : Char) : List Glyph → Bool
  | a :: b :: d :: rest => a.column == 0 && a.char == c && b.char == c && d.char == c && endsWord rest
  | _ => false

def atDocumentMark (gs : List Glyph) : Bool :=
  isMark '-' gs || isMark '.' gs

end FactFold.Yaml
