import FactFold.Yaml.Token
import FactFold.Yaml.Glyph

namespace FactFold.Yaml

inductive Chomping where
  | strip
  | clip
  | keep
deriving DecidableEq

structure BlockHeader where
  chomping : Chomping := .clip
  indent : Nat := 0

def chomping? : Char → Option Chomping
  | '+' => some .keep
  | '-' => some .strip
  | _ => none

def indentDigit? (c : Char) : Option Nat :=
  if '1' ≤ c ∧ c ≤ '9' then some (c.toNat - '0'.toNat) else none

def takeChomping (header : BlockHeader) (gs : List Glyph) : BlockHeader × List Glyph :=
  match gs.head?.bind fun g => chomping? g.char with
  | some chomping => ({ header with chomping }, gs.tail)
  | none => (header, gs)

def takeIndent (header : BlockHeader) (gs : List Glyph) : BlockHeader × List Glyph :=
  match gs.head?.bind fun g => indentDigit? g.char with
  | some indent => ({ header with indent }, gs.tail)
  | none => (header, gs)

def blockHeader? (gs : List Glyph) : Option (BlockHeader × List Glyph) := do
  let (header, rest) := takeChomping {} gs
  let (header, rest) := takeIndent header rest
  let (header, rest) := if header.chomping = .clip then takeChomping header rest else (header, rest)
  return (header, ← nextLine? rest)

/-- The empty lines before the first line with content: the width of the widest one, that line's
indentation included, and their line breaks, newest first. -/
def emptyLines (width : Nat) (breaks : List Char) : List Glyph → Option ((Nat × List Char) × List Glyph)
  | [] => some ((width, breaks), [])
  | g :: rest =>
    if g.char == ' ' then emptyLines (max width (g.column + 1)) breaks rest
    else if g.char == '\t' then none
    else if isBreak g.char then emptyLines width (g.char :: breaks) rest
    else some ((width, breaks), g :: rest)
termination_by structural gs => gs

structure BlockText where
  done : List Char := []
  first : Option Char := none
  more : List Char := []
  afterBlank : Bool := false

namespace BlockText

def startLine (literal : Bool) (c : Char) (t : BlockText) : BlockText :=
  let first :=
    if !literal && t.first == some '\n' && !t.afterBlank && !isBlank c then
      if t.more.isEmpty then [' '] else []
    else t.first.toList
  { done := c :: (t.more ++ (first ++ t.done)), afterBlank := isBlank c }

def finish (chomping : Chomping) (t : BlockText) : String :=
  let tail := match chomping with
    | .strip => []
    | .clip => t.first.toList
    | .keep => t.more ++ t.first.toList
  String.ofList (tail ++ t.done).reverse

end BlockText

def blockLines (literal : Bool) (indent : Nat) :
    (inLine : Bool) → BlockText → List Glyph → Option (BlockText × List Glyph)
  | _, t, [] => some (t, [])
  | true, t, g :: rest =>
    if isBreak g.char then blockLines literal indent false { t with first := some g.char } rest
    else blockLines literal indent true { t with done := g.char :: t.done } rest
  | false, t, g :: rest =>
    if g.char == ' ' && g.column < indent then blockLines literal indent false t rest
    else if g.char == '\t' && g.column < indent then none
    else if isBreak g.char then blockLines literal indent false { t with more := g.char :: t.more } rest
    else if g.column == indent then blockLines literal indent true (t.startLine literal g.char) rest
    else some (t, g :: rest)
termination_by structural _ _ gs => gs

/-- A block scalar behind its indicator. Its lines are indented by more than the block around it, whose
indentation is the last of `indents`; a block of the document itself has none. -/
def blockScalar? (literal : Bool) (indents : List Nat) (gs : List Glyph) : Option (Token × List Glyph) := do
  let (header, lines) ← blockHeader? gs
  let style := if literal then Style.literal else .other
  let least := match indents with
    | [] => 1
    | n :: _ => n + 1
  if header.indent = 0 then
    let ((width, breaks), lines) ← emptyLines 0 [] lines
    let (t, rest) ← blockLines literal (max width least) false { more := breaks } lines
    return (.scalar (t.finish header.chomping) style, rest)
  else
    let (t, rest) ← blockLines literal (indents.headD 0 + header.indent) false {} lines
    return (.scalar (t.finish header.chomping) style, rest)

end FactFold.Yaml
