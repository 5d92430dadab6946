import FactFold.Script.ParseError

namespace FactFold.Script

structure Cursor where
  last : Nat
  rest : List Lexeme

namespace Cursor

def atStart (lexemes : List Lexeme) : Cursor :=
  ⟨0, lexemes⟩

def peek? (c : Cursor) : Option Token :=
  c.rest.head?.map (·.token)

def ahead (c : Cursor) : List Token :=
  (c.rest.take 3).map Lexeme.token

def here (c : Cursor) : Span :=
  match c.rest with
  | [] => ⟨c.last, c.last⟩
  | l :: _ => l.span

def next (c : Cursor) : Cursor :=
  match c.rest with
  | [] => c
  | l :: rest => ⟨l.span.stop, rest⟩

def since (c : Cursor) (start : Nat) : Span :=
  ⟨start, max start c.last⟩

def fail {α : Type} (c : Cursor) (cause : ParseCause) : Except ParseError α :=
  .error ⟨cause, c.here⟩

def isAt (c : Cursor) (f : Fixed) : Bool :=
  match c.peek? with
  | some (.fixed g) => f == g
  | _ => false

def expect (c : Cursor) (f : Fixed) : Except ParseError Cursor :=
  if c.isAt f then .ok c.next else c.fail (.expected f c.peek?)

def name (c : Cursor) (place : Place) : Except ParseError (String × Cursor) :=
  match c.peek? with
  | some (.name n) => .ok (n, c.next)
  | found => c.fail (.unexpected found place)

end Cursor

end FactFold.Script
