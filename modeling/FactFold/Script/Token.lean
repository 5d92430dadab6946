import FactFold.Value.Basic

namespace FactFold.Script

structure Span where
  start : Nat
  stop : Nat
deriving DecidableEq

def Span.toText (s : Span) : String :=
  toString s.start ++ ".." ++ toString s.stop

inductive Fixed where
  | varWord | ifWord | elseWord | returnWord | trueWord | falseWord | nullWord
  | plus | minus | star | slash | percent
  | equalEqual | bangEqual | less | lessEqual | greater | greaterEqual
  | andAnd | orOr | bang | equal | plusEqual | minusEqual | question | colon
  | dot | comma | semicolon | leftParen | rightParen | leftBrace | rightBrace
deriving DecidableEq

def Fixed.spelling : Fixed → String
  | varWord => "var"
  | ifWord => "if"
  | elseWord => "else"
  | returnWord => "return"
  | trueWord => "true"
  | falseWord => "false"
  | nullWord => "null"
  | plus => "+"
  | minus => "-"
  | star => "*"
  | slash => "/"
  | percent => "%"
  | equalEqual => "=="
  | bangEqual => "!="
  | less => "<"
  | lessEqual => "<="
  | greater => ">"
  | greaterEqual => ">="
  | andAnd => "&&"
  | orOr => "||"
  | bang => "!"
  | equal => "="
  | plusEqual => "+="
  | minusEqual => "-="
  | question => "?"
  | colon => ":"
  | dot => "."
  | comma => ","
  | semicolon => ";"
  | leftParen => "("
  | rightParen => ")"
  | leftBrace => "\x7b"
  | rightBrace => "\x7d"

def Fixed.words : List Fixed :=
  [varWord, ifWord, elseWord, returnWord, trueWord, falseWord, nullWord]

inductive Token where
  | fixed (f : Fixed)
  -- Digits; a literal is never negative.
  | int (n : Int64)
  | float (x : Float)
  | text (s : String)
  | name (s : String)

def Token.toText : Token → String
  | fixed f => f.spelling
  | int n => toString n
  | float x => Value.floatLayout.write x
  | text s => "\"" ++ s ++ "\""
  | name s => s

structure Lexeme where
  token : Token
  span : Span

structure LexError where
  text : String
  span : Span

def LexError.message (e : LexError) : String :=
  "unrecognized input `" ++ e.text ++ "` at " ++ e.span.toText

end FactFold.Script
