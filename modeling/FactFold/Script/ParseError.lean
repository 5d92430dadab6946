import FactFold.Script.Syntax

namespace FactFold.Script

inductive Place where
  | inExpression
  | afterDot
  | afterExpression
  | afterVar
  | asType
  | asName
  | asTarget

def Place.toText : Place → String
  | inExpression => "in expression"
  | afterDot => "after `.`"
  | afterExpression => "after expression"
  | afterVar => "after `var`"
  | asType => "as declaration type"
  | asName => "as declared name"
  | asTarget => "as assignment target"

inductive ParseCause where
  | expected (wanted : Fixed) (found : Option Token)
  | unexpected (found : Option Token) (place : Place)
  | tooDeep
  | notCallable

structure ParseError where
  cause : ParseCause
  span : Span

inductive ParseErrorClass where
  | unexpectedToken
  | unexpectedEnd
  | invalidSyntax

def ParseCause.class : ParseCause → ParseErrorClass
  | expected _ none => .unexpectedEnd
  | expected _ (some _) => .unexpectedToken
  | unexpected none _ => .unexpectedEnd
  | unexpected (some _) _ => .unexpectedToken
  | tooDeep => .invalidSyntax
  | notCallable => .invalidSyntax

def ParseCause.message : ParseCause → String
  | expected wanted none => "expected `" ++ wanted.spelling ++ "`, found end of input"
  | expected wanted (some found) => "expected `" ++ wanted.spelling ++ "`, found `" ++ found.toText ++ "`"
  | unexpected none place => "unexpected end of input " ++ place.toText
  | unexpected (some found) place => "unexpected `" ++ found.toText ++ "` " ++ place.toText
  | tooDeep => "expression nested too deeply"
  | notCallable => "only named functions can be called"

def ParseError.message (e : ParseError) : String :=
  e.cause.message ++ " at " ++ e.span.toText

end FactFold.Script
