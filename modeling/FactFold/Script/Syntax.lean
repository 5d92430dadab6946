import FactFold.Script.Token
import FactFold.Value.Operators

namespace FactFold.Script

inductive BinaryOp where
  | strict (op : StrictOp)
  | and
  | or
deriving DecidableEq

inductive Literal where
  | null
  | bool (b : Bool)
  | int (n : Int64)
  | float (x : Float)
  | text (s : String)

def Literal.value : Literal → Value
  | null => .null
  | bool b => .bool b
  | int n => .int n
  | float x => .float x
  | text s => .text s

inductive Expr where
  | literal (l : Literal) (span : Span)
  | name (n : String) (span : Span)
  | field (object : Expr) (name : String) (span : Span)
  | call (function : String) (args : List Expr) (span : Span)
  | unary (op : UnaryOp) (operand : Expr) (span : Span)
  | binary (op : BinaryOp) (left right : Expr) (span : Span)
  | conditional (condition yes no : Expr) (span : Span)

namespace Expr

instance : Inhabited Expr :=
  ⟨literal .null ⟨0, 0⟩⟩

def span : Expr → Span
  | literal _ s => s
  | name _ s => s
  | field _ _ s => s
  | call _ _ s => s
  | unary _ _ s => s
  | binary _ _ _ s => s
  | conditional _ _ _ s => s

def withSpan (s : Span) : Expr → Expr
  | literal l _ => literal l s
  | name n _ => name n s
  | field object n _ => field object n s
  | call function args _ => call function args s
  | unary op operand _ => unary op operand s
  | binary op left right _ => binary op left right s
  | conditional condition yes no _ => conditional condition yes no s

def path? : Expr → Option String
  | name n _ => some n
  | field object n _ => object.path?.map (· ++ "." ++ n)
  | _ => none

def root? : Expr → Option String
  | name n _ => some n
  | field object _ _ => object.root?
  | _ => none

def signed (op : UnaryOp) (operand : Expr) (span : Span) : Expr :=
  match op, operand with
  | .neg, literal (.int n) _ => literal (.int (-n)) span
  | .neg, literal (.float x) _ => literal (.float (-x)) span
  | op, operand => unary op operand span

end Expr

inductive AssignOp where
  | set
  | update (op : ArithOp)
deriving DecidableEq

inductive Stmt where
  | expr (e : Expr)
  | assign (target : String) (op : AssignOp) (value : Expr) (span : Span)
  | declare (name : String) (type : Option String) (value : Option Expr) (span : Span)
  | branch (condition : Expr) (yes : List Stmt) (no : Option (List Stmt))
  | ret (value : Option Expr)

instance : Inhabited Stmt :=
  ⟨.ret none⟩

end FactFold.Script
