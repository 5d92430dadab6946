import FactFold.Decimal.Reading
import FactFold.Text.Hex
import FactFold.Value.Basic
import FactFold.Yaml.Token

namespace FactFold.Yaml

def nullTag : Tag := .ofText "tag:yaml.org,2002:null"
def boolTag : Tag := .ofText "tag:yaml.org,2002:bool"
def intTag : Tag := .ofText "tag:yaml.org,2002:int"
def floatTag : Tag := .ofText "tag:yaml.org,2002:float"

def isNullText (s : String) : Bool :=
  ["~", "null", "Null", "NULL"].contains s

def bool? (s : String) : Option Bool :=
  if ["true", "True", "TRUE"].contains s then some true
  else if ["false", "False", "FALSE"].contains s then some false
  else none

def hasLeadingZero (cs : List Char) : Bool :=
  let digits := match cs with
    | '-' :: rest => rest
    | '+' :: rest => rest
    | cs => cs
  digits.length > 1 && digits.head? == some '0' && digits.all Char.isDigit

def magnitude? : List Char → Option Nat
  | '0' :: 'x' :: digits => Text.number? 16 digits
  | '0' :: 'o' :: digits => Text.number? 8 digits
  | '0' :: 'b' :: digits => Text.number? 2 digits
  | cs => if hasLeadingZero cs then none else Text.number? 10 cs

def int? (cs : List Char) : Option Int :=
  match cs with
  | '-' :: rest => (magnitude? rest).map fun n => -(n : Int)
  | '+' :: rest => (magnitude? rest).map fun n => (n : Int)
  | cs => (magnitude? cs).map fun n => (n : Int)

def finite? (cs : List Char) : Option Float :=
  (Decimal.read? cs).filter Float.isFinite

def isInfinityText (cs : List Char) : Bool :=
  [".inf", ".Inf", ".INF"].contains (String.ofList cs)

def float? (cs : List Char) : Option Float :=
  if [".nan", ".NaN", ".NAN"].contains (String.ofList cs) then some (0.0 / 0.0)
  else
    match cs with
    | '-' :: rest => if isInfinityText rest then some (-(1.0 / 0.0)) else (finite? rest).map (-·)
    | '+' :: rest => if isInfinityText rest then some (1.0 / 0.0) else finite? rest
    | cs => if isInfinityText cs then some (1.0 / 0.0) else finite? cs

/-- An integer as a value. Beyond 64 bits with a sign it is a float as long as it has 64 bits without one,
and refused as long as it has 128 bits. -/
inductive IntValue where
  | value (v : Value)
  | refused
  | beyond

def intValue (n : Int) : IntValue :=
  match int64? n with
  | some n => .value (.int n)
  | none =>
    if 0 ≤ n ∧ n < UInt64.size then .value (.float (Float.ofInt n))
    else if -Int.pow 2 127 ≤ n ∧ n < Int.pow 2 128 then .refused
    else .beyond

def plainValue? (s : String) : Option Value :=
  let cs := s.toList
  if s.isEmpty || isNullText s then some .null
  else
    match bool? s with
    | some b => some (.bool b)
    | none =>
      match (int? cs).map intValue with
      | some (.value v) => some v
      | some .refused => none
      | _ => if hasLeadingZero cs then some (.text s) else some (((float? cs).map .float).getD (.text s))

/-- The meaning of a scalar; none if its tag does not fit its text. A plain scalar behind a mark that is followed
by no text is read as if it had no tag. -/
def scalarValue? (tag : Option Tag) (style : Style) (s : String) : Option Value :=
  match tag with
  | none => if style = .plain then plainValue? s else some (.text s)
  | some tag =>
    if tag.isPrivate then none
    else if tag = boolTag then (bool? s).map .bool
    else if tag = intTag then
      match (int? s.toList).map intValue with
      | some (.value v) => some v
      | _ => none
    else if tag = floatTag then (float? s.toList).map .float
    else if tag = nullTag then if isNullText s then some .null else none
    else if tag.isLocal && style = .plain then plainValue? s
    else some (.text s)

end FactFold.Yaml
