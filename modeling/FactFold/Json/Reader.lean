import FactFold.Decimal.Reading
import FactFold.Json.Basic
import FactFold.Text.Hex

namespace FactFold.Json

def nestingLimit : Nat := 127

def isBlank (c : Char) : Bool :=
  c == ' ' || c == '\n' || c == '\t' || c == '\r'

def skipBlanks (cs : List Char) : List Char :=
  cs.dropWhile isBlank

def absorb (significand : Nat) : List Char → Nat × List Char
  | [] => (significand, [])
  | c :: rest =>
    let longer := 10 * significand + Decimal.digitsValue [c]
    if longer < UInt64.size then absorb longer rest else (significand, c :: rest)

def topPower : Nat := 308

def power (n : Nat) : Float :=
  Decimal.nearest 1 n

def scale? (x : Float) (exponent : Int) : Nat → Option Float
  | 0 => some 0
  | strides + 1 =>
    if exponent.natAbs ≤ topPower then
      if 0 ≤ exponent then
        let product := x * power exponent.natAbs
        if product.isInf then none else some product
      else some (x / power exponent.natAbs)
    else if x == 0 then some x
    else if 0 ≤ exponent then none
    -- a number that is too small for one division is divided in several strides
    else scale? (x / power topPower) (exponent + topPower) strides

/-- The number of an integer part without a sign, a fraction and an exponent. Digits of the integer
part that do not fit the significand count for the exponent, those of the fraction for nothing. -/
def magnitude? (whole fraction : List Char) (exponent : Int) : Option Float :=
  let (significand, skipped) := absorb 0 whole
  let (significand, ignored) := absorb significand fraction
  scale? (Decimal.nearest significand 0) (exponent + skipped.length - (fraction.length - ignored.length)) 4

def number? (negative : Bool) (cs : List Char) : Option (Json × List Char) :=
  let whole := cs.takeWhile Char.isDigit
  let afterWhole := cs.dropWhile Char.isDigit
  if whole.isEmpty || (whole.head? == some '0' && whole.length > 1) then none
  else
    let (fraction, afterFraction) := match afterWhole with
      | '.' :: rest => (some (rest.takeWhile Char.isDigit), rest.dropWhile Char.isDigit)
      | _ => (none, afterWhole)
    let exponentLength := Decimal.exponentRun afterFraction
    let exponent :=
      if exponentLength = 0 then none
      else some (Decimal.exponentValue (afterFraction.take exponentLength))
    let rest := afterFraction.drop exponentLength
    if fraction == some [] then none
    else if rest.head? == some 'e' || rest.head? == some 'E' then none
    else
      let n := Decimal.digitsValue whole
      if fraction.isNone && exponent.isNone && (if negative then 0 < n && n ≤ UInt64.size / 2 else n < UInt64.size) then
        some (.int (if negative then -n else n), rest)
      else
        (magnitude? whole (fraction.getD []) (exponent.getD 0)).map fun x =>
          (.float (if negative then -x else x), rest)

def unescape? : Char → Option Char
  | '"' => some '"'
  | '\\' => some '\\'
  | '/' => some '/'
  | 'b' => some '\x08'
  | 'f' => some '\x0c'
  | 'n' => some '\n'
  | 'r' => some '\r'
  | 't' => some '\t'
  | _ => none

def isHighHalf (n : Nat) : Bool :=
  0xD800 ≤ n && n < 0xDC00

def isLowHalf (n : Nat) : Bool :=
  0xDC00 ≤ n && n < 0xE000

def text? (high : Option Nat) : List Char → List Char → Option (String × List Char)
  | '\\' :: 'u' :: a :: b :: c :: d :: rest, done =>
    match Text.hexNumber? [a, b, c, d], high with
    | none, _ => none
    | some n, none =>
      if isHighHalf n then text? (some n) rest done
      else if isLowHalf n then none
      else text? none rest (Char.ofNat n :: done)
    | some n, some h =>
      if isLowHalf n then text? none rest (Char.ofNat (0x10000 + (h - 0xD800) * 0x400 + (n - 0xDC00)) :: done)
      else none
  | '\\' :: c :: rest, done =>
    match unescape? c, high with
    | some c, none => text? none rest (c :: done)
    | _, _ => none
  | c :: rest, done =>
    if high.isSome || c.toNat < 0x20 then none
    else if c = '"' then some (String.ofList done.reverse, rest)
    else text? none rest (c :: done)
  | [], _ => none

/-- Items up to the closing bracket, each read by `item`; at least one must come. The list `bound`
is as long as the text, and every item takes some of it. -/
def items? {α : Type} (closing : Char) (item : List Char → Option (α × List Char)) :
    List Char → List Char → List α → Option (List α × List Char)
  | [], _, _ => none
  | _ :: bound, cs, done =>
    match item (skipBlanks cs) with
    | none => none
    | some (a, rest) =>
      match skipBlanks rest with
      | c :: rest =>
        if c = closing then some ((a :: done).reverse, rest)
        else if c = ',' then items? closing item bound rest (a :: done)
        else none
      | [] => none

def sequence? {α : Type} (closing : Char) (item : List Char → Option (α × List Char)) (cs : List Char) :
    Option (List α × List Char) :=
  match skipBlanks cs with
  | c :: rest => if c = closing then some ([], rest) else items? closing item (c :: rest) (c :: rest) []
  | [] => none

def namedTree? (item : List Char → Option (Json × List Char)) :
    List Char → Option ((String × Json) × List Char)
  | '"' :: cs => do
    let (name, rest) ← text? none cs []
    match skipBlanks rest with
    | ':' :: rest =>
      let (tree, rest) ← item (skipBlanks rest)
      return ((name, tree), rest)
    | _ => none
  | _ => none

def after? : List Char → List Char → Option (List Char)
  | [], cs => some cs
  | w :: word, c :: cs => if w = c then after? word cs else none
  | _ :: _, [] => none

def tree? (depth : Nat) (cs : List Char) : Option (Json × List Char) :=
  match cs with
  | 'n' :: rest => (after? ['u', 'l', 'l'] rest).map (.null, ·)
  | 't' :: rest => (after? ['r', 'u', 'e'] rest).map (.bool true, ·)
  | 'f' :: rest => (after? ['a', 'l', 's', 'e'] rest).map (.bool false, ·)
  | '"' :: rest => (text? none rest []).map fun (s, rest) => (.text s, rest)
  | '-' :: rest => number? true rest
  | '[' :: rest =>
    match depth with
    | 0 => none
    | depth + 1 => (sequence? ']' (tree? depth) rest).map fun (items, rest) => (.array items, rest)
  | '\x7b' :: rest =>
    match depth with
    | 0 => none
    | depth + 1 =>
      (sequence? '\x7d' (namedTree? (tree? depth)) rest).map fun (members, rest) => (.object members, rest)
  | cs => number? false cs
termination_by structural depth

def parse? (depth : Nat) (s : String) : Option Json :=
  match tree? depth (skipBlanks s.toList) with
  | some (tree, rest) => if (skipBlanks rest).isEmpty then some tree else none
  | none => none

example : parse? 1 "[\"a\\n\", -3]" = some (.array [.text "a\n", .int (-3)]) := by
  cbv

end FactFold.Json
