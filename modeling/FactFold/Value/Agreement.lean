import FactFold.Value.Basic

namespace FactFold

def largerFloat (x y : Float) : Float :=
  if x.isNaN then y else if x < y then y else x

def smallerFloat (x y : Float) : Float :=
  if x.isNaN then y else if y < x then y else x

def floatEpsilon : Float :=
  Float.ofBits 0x3CB0000000000000

def nearlyEqual (x y : Float) : Bool :=
  (x - y).abs ≤ floatEpsilon * largerFloat (largerFloat x.abs y.abs) 1.0

namespace Value

/-- Whether a computed value counts as the expected one. Numbers are compared as floats, integers
among them; all else has to be the same. -/
def agrees (actual expected : Value) : Bool :=
  match actual.asFloat?, expected.asFloat? with
  | some x, some y => nearlyEqual x y
  | _, _ => actual == expected

end Value

end FactFold
