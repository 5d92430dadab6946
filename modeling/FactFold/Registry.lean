import FactFold.Script.Code
import FactFold.Value.Agreement

namespace FactFold

open Script (Native)

/-- Types by qualified name, functions and constants by owner and name with a dot between. -/
structure Registry where
  types : Entries String ValueType
  methods : Entries String Native
  fields : Entries String Value

namespace Registry

def type? (r : Registry) (name : String) : Option ValueType :=
  r.types.get? name

def method? (r : Registry) (owner name : String) : Option Native :=
  r.methods.get? (owner ++ "." ++ name)

def field? (r : Registry) (owner name : String) : Option Value :=
  r.fields.get? (owner ++ "." ++ name)

def withType (r : Registry) (name : String) (type : ValueType) : Registry :=
  { r with types := r.types.put name type }

def withMethod (r : Registry) (owner name : String) (native : Native) : Registry :=
  { r with methods := r.methods.put (owner ++ "." ++ name) native }

def withField (r : Registry) (owner name : String) (v : Value) : Registry :=
  { r with fields := r.fields.put (owner ++ "." ++ name) v }

def onNumbers (name : String) (ints : Int64 → Int64 → Int64) (floats : Float → Float → Float) : Native
  | [.int a, .int b] => .ok (.int (ints a b))
  | [a, b] =>
    match a.asFloat?, b.asFloat? with
    | some x, some y => .ok (.float (floats x y))
    | _, _ => .error (name ++ " expects two numbers, got " ++ a.kind ++ " and " ++ b.kind)
  | args => .error (name ++ " expects 2 arguments, got " ++ toString args.length)

def max : Native :=
  onNumbers "max" (fun a b => if a ≤ b then b else a) largerFloat

def min : Native :=
  onNumbers "min" (fun a b => if a ≤ b then a else b) smallerFloat

def abs : Native
  | [.int n] => if n = Int64.minValue then .error "abs overflowed" else .ok (.int (if n < 0 then -n else n))
  | [.float x] => .ok (.float x.abs)
  | [other] => .error ("abs expects a number, got " ++ other.kind)
  | args => .error ("abs expects 1 argument, got " ++ toString args.length)

def standard : Registry where
  types :=
    [("Object", .any), ("String", .text), ("Number", .number), ("Integer", .number), ("Long", .number),
      ("Short", .number), ("Byte", .number), ("Double", .number), ("Float", .number), ("Boolean", .boolean),
      ("List", .list), ("Math", .record "Math")]
  methods := [("Math.max", max), ("Math.min", min), ("Math.abs", abs)]
  fields :=
    [("Math.PI", .float 3.141592653589793), ("Math.E", .float 2.718281828459045),
      ("Integer.MAX_VALUE", .int 2147483647), ("Integer.MIN_VALUE", .int (-2147483648))]

end Registry

end FactFold
