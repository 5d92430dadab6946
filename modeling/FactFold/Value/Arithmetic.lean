import FactFold.Decimal.Binary
import FactFold.RunError

namespace FactFold

namespace ArithOp

def onInts (op : ArithOp) (x y : Int64) : Except RunError Value :=
  let a := x.toInt
  let b := y.toInt
  let fit (n : Option Int64) : Except RunError Value :=
    match n with
    | some n => .ok (.int n)
    | none => .error (.overflow (.arith op))
  match op with
  | add => fit (int64? (a + b))
  | sub => fit (int64? (a - b))
  | mul => fit (int64? (a * b))
  | div => if b = 0 then .error .divisionByZero else fit (int64? (a.tdiv b))
  -- a remainder is refused where its quotient does not fit
  | rem => if b = 0 then .error .divisionByZero else fit ((int64? (a.tdiv b)).map fun _ => Int64.ofInt (a.tmod b))

def onFloats : ArithOp → Float → Float → Float
  | add, x, y => x + y
  | sub, x, y => x - y
  | mul, x, y => x * y
  | div, x, y => x / y
  | rem, x, y => Decimal.remainder x y

end ArithOp

namespace Value

def bothFloats (operation : Operation) (a b : Value) : Except RunError (Float × Float) :=
  match a.asFloat?, b.asFloat? with
  | some x, some y => .ok (x, y)
  | none, _ => .error (.mismatch operation .number a.kind)
  | _, none => .error (.mismatch operation .number b.kind)

def arith (op : ArithOp) (a b : Value) : Except RunError Value :=
  match op, a, b with
  | .add, text s, b => .ok (text (s ++ b.toText))
  | .add, a, text t => .ok (text (a.toText ++ t))
  | op, int x, int y => op.onInts x y
  | op, a, b => (bothFloats (.arith op) a b).map fun (x, y) => float (op.onFloats x y)

def compareFloats? (x y : Float) : Option Ordering :=
  if x < y then some .lt else if x == y then some .eq else if y < x then some .gt else none

def compare? (op : OrderOp) (a b : Value) : Except RunError (Option Ordering) :=
  match a, b with
  | int x, int y => .ok (some (compare x.toInt y.toInt))
  | text s, text t => .ok (some (compare s t))
  | a, b => (bothFloats (.order op) a b).map fun (x, y) => compareFloats? x y

/-- Equality as scripts see it: an integer equals the float it widens to. Inside lists and records
nothing is widened. -/
def equals : Value → Value → Bool
  | int n, float x => Float.ofInt n.toInt == x
  | float x, int n => Float.ofInt n.toInt == x
  | a, b => a == b

def strict (op : StrictOp) (a b : Value) : Except RunError Value :=
  match op with
  | .arith op => arith op a b
  | .order op => (compare? op a b).map fun o => bool (o.any op.holds)
  | .eq => .ok (bool (equals a b))
  | .ne => .ok (bool (!equals a b))

def unary (op : UnaryOp) (a : Value) : Except RunError Value :=
  match op, a with
  | .neg, int n =>
    match int64? (-n.toInt) with
    | some m => .ok (int m)
    | none => .error (.overflow (.unary .neg))
  | .neg, float x => .ok (float (-x))
  | .neg, a => .error (.mismatch (.unary .neg) .number a.kind)
  | .not, bool b => .ok (bool !b)
  | .not, a => .error (.mismatch (.unary .not) .boolean a.kind)

def condition (a : Value) : Except RunError Bool :=
  match a with
  | bool b => .ok b
  | a => .error (.mismatch .condition .boolean a.kind)

end Value

end FactFold
