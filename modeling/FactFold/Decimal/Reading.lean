namespace FactFold.Decimal

def digitsValue (cs : List Char) : Nat :=
  cs.foldl (fun n c => 10 * n + (c.toNat - '0'.toNat)) 0

/-- The float nearest to `digits * 10 ^ exponent`; infinite if that is beyond the largest float.
Exponents far outside the range of floats are answered without computing the power. -/
def nearest (digits : Nat) (exponent : Int) : Float :=
  let leading := exponent + (toString digits).length
  if digits = 0 ∨ leading < -400 then 0
  else if 400 < leading then 1.0 / 0.0
  else Float.ofScientific digits (exponent < 0) exponent.natAbs

def digitRun (cs : List Char) : Nat :=
  (cs.takeWhile Char.isDigit).length

def exponentRun : List Char → Nat
  | e :: sign :: rest =>
    if e ≠ 'e' ∧ e ≠ 'E' then 0
    else if sign = '+' ∨ sign = '-' then
      let n := digitRun rest
      if n = 0 then 0 else n + 2
    else
      let n := digitRun (sign :: rest)
      if n = 0 then 0 else n + 1
  | _ => 0

def exponentValue : List Char → Int
  | _ :: '-' :: rest => -(digitsValue rest : Int)
  | _ :: '+' :: rest => digitsValue rest
  | _ :: rest => digitsValue rest
  | [] => 0

def read? (cs : List Char) : Option Float :=
  let whole := cs.takeWhile Char.isDigit
  let afterWhole := cs.dropWhile Char.isDigit
  let (fraction, rest) := match afterWhole with
    | '.' :: more => (more.takeWhile Char.isDigit, more.dropWhile Char.isDigit)
    | _ => ([], afterWhole)
  if whole.isEmpty && fraction.isEmpty then none
  else if exponentRun rest ≠ rest.length then none
  else some (nearest (digitsValue (whole ++ fraction)) (exponentValue rest - fraction.length))

end FactFold.Decimal
