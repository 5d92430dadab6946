import FactFold.Decimal.Shortest

namespace FactFold.Decimal

structure Layout where
  tie : Tie
  -- The decimal exponents of the leading digit, from the first to the second, that are written
  -- without an exponent; `none` means all.
  positional : Option (Int × Int)
  wholeMark : String
  nan : String
  infinity : String
  negativeInfinity : String

def zeros (n : Nat) : String :=
  String.ofList (List.replicate n '0')

def Layout.plain (layout : Layout) (d : Digits) : String :=
  let text := toString d.digits
  let leading := d.exponent + text.length - 1
  if 0 ≤ d.exponent then text ++ zeros d.exponent.toNat ++ layout.wholeMark
  else if leading < 0 then "0." ++ zeros (-leading - 1).toNat ++ text
  else
    let cut := (leading + 1).toNat
    String.ofList (text.toList.take cut) ++ "." ++ String.ofList (text.toList.drop cut)

def scientific (d : Digits) : String :=
  let text := (toString d.digits).toList
  let leading := d.exponent + text.length - 1
  let rest := text.drop 1
  let fraction := if rest.isEmpty then "" else "." ++ String.ofList rest
  let sign := if leading < 0 then "-" else "+"
  String.ofList (text.take 1) ++ fraction ++ "e" ++ sign ++ toString leading.natAbs

def Layout.write (layout : Layout) (x : Float) : String :=
  if x.isNaN then layout.nan
  else if x.isInf then (if isNegative x then layout.negativeInfinity else layout.infinity)
  else
    let d := (Binary.ofFloat x).shortest layout.tie
    let leading := d.exponent + (toString d.digits).length - 1
    let body := match layout.positional with
      | none => layout.plain d
      | some (low, high) => if low ≤ leading ∧ leading ≤ high then layout.plain d else scientific d
    if isNegative x then "-" ++ body else body

end FactFold.Decimal
