namespace FactFold.Decimal

structure Binary where
  significand : Nat
  exponent : Int
  -- The gap to the next smaller float is half the gap to the next larger one.
  narrowBelow : Bool

def isNegative (x : Float) : Bool :=
  x.toBits >>> 63 == 1

def Binary.ofFloat (x : Float) : Binary :=
  let raised := ((x.toBits >>> 52) &&& 0x7FF).toNat
  let fraction := (x.toBits &&& 0xFFFFFFFFFFFFF).toNat
  if raised = 0 then ⟨fraction, -1074, false⟩
  else ⟨Nat.pow 2 52 + fraction, (raised : Int) - 1075, fraction == 0 && raised > 1⟩

def ofBinary (negative : Bool) (significand : Nat) (exponent : Int) : Float :=
  let top := significand.log2
  let leading := exponent + top
  let magnitude :=
    if significand = 0 then 0
    else if leading < -1022 then
      let shift := exponent + 1074
      if shift < 0 then significand >>> (-shift).toNat else significand <<< shift.toNat
    else
      let whole := if top ≤ 52 then significand <<< (52 - top) else significand >>> (top - 52)
      ((leading + 1023).toNat <<< 52) + (whole - Nat.pow 2 52)
  Float.ofBits (UInt64.ofNat (if negative then Nat.pow 2 63 + magnitude else magnitude))

def remainder (x y : Float) : Float :=
  if x.isNaN || y.isNaN || x.isInf || y == 0 then 0.0 / 0.0
  else if y.isInf then x
  else
    let a := Binary.ofFloat x
    let b := Binary.ofFloat y
    let unit := min a.exponent b.exponent
    let left := a.significand <<< (a.exponent - unit).toNat
    let right := b.significand <<< (b.exponent - unit).toNat
    ofBinary (isNegative x) (left % right) unit

end FactFold.Decimal
