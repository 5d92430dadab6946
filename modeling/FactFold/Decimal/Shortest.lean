import FactFold.Decimal.Binary

/-!
The decimal with the fewest digits that reads back as a given float. The search walks over grids of
decimals, from one digit to seventeen, and takes the first grid with a point in the interval of
reals that round to the float.
-/

namespace FactFold.Decimal

structure Digits where
  digits : Nat
  exponent : Int

inductive Tie where
  | up
  | even

/-- The grid of the multiples of `10 ^ step`, beside quarter units of the last binary place: a point
`c` of the grid and `k` quarters compare as `c * point` and `k * quarter`. -/
structure Grid where
  point : Nat
  quarter : Nat

def Grid.of (b : Binary) (step : Int) : Grid where
  point := Nat.pow 10 step.toNat * Nat.pow 2 (2 - b.exponent).toNat
  quarter := Nat.pow 2 (b.exponent - 2).toNat * Nat.pow 10 (-step).toNat

def Grid.readsBack (g : Grid) (b : Binary) (c : Nat) : Bool :=
  let low := (4 * b.significand - if b.narrowBelow then 1 else 2) * g.quarter
  let high := (4 * b.significand + 2) * g.quarter
  if b.significand % 2 = 0 then low ≤ c * g.point && c * g.point ≤ high
  else low < c * g.point && c * g.point < high

def Grid.nearer (g : Grid) (tie : Tie) (b : Binary) (c : Nat) : Nat :=
  let twice := 8 * b.significand * g.quarter
  let middle := (2 * c + 1) * g.point
  if twice < middle then c
  else if middle < twice then c + 1
  else match tie with
    | .up => c + 1
    | .even => if c % 2 = 0 then c else c + 1

def Grid.find? (g : Grid) (tie : Tie) (b : Binary) : Option Nat :=
  let c := 4 * b.significand * g.quarter / g.point
  match g.readsBack b c, g.readsBack b (c + 1) with
  | true, true => some (g.nearer tie b c)
  | true, false => some c
  | false, true => some (c + 1)
  | false, false => none

def Binary.below (b : Binary) (scale : Int) : Bool :=
  b.significand * Nat.pow 2 b.exponent.toNat * Nat.pow 10 (-scale).toNat
    < Nat.pow 10 scale.toNat * Nat.pow 2 (-b.exponent).toNat

def Binary.scale (b : Binary) : Int :=
  -- 0.30103 is the decimal logarithm of two, up to an error that the candidates make up for
  let guess := (b.exponent + b.significand.log2) * 30103 / 100000 - 1
  let candidates := [guess, guess + 1, guess + 2]
  (candidates.find? b.below).getD (guess + 3)

def Digits.strip : Nat → Digits → Digits
  | 0, d => d
  | fuel + 1, d =>
    if d.digits ≠ 0 ∧ d.digits % 10 = 0 then Digits.strip fuel ⟨d.digits / 10, d.exponent + 1⟩ else d

/-- The shortest decimal of a magnitude, trying `n`, `n + 1`, … digits; past seventeen the exact
value would follow, but seventeen digits always read back. -/
def Binary.shortestFrom (tie : Tie) (b : Binary) (scale : Int) : Nat → Nat → Digits
  | _, 0 => ⟨b.significand * Nat.pow 2 b.exponent.toNat * Nat.pow 5 (-b.exponent).toNat, min b.exponent 0⟩
  | n, fuel + 1 =>
    match (Grid.of b (scale - n)).find? tie b with
    | some digits => ⟨digits, scale - n⟩
    | none => b.shortestFrom tie scale (n + 1) fuel

def Binary.shortest (tie : Tie) (b : Binary) : Digits :=
  if b.significand = 0 then ⟨0, 0⟩
  else (b.shortestFrom tie b.scale 1 17).strip 20

end FactFold.Decimal
