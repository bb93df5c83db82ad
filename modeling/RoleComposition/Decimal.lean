/-!
# Decimals

A decimal is a sign, a count of units and a power of ten. `Decimal.ofFloat` gives the decimal that
stands for a finite binary number: of the decimals that no other binary number is nearer to, the
one on the coarsest grid of powers of ten, and of those the nearest.
-/

namespace RoleComposition

/-- The number `± units · 10 ^ exponent`. -/
structure Decimal where
  negative : Bool
  units : Nat
  exponent : Int
deriving DecidableEq, Repr

namespace Decimal

/-- The significand and the power of two of a binary number, given its 64 bits. -/
def binaryParts (bits : Nat) : Nat × Int :=
  let fraction := bits % Nat.pow 2 52
  let scale : Nat := bits / Nat.pow 2 52 % Nat.pow 2 11
  if scale = 0 then (fraction, -1074) else (fraction + Nat.pow 2 52, (scale : Int) - 1075)

/-- The numbers around `centre / denominator` that round to it: from `low` to `high`, the ends
included when `closed`. -/
structure Cell where
  centre : Nat
  low : Nat
  high : Nat
  denominator : Nat
  closed : Bool

/-- The cell of `significand · 2 ^ power`. Below a power of two the neighbour is half as far. -/
def Cell.ofBinary (significand : Nat) (power : Int) : Cell :=
  let below := if significand = Nat.pow 2 52 ∧ -1074 < power then 1 else 2
  let scale := if 2 ≤ power then Nat.pow 2 (power - 2).toNat else 1
  let denominator := if 2 ≤ power then 1 else Nat.pow 2 (2 - power).toNat
  { centre := 4 * significand * scale
    low := (4 * significand - below) * scale
    high := (4 * significand + 2) * scale
    denominator := denominator
    closed := significand % 2 == 0 }

/-- The count of units of `10 ^ exponent` that lies in the cell, nearest to its centre. -/
def Cell.unitsAt (cell : Cell) (exponent : Int) : Option Nat :=
  let up := Nat.pow 10 (-exponent).toNat
  let unit := Nat.pow 10 exponent.toNat * cell.denominator
  let inside (n : Nat) : Bool :=
    let place := n * unit
    if cell.closed then cell.low * up ≤ place && place ≤ cell.high * up
    else cell.low * up < place && place < cell.high * up
  let floor := cell.centre * up / unit
  let remainder := cell.centre * up - floor * unit
  let nearerBelow := 2 * remainder < unit || (2 * remainder == unit && floor % 2 == 0)
  let candidates := if nearerBelow then [floor, floor + 1] else [floor + 1, floor]
  candidates.find? fun n => 0 < n && inside n

/-- The grids of powers of ten from the coarsest to the finest that a binary number needs. -/
def grids : List Int := (List.range 660).map fun (n : Nat) => 310 - (n : Int)

/-- The decimal that stands for a finite binary number. -/
def ofFloat (x : Float) : Decimal :=
  let bits := x.toBits.toNat
  let negative := bits / Nat.pow 2 63 == 1
  let (significand, power) := binaryParts bits
  if significand = 0 then ⟨negative, 0, 0⟩
  else
    let cell := Cell.ofBinary significand power
    match grids.findSome? fun e => (cell.unitsAt e).map fun n => (n, e) with
    | some (units, exponent) => ⟨negative, units, exponent⟩
    | none => ⟨negative, 0, 0⟩

/-- The digits of a number in base ten. -/
def digits (n : Nat) : List Char := Nat.toDigits 10 n

/-- An exponent is written with its sign. -/
def exponentText (e : Int) : List Char := (if e < 0 then '-' else '+') :: digits e.natAbs

/-- The written form. Leading digits from the fifth place after the point to the sixteenth before
it are written out, with at least one digit on each side of the point; other numbers have one
digit before the point and an exponent. -/
def text (d : Decimal) : List Char :=
  let ds := digits d.units
  let lead : Int := d.exponent + ds.length - 1
  let magnitude :=
    if d.units = 0 then ['0', '.', '0']
    else if lead < -5 ∨ 15 < lead then
      (match ds with
        | [] => []
        | [only] => [only]
        | first :: rest => first :: '.' :: rest) ++ 'e' :: exponentText lead
    else if 0 ≤ d.exponent then
      ds ++ List.replicate d.exponent.toNat '0' ++ ['.', '0']
    else if 0 ≤ lead then
      ds.take (lead.toNat + 1) ++ '.' :: ds.drop (lead.toNat + 1)
    else
      '0' :: '.' :: (List.replicate (-lead - 1).toNat '0' ++ ds)
  if d.negative then '-' :: magnitude else magnitude

end Decimal

end RoleComposition
