import RoleComposition.Json

/-!
# Numerals

How a numeral of a JSON text becomes a number. The digits are gathered into a significand of 64
bits, and those that no longer fit only move the point. A numeral without point and exponent is an
integer when 64 bits hold it, with or without a sign. Any other is a binary number: the
significand, rounded, times or divided by the rounded power of ten. It has no value beyond the
largest binary number.
-/

namespace RoleComposition.Json

/-- A numeral split into its parts. -/
structure Numeral where
  negative : Bool
  whole : List Char
  fraction : Option (List Char)
  exponent : Option (Bool × List Char)

namespace Numeral

/-- The largest significand. -/
def maxSignificand : Nat := Nat.pow 2 64 - 1

/-- The largest exponent that is kept apart from an endless one. -/
def maxExponent : Nat := Nat.pow 2 31 - 1

/-- The value of a decimal digit. -/
def digitValue (c : Char) : Nat := c.toNat - '0'.toNat

/-- Gathers digits as long as the significand has room; the digits left over come second. -/
def gather (significand : Nat) : List Char → Nat × List Char
  | [] => (significand, [])
  | c :: cs =>
    let next := significand * 10 + digitValue c
    if maxSignificand < next then (significand, c :: cs) else gather next cs

/-- The value of an exponent's digits, if it is not endless. -/
def exponentValue (digits : List Char) : Option Nat :=
  digits.foldl
    (fun value c => value.bind fun v =>
      let next := v * 10 + digitValue c
      if maxExponent < next then none else some next)
    (some 0)

/-- The binary number nearest to `10 ^ n`, for `n` up to 308. -/
def powerOfTen (n : Nat) : Float := Float.ofScientific 1 false n

/-- `x` divided by `10 ^ n`, in steps of at most 308 places; four steps leave nothing of any
significand. -/
def divideByPower (x : Float) (n : Nat) : Nat → Float
  | 0 => 0
  | steps + 1 =>
    if n ≤ 308 then x / powerOfTen n
    else if x == 0 then x
    else divideByPower (x / powerOfTen 308) (n - 308) steps

/-- The binary number of a significand and a power of ten, if there is one. -/
def binary (negative : Bool) (significand : Nat) (power : Int) : Option Number :=
  let x := significand.toFloat
  let signed (y : Float) := some (Number.decimal (Decimal.ofFloat (if negative then -y else y)))
  if power < 0 then signed (divideByPower x power.natAbs 4)
  else if significand = 0 then signed 0
  else if 308 < power then none
  else
    let y := x * powerOfTen power.toNat
    if y.isInf then none else signed y

/-- The number that an integral numeral of 64 bits stands for. Minus zero is no integer. -/
def integral (negative : Bool) (significand : Nat) : Option Number :=
  if !negative then some (.integer significand)
  else if 0 < significand ∧ significand ≤ Nat.pow 2 63 then some (.integer (-significand))
  else binary true significand 0

/-- The number that a numeral stands for. -/
def value (n : Numeral) : Option Number :=
  let (significand, dropped) := gather 0 n.whole
  if dropped.isEmpty ∧ n.fraction.isNone ∧ n.exponent.isNone then
    integral n.negative significand
  else
    let places := n.fraction.getD []
    let (significand, unread) := gather significand places
    let start : Int := dropped.length - (places.length - unread.length)
    match n.exponent with
    | none => binary n.negative significand start
    | some (down, digits) =>
      match exponentValue digits with
      | some e => binary n.negative significand (if down then start - e else start + e)
      | none => if significand ≠ 0 ∧ !down then none else binary n.negative 0 0

/-- The digits at the start of a text, and the rest. -/
def digits (cs : List Char) : List Char × List Char := cs.span Char.isDigit

/-- The exponent at the start of a text, if one stands there; a mark without digits is a fault. -/
def readExponent : List Char → Option (Option (Bool × List Char) × List Char)
  | c :: cs =>
    if c = 'e' ∨ c = 'E' then
      let (down, cs) :=
        match cs with
        | '+' :: rest => (false, rest)
        | '-' :: rest => (true, rest)
        | rest => (false, rest)
      match digits cs with
      | ([], _) => none
      | (ds, rest) => some (some (down, ds), rest)
    else some (none, c :: cs)
  | [] => some (none, [])

/-- The fraction at the start of a text, if one stands there; a point without digits is a fault. -/
def readFraction : List Char → Option (Option (List Char) × List Char)
  | '.' :: cs =>
    match digits cs with
    | ([], _) => none
    | (ds, rest) => some (some ds, rest)
  | cs => some (none, cs)

/-- The digits before the point: a zero stands alone. -/
def readWhole (cs : List Char) : Option (List Char × List Char) :=
  match digits cs with
  | ([], _) => none
  | ('0' :: _ :: _, _) => none
  | parts => some parts

/-- The numeral at the start of a text, and the rest. -/
def read (cs : List Char) : Option (Numeral × List Char) := do
  let (negative, cs) :=
    match cs with
    | '-' :: rest => (true, rest)
    | rest => (false, rest)
  let (whole, cs) ← readWhole cs
  let (fraction, cs) ← readFraction cs
  let (exponent, cs) ← readExponent cs
  return (⟨negative, whole, fraction, exponent⟩, cs)

end Numeral

end RoleComposition.Json
