import RoleComposition.Text.Hex
import RoleComposition.Toml

/-!
# Scalars of TOML

Integers, decimals, truth values and moments in time are told by their spelling. `Kind.ofToken?`
says which one a token spells, if any: digits may have single underscores between them, integers
have 64 bits, and days and times exist.
-/

namespace RoleComposition.Toml

/-- Digits with single underscores between them, without the underscores. -/
def grouped (isDigit : Char → Bool) : List Char → Option (List Char)
  | [] => none
  | [c] => if isDigit c then some [c] else none
  | c :: '_' :: rest => if isDigit c then (grouped isDigit rest).map (c :: ·) else none
  | c :: rest => if isDigit c then (grouped isDigit rest).map (c :: ·) else none

/-- Decimal digits with underscores. -/
def decimals : List Char → Option (List Char) := grouped Char.isDigit

/-- The number that decimal digits stand for. -/
def decimalNumber (cs : List Char) : Nat :=
  cs.foldl (fun n c => n * 10 + (c.toNat - '0'.toNat)) 0

/-- Decimal digits of which the first is no zero, unless it is the only one. -/
def whole (cs : List Char) : Option (List Char) :=
  if cs.head? = some '0' ∧ cs ≠ ['0'] then none else decimals cs

/-- The sign in front of a token, and the rest. -/
def splitSign : List Char → Bool × List Char
  | '-' :: rest => (true, rest)
  | '+' :: rest => (false, rest)
  | rest => (false, rest)

/-- The token spells a number of the given base below `2 ^ 63`. -/
def isBased (base : Nat) (digits : List Char) : Bool :=
  match grouped (fun c => (Text.hexValue? c).any (· < base)) digits with
  | some ds => ds.foldl (fun n c => n * base + (Text.hexValue? c).getD 0) 0 < Nat.pow 2 63
  | none => false

/-- The token spells an integer of 64 bits. -/
def isInteger : List Char → Bool
  | '0' :: 'x' :: digits => isBased 16 digits
  | '0' :: 'o' :: digits => isBased 8 digits
  | '0' :: 'b' :: digits => isBased 2 digits
  | token =>
    let (negative, digits) := splitSign token
    match whole digits with
    | some ds => decimalNumber ds < Nat.pow 2 63 + (if negative then 1 else 0)
    | none => false

/-- The least number that no finite binary number of 64 bits is nearest to. -/
def overflowBound : Nat := Nat.pow 2 1024 - Nat.pow 2 970

/-- The number `digits · 10 ^ power` is `overflowBound` at least. -/
def overflows (digits : List Char) (power : Int) : Bool :=
  let significant := digits.dropWhile (· == '0')
  let lead : Int := significant.length + power
  if significant.isEmpty ∨ lead < 309 then false
  else if 309 < lead then true
  else overflowBound * Nat.pow 10 (-power).toNat ≤ decimalNumber significant * Nat.pow 10 power.toNat

/-- The exponent after its mark; without a mark it is zero. -/
def readPower : List Char → Option Int
  | [] => some 0
  | _ :: rest => do
    let (down, digits) := splitSign rest
    let n := decimalNumber (← decimals digits)
    return if down then -n else n

/-- The token spells a decimal, with a point or an exponent. A positive one must not overflow. -/
def isNumeral (token : List Char) : Bool :=
  let (negative, token) := splitSign token
  let isMark (c : Char) : Bool := c == 'e' || c == 'E'
  let (digits, rest) := token.span fun c => c != '.' && !isMark c
  let parts : Option (List Char × List Char) :=
    match rest with
    | [] => none
    | '.' :: rest =>
      let (fraction, mark) := rest.span fun c => !isMark c
      (decimals fraction).map fun ds => (ds, mark)
    | mark => some ([], mark)
  match whole digits, parts with
  | some ds, some (fraction, mark) =>
    match readPower mark with
    | some power => negative || !overflows (ds ++ fraction) (power - fraction.length)
    | none => false
  | _, _ => false

/-- The token spells an endless number or none at all. -/
def isSpecial (token : List Char) : Bool :=
  let (_, word) := splitSign token
  word == ['i', 'n', 'f'] || word == ['n', 'a', 'n']

/-- A number of exactly so many digits, and the rest. -/
def readDigits (count : Nat) (cs : List Char) : Option (Nat × List Char) :=
  let digits := cs.take count
  if digits.length = count ∧ digits.all Char.isDigit then
    some (decimalNumber digits, cs.drop count)
  else none

/-- What follows a character. -/
def after (c : Char) : List Char → Option (List Char)
  | d :: rest => if c = d then some rest else none
  | [] => none

/-- The year has a 29th of February. -/
def isLeap (year : Nat) : Bool := year % 4 == 0 && (year % 100 != 0 || year % 400 == 0)

/-- The number of days of a month. -/
def daysIn (year month : Nat) : Nat :=
  if month = 2 then (if isLeap year then 29 else 28)
  else if month ∈ [4, 6, 9, 11] then 30
  else 31

/-- What follows a day of the calendar. -/
def afterDate (cs : List Char) : Option (List Char) := do
  let (year, cs) ← readDigits 4 cs
  let (month, cs) ← readDigits 2 (← after '-' cs)
  let (day, cs) ← readDigits 2 (← after '-' cs)
  if 1 ≤ month ∧ month ≤ 12 ∧ 1 ≤ day ∧ day ≤ daysIn year month then some cs else none

/-- What follows hours and minutes. -/
def afterClock (cs : List Char) : Option (List Char) := do
  let (hour, cs) ← readDigits 2 cs
  let (minute, cs) ← readDigits 2 (← after ':' cs)
  if hour ≤ 23 ∧ minute ≤ 59 then some cs else none

/-- What follows a time of day, with seconds and perhaps a fraction. -/
def afterTime (cs : List Char) : Option (List Char) := do
  let (second, cs) ← readDigits 2 (← after ':' (← afterClock cs))
  if 60 < second then none
  else
    match cs with
    | '.' :: rest =>
      let (fraction, rest) := rest.span Char.isDigit
      if fraction.isEmpty then none else some rest
    | cs => some cs

/-- The token spells a time zone, or nothing. -/
def isOffset : List Char → Bool
  | [] => true
  | [c] => c == 'Z' || c == 'z'
  | c :: rest => (c == '+' || c == '-') && afterClock rest == some []

/-- The token spells a day, a time of day, or both. -/
def isMoment (token : List Char) : Bool :=
  match afterDate token with
  | some [] => true
  | some (c :: rest) =>
    (c == 'T' || c == 't' || c == ' ') && (afterTime rest).any isOffset
  | none => afterTime token == some []

/-- The kind of scalar that a token spells. -/
def Kind.ofToken? (token : List Char) : Option Kind :=
  if token = ['t', 'r', 'u', 'e'] ∨ token = ['f', 'a', 'l', 's', 'e'] then some .truth
  else if isInteger token then some .integer
  else if isNumeral token || isSpecial token then some .decimal
  else if isMoment token then some .moment
  else none

/-- What ends a token. -/
def endsToken (c : Char) : Bool :=
  c == ' ' || c == '\t' || c == '\n' || c == '\r' || c == ',' || c == ']' || c == '\x7d' || c == '#'

/-- The token at the start of a text. A day and the time after it may have a blank between
them. -/
def takeToken (cs : List Char) : List Char × List Char :=
  match cs.span (!endsToken ·) with
  | (token, ' ' :: c :: rest) =>
    if afterDate token = some [] ∧ c.isDigit then
      let (time, rest) := (c :: rest).span (!endsToken ·)
      (token ++ ' ' :: time, rest)
    else (token, ' ' :: c :: rest)
  | parts => parts

/-- The scalar at the start of a text, and the rest. -/
def readScalar (cs : List Char) : Option (Toml × List Char) := do
  let (token, rest) := takeToken cs
  return (.scalar (← Kind.ofToken? token), rest)

end RoleComposition.Toml
