import RoleComposition.Decimal

/-!
# JSON values

The values of JSON with two kinds of number, integers of 64 bits and decimals that stand for binary
numbers, and their two written forms: without any blank, and with each item on a line of its own.
-/

namespace RoleComposition

/-- A number of a JSON text. -/
inductive Number where
  | integer (value : Int)
  | decimal (value : Decimal)
deriving DecidableEq, Repr

/-- A JSON value. The members of an object keep their order. -/
inductive Json where
  | null
  | bool (value : Bool)
  | number (value : Number)
  | text (value : String)
  | array (items : List Json)
  | object (members : List (String × Json))
deriving Inhabited, Repr

namespace Json

/-- The value of an object's last member with that name. -/
def field? (name : String) : Json → Option Json
  | object members => (members.reverse.find? fun m => m.1 == name).map Prod.snd
  | _ => none

/-- The number `n` as a value. -/
def ofNat (n : Nat) : Json := number (.integer n)

/-- A list of texts as a value. -/
def ofTexts (texts : List String) : Json := array (texts.map text)

/-- What `null` stands for when there is nothing. -/
def ofOption {α : Type} (f : α → Json) : Option α → Json
  | none => null
  | some a => f a

/-- The written form of a number. -/
def numberText : Number → List Char
  | .integer i => if i < 0 then '-' :: Decimal.digits i.natAbs else Decimal.digits i.natAbs
  | .decimal d => d.text

/-- One hexadecimal digit of a control character's escape. -/
def hexDigit (n : Nat) : Char := Nat.digitChar n

/-- A character as it stands in a written text. -/
def escapeChar (c : Char) : List Char :=
  if c = '"' then ['\\', '"']
  else if c = '\\' then ['\\', '\\']
  else if c = '\x08' then ['\\', 'b']
  else if c = '\t' then ['\\', 't']
  else if c = '\n' then ['\\', 'n']
  else if c = '\x0c' then ['\\', 'f']
  else if c = '\r' then ['\\', 'r']
  else if c.toNat < 0x20 then
    ['\\', 'u', '0', '0', hexDigit (c.toNat / 16), hexDigit (c.toNat % 16)]
  else [c]

/-- A text between quotes. -/
def quote (s : String) : List Char := '"' :: s.toList.flatMap escapeChar ++ ['"']

mutual

/-- The written form without blanks. -/
def compact : Json → List Char
  | null => ['n', 'u', 'l', 'l']
  | bool true => ['t', 'r', 'u', 'e']
  | bool false => ['f', 'a', 'l', 's', 'e']
  | number n => numberText n
  | text s => quote s
  | array [] => ['[', ']']
  | array (item :: items) => '[' :: compact item ++ compactItems items
  | object [] => ['\x7b', '\x7d']
  | object ((key, value) :: members) =>
    '\x7b' :: quote key ++ ':' :: compact value ++ compactMembers members

/-- The items after the first one, with the bracket that ends them. -/
def compactItems : List Json → List Char
  | [] => [']']
  | item :: items => ',' :: compact item ++ compactItems items

/-- The members after the first one, with the brace that ends them. -/
def compactMembers : List (String × Json) → List Char
  | [] => ['\x7d']
  | (key, value) :: members =>
    ',' :: quote key ++ ':' :: compact value ++ compactMembers members

end

/-- The start of a line at a depth of nesting: two blanks for each level. -/
def lineStart (depth : Nat) : List Char := '\n' :: List.replicate (2 * depth) ' '

mutual

/-- The written form on several lines, for a value that stands at a depth of nesting. -/
def prettyAt (depth : Nat) : Json → List Char
  | null => ['n', 'u', 'l', 'l']
  | bool true => ['t', 'r', 'u', 'e']
  | bool false => ['f', 'a', 'l', 's', 'e']
  | number n => numberText n
  | text s => quote s
  | array [] => ['[', ']']
  | array (item :: items) =>
    '[' :: lineStart (depth + 1) ++ prettyAt (depth + 1) item ++ prettyItems depth items
  | object [] => ['\x7b', '\x7d']
  | object ((key, value) :: members) =>
    '\x7b' :: lineStart (depth + 1) ++ quote key ++ ':' :: ' ' :: prettyAt (depth + 1) value ++
      prettyMembers depth members

/-- The items after the first one of an array at a depth, with the bracket that ends them. -/
def prettyItems (depth : Nat) : List Json → List Char
  | [] => lineStart depth ++ [']']
  | item :: items =>
    ',' :: lineStart (depth + 1) ++ prettyAt (depth + 1) item ++ prettyItems depth items

/-- The members after the first one of an object at a depth, with the brace that ends them. -/
def prettyMembers (depth : Nat) : List (String × Json) → List Char
  | [] => lineStart depth ++ ['\x7d']
  | (key, value) :: members =>
    ',' :: lineStart (depth + 1) ++ quote key ++ ':' :: ' ' :: prettyAt (depth + 1) value ++
      prettyMembers depth members

end

/-- The text without blanks. -/
def toText (j : Json) : String := String.ofList (compact j)

/-- The text on several lines. -/
def toPrettyText (j : Json) : String := String.ofList (prettyAt 0 j)

end Json

end RoleComposition
