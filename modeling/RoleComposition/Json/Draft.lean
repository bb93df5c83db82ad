import RoleComposition.Json.Numeral
import RoleComposition.Text.Hex

/-!
# Drafts: what a JSON text says up to its first fault

A text is read into a draft, which keeps everything that stands before the first fault of
grammar. So a reader that wants a certain shape finds the first thing that does not fit, whether
it is a value of the wrong kind or a fault of grammar, in the order of the text. Two faults count
only where a value is used, not where it is passed over: a number without a value, and half of a
surrogate pair.
-/

namespace RoleComposition.Json

/-- A JSON value as far as it could be read. An array is `closed` when its bracket was found, and
an object when its brace was. -/
inductive Draft where
  | null
  | bool (value : Bool)
  | number (value : Option Number)
  | text (value : Option String)
  | array (items : List Draft) (closed : Bool)
  | object (members : List (Option String × Draft)) (closed : Bool)
  | broken
deriving Inhabited

namespace Draft

/-- The value was read to its end. -/
def isWhole : Draft → Bool
  | array _ closed | object _ closed => closed
  | broken => false
  | _ => true

/-- The four characters that JSON lets stand between tokens. -/
def isSpace (c : Char) : Bool := c == ' ' || c == '\t' || c == '\n' || c == '\r'

/-- The text from its first token on. -/
def skipSpace (cs : List Char) : List Char := cs.dropWhile isSpace

/-- The value of four hexadecimal digits, and the rest. -/
def readUnit : List Char → Option (Nat × List Char)
  | a :: b :: c :: d :: rest => (Text.hexNumber? [a, b, c, d]).map fun n => (n, rest)
  | _ => none

/-- A unit that opens a surrogate pair. -/
def isHighUnit (n : Nat) : Bool := 0xD800 ≤ n && n < 0xDC00

/-- A unit that ends a surrogate pair. -/
def isLowUnit (n : Nat) : Bool := 0xDC00 ≤ n && n < 0xE000

/-- The character that an escape after the backslash stands for, and the rest. The character is
missing for half of a surrogate pair, and everything is for an escape that does not exist. -/
def readEscape : List Char → Option (Option Char × List Char)
  | '"' :: rest => some (some '"', rest)
  | '\\' :: rest => some (some '\\', rest)
  | '/' :: rest => some (some '/', rest)
  | 'b' :: rest => some (some '\x08', rest)
  | 'f' :: rest => some (some '\x0c', rest)
  | 'n' :: rest => some (some '\n', rest)
  | 'r' :: rest => some (some '\r', rest)
  | 't' :: rest => some (some '\t', rest)
  | 'u' :: rest => do
    let (unit, rest) ← readUnit rest
    if isLowUnit unit then return (none, rest)
    if !isHighUnit unit then return (some (Char.ofNat unit), rest)
    match rest with
    | '\\' :: 'u' :: second => do
      let (low, after) ← readUnit second
      if isLowUnit low then
        return (some (Char.ofNat ((unit - 0xD800) * 0x400 + (low - 0xDC00) + 0x10000)), after)
      else return (none, rest)
    | _ => return (none, rest)
  | _ => none

/-- The rest of a text after its opening quote: its characters, unless one of them is half of a
surrogate pair, and what follows the closing quote. Each step takes a character of the text. -/
def readText : Nat → List Char → Option (Option (List Char) × List Char)
  | _, '"' :: rest => some (some [], rest)
  | steps + 1, '\\' :: rest => do
    let (c, rest) ← readEscape rest
    let (cs, rest) ← readText steps rest
    return (c.bind fun c => cs.map (c :: ·), rest)
  | steps + 1, c :: rest =>
    if c.toNat < 0x20 then none
    else do
      let (cs, rest) ← readText steps rest
      return (cs.map (c :: ·), rest)
  | _, _ => none

/-- The rest of the text when it begins with a word. -/
def afterWord (word : List Char) (cs : List Char) : Option (List Char) :=
  if word.isPrefixOf cs then some (cs.drop word.length) else none

mutual

/-- The value at the start of a text, and the rest of the text if the value is whole. -/
def readValue : Nat → List Char → Draft × Option (List Char)
  | 0, _ => (.broken, none)
  | steps + 1, cs =>
    match cs with
    | 'n' :: rest =>
      match afterWord ['u', 'l', 'l'] rest with
      | some rest => (.null, some rest)
      | none => (.broken, none)
    | 't' :: rest =>
      match afterWord ['r', 'u', 'e'] rest with
      | some rest => (.bool true, some rest)
      | none => (.broken, none)
    | 'f' :: rest =>
      match afterWord ['a', 'l', 's', 'e'] rest with
      | some rest => (.bool false, some rest)
      | none => (.broken, none)
    | '"' :: rest =>
      match readText rest.length rest with
      | some (chars, rest) => (.text (chars.map String.ofList), some rest)
      | none => (.broken, none)
    | '[' :: rest =>
      match skipSpace rest with
      | ']' :: rest => (.array [] true, some rest)
      | rest =>
        let (items, rest) := readItems steps rest
        (.array items rest.isSome, rest)
    | '\x7b' :: rest =>
      match skipSpace rest with
      | '\x7d' :: rest => (.object [] true, some rest)
      | rest =>
        let (members, rest) := readMembers steps rest
        (.object members rest.isSome, rest)
    | cs =>
      match Numeral.read cs with
      | some (numeral, rest) => (.number numeral.value, some rest)
      | none => (.broken, none)

/-- The items of an array from the next one on, and what follows the bracket. -/
def readItems : Nat → List Char → List Draft × Option (List Char)
  | 0, _ => ([.broken], none)
  | steps + 1, cs =>
    match readValue steps cs with
    | (item, none) => ([item], none)
    | (item, some rest) =>
      match skipSpace rest with
      | ']' :: rest => ([item], some rest)
      | ',' :: rest =>
        let (items, rest) := readItems steps (skipSpace rest)
        (item :: items, rest)
      | _ => ([item], none)

/-- The members of an object from the next one on, and what follows the brace. A key is a text. -/
def readMembers : Nat → List Char → List (Option String × Draft) × Option (List Char)
  | 0, _ => ([], none)
  | steps + 1, '"' :: cs =>
    match readText cs.length cs with
    | none => ([], none)
    | some (chars, rest) =>
      let key := chars.map String.ofList
      match skipSpace rest with
      | ':' :: rest =>
        match readValue steps (skipSpace rest) with
        | (value, none) => ([(key, value)], none)
        | (value, some rest) =>
          match skipSpace rest with
          | '\x7d' :: rest => ([(key, value)], some rest)
          | ',' :: rest =>
            let (members, rest) := readMembers steps (skipSpace rest)
            ((key, value) :: members, rest)
          | _ => ([(key, value)], none)
      | _ => ([(key, .broken)], none)
  | _, _ => ([], none)

end

/-- The draft of a whole text, and whether nothing but spaces follows the value. -/
def ofText (s : String) : Draft × Bool :=
  let cs := skipSpace s.toList
  match readValue (2 * cs.length + 2) cs with
  | (draft, some rest) => (draft, (skipSpace rest).isEmpty)
  | (draft, none) => (draft, true)

mutual

/-- The value of a draft in which everything is used: it is whole, its numbers have values, its
texts no halves of surrogate pairs, and fewer than `depth` brackets and braces enclose any part. -/
def toJson? : Nat → Draft → Option Json
  | _, null => some .null
  | _, bool value => some (.bool value)
  | _, number value => value.map .number
  | _, text value => value.map .text
  | depth + 1, array items true => (itemsToJson? depth items).map .array
  | depth + 1, object members true => (membersToJson? depth members).map .object
  | _, _ => none

/-- The values of an array's items. -/
def itemsToJson? : Nat → List Draft → Option (List Json)
  | _, [] => some []
  | depth, item :: items => do
    let value ← toJson? depth item
    let values ← itemsToJson? depth items
    return value :: values

/-- The members of an object with their values. -/
def membersToJson? : Nat → List (Option String × Draft) → Option (List (String × Json))
  | _, [] => some []
  | depth, (key, item) :: members => do
    let key ← key
    let value ← toJson? depth item
    let rest ← membersToJson? depth members
    return (key, value) :: rest

end

/-- The nesting that is too deep for a value in which everything is used. -/
def maxDepth : Nat := 127

end Draft

/-- The JSON value that a text stands for. -/
def ofText? (s : String) : Option Json :=
  match Draft.ofText s with
  | (draft, true) => draft.toJson? Draft.maxDepth
  | (_, false) => none

end RoleComposition.Json
