import RoleComposition.Text.Hex

/-!
# Quoted texts of TOML

A text stands between double quotes, with escapes, or between single quotes, without; and between
one quote on either side, on one line, or three, on as many lines as it takes. Each reader takes
what follows the opening quotes and gives back the text and the rest.
-/

namespace RoleComposition.Toml

/-- A character that may stand in a text or a comment. -/
def isPlain (c : Char) : Bool := c == '\t' || (0x20 ≤ c.toNat && c.toNat != 0x7F)

/-- What may stand between the tokens of a line. -/
def isBlank (c : Char) : Bool := c == ' ' || c == '\t'

/-- What follows a line break. -/
def afterBreak : List Char → Option (List Char)
  | '\n' :: rest => some rest
  | '\r' :: '\n' :: rest => some rest
  | _ => none

/-- What follows all blanks and line breaks. -/
def skipLines : List Char → List Char
  | ' ' :: rest => skipLines rest
  | '\t' :: rest => skipLines rest
  | '\n' :: rest => skipLines rest
  | '\r' :: '\n' :: rest => skipLines rest
  | rest => rest

/-- What follows the end of a line, all blanks and line breaks included. -/
def afterFold (cs : List Char) : Option (List Char) :=
  (afterBreak (cs.dropWhile isBlank)).map skipLines

/-- The character with the code point that the next digits give. -/
def readCode (count : Nat) (cs : List Char) : Option (Char × List Char) := do
  let digits := cs.take count
  let code ← Text.hexNumber? digits
  if digits.length = count ∧ code.isValidChar then some (Char.ofNat code, cs.drop count) else none

/-- The character that an escape after the backslash stands for. -/
def readEscape : List Char → Option (Char × List Char)
  | 'b' :: rest => some ('\x08', rest)
  | 't' :: rest => some ('\t', rest)
  | 'n' :: rest => some ('\n', rest)
  | 'f' :: rest => some ('\x0c', rest)
  | 'r' :: rest => some ('\r', rest)
  | '"' :: rest => some ('"', rest)
  | '\\' :: rest => some ('\\', rest)
  | 'u' :: rest => readCode 4 rest
  | 'U' :: rest => readCode 8 rest
  | _ => none

/-- A text of one line between double quotes. Each step takes a character. -/
def readEscaped : Nat → List Char → Option (List Char × List Char)
  | _, '"' :: rest => some ([], rest)
  | steps + 1, '\\' :: rest => do
    let (c, rest) ← readEscape rest
    let (cs, rest) ← readEscaped steps rest
    return (c :: cs, rest)
  | steps + 1, c :: rest =>
    if isPlain c then do
      let (cs, rest) ← readEscaped steps rest
      return (c :: cs, rest)
    else none
  | _, _ => none

/-- A text of one line between single quotes. -/
def readLiteral (cs : List Char) : Option (List Char × List Char) :=
  match cs.span fun c => c != '\'' && isPlain c with
  | (chars, '\'' :: rest) => some (chars, rest)
  | _ => none

/-- A text of several lines between three quotes. Up to two more quotes may stand before the
closing ones, and a backslash at the end of a line joins the lines. Each step takes a
character. -/
def readBlock (quote : Char) : Nat → List Char → Option (List Char × List Char)
  | 0, _ => none
  | steps + 1, cs =>
    let quotes := min 5 (cs.takeWhile (· == quote)).length
    if 3 ≤ quotes then some (List.replicate (quotes - 3) quote, cs.drop quotes)
    else
      match afterBreak cs, cs with
      | some rest, _ => do
        let (chars, rest) ← readBlock quote steps rest
        return ('\n' :: chars, rest)
      | none, [] => none
      | none, c :: rest =>
        if quote = '"' ∧ c = '\\' then
          match afterFold rest with
          | some rest => readBlock quote steps rest
          | none => do
            let (c, rest) ← readEscape rest
            let (chars, rest) ← readBlock quote steps rest
            return (c :: chars, rest)
        else if isPlain c then do
          let (chars, rest) ← readBlock quote steps rest
          return (c :: chars, rest)
        else none

/-- A text of several lines. A line break right after the opening quotes does not count. -/
def readLines (quote : Char) (cs : List Char) : Option (List Char × List Char) :=
  readBlock quote (cs.length + 1) ((afterBreak cs).getD cs)

end RoleComposition.Toml
