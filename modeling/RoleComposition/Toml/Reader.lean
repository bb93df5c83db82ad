import RoleComposition.Toml.Quoted
import RoleComposition.Toml.Scalar

/-!
# Reading TOML

A text is read line by line: a header, an assignment, or nothing but a comment. Values may nest,
and keys may have parts, up to a depth.
-/

namespace RoleComposition.Toml

/-- Values nest less deep than this, and keys have fewer parts. -/
def maxDepth : Nat := 80

/-- What follows the blanks. -/
def skipBlanks (cs : List Char) : List Char := cs.dropWhile isBlank

/-- What follows a comment, up to the end of its line. -/
def skipComment : List Char → List Char
  | '#' :: rest => rest.dropWhile isPlain
  | cs => cs

/-- What follows the rest of a line that has nothing more to say. -/
def afterLine (cs : List Char) : Option (List Char) :=
  match skipComment (skipBlanks cs) with
  | [] => some []
  | rest => afterBreak rest

/-- What follows blanks, line breaks and whole lines of comments. -/
def skipSpace : Nat → List Char → Option (List Char)
  | 0, cs => some cs
  | steps + 1, cs =>
    match skipLines cs with
    | '#' :: rest => do skipSpace steps (← afterBreak (rest.dropWhile isPlain))
    | rest => some rest

/-- A character of a key without quotes. -/
def isBare (c : Char) : Bool := c.isAlphanum || c == '_' || c == '-'

/-- One part of a key. -/
def readPart : List Char → Option (String × List Char)
  | '"' :: rest => (readEscaped rest.length rest).map fun (cs, rest) => (String.ofList cs, rest)
  | '\'' :: rest => (readLiteral rest).map fun (cs, rest) => (String.ofList cs, rest)
  | cs =>
    match cs.span isBare with
    | ([], _) => none
    | (part, rest) => some (String.ofList part, rest)

/-- A key with its path, and what follows it and its blanks. Each step takes a part. -/
def readParts : Nat → List Char → Option ((List String × String) × List Char)
  | 0, _ => none
  | steps + 1, cs => do
    let (part, rest) ← readPart (skipBlanks cs)
    match skipBlanks rest with
    | '.' :: rest =>
      let ((path, name), rest) ← readParts steps rest
      return ((part :: path, name), rest)
    | rest => return (([], part), rest)

/-- A key with its path. -/
def readKey (cs : List Char) : Option ((List String × String) × List Char) :=
  readParts (maxDepth - 1) cs

mutual

/-- The value at the start of a text. Up to `depth` brackets and braces may nest, and each step
opens or goes on with one of them. -/
def readValue (depth : Nat) : Nat → List Char → Option (Toml × List Char)
  | 0, _ => none
  | steps + 1, cs =>
    match cs with
    | '"' :: '"' :: '"' :: rest => do
      let (chars, rest) ← readLines '"' rest
      return (.text (String.ofList chars), rest)
    | '\'' :: '\'' :: '\'' :: rest => do
      let (chars, rest) ← readLines '\'' rest
      return (.text (String.ofList chars), rest)
    | '"' :: rest => do
      let (chars, rest) ← readEscaped rest.length rest
      return (.text (String.ofList chars), rest)
    | '\'' :: rest => do
      let (chars, rest) ← readLiteral rest
      return (.text (String.ofList chars), rest)
    | '[' :: rest =>
      if depth = 0 then none
      else do
        let (items, rest) ← readItems (depth - 1) steps rest
        return (.array items, rest)
    | '\x7b' :: rest =>
      if depth = 0 then none
      else
        match skipBlanks rest with
        | '\x7d' :: rest => some (.table [], rest)
        | rest => do
          let (assignments, rest) ← readPairs (depth - 1) steps rest
          let members ← Members.ofAssignments assignments
          return (.table (finishMembers members), rest)
    | cs => readScalar cs

/-- The items of an array up to its bracket; a comma may follow the last one. -/
def readItems (depth : Nat) : Nat → List Char → Option (List Toml × List Char)
  | 0, _ => none
  | steps + 1, cs => do
    match ← skipSpace cs.length cs with
    | ']' :: rest => return ([], rest)
    | rest =>
      let (item, rest) ← readValue depth steps rest
      match ← skipSpace rest.length rest with
      | ',' :: rest =>
        let (items, rest) ← readItems depth steps rest
        return (item :: items, rest)
      | ']' :: rest => return ([item], rest)
      | _ => none

/-- The assignments of a table between braces, of which there is one at least, up to its brace. -/
def readPairs (depth : Nat) :
    Nat → List Char → Option (List ((List String × String) × Toml) × List Char)
  | 0, _ => none
  | steps + 1, cs => do
    let (key, rest) ← readKey cs
    let (value, rest) ← readValue depth steps (skipBlanks (← after '=' rest))
    match skipBlanks rest with
    | ',' :: rest =>
      let (pairs, rest) ← readPairs depth steps rest
      return ((key, value) :: pairs, rest)
    | '\x7d' :: rest => return ([(key, value)], rest)
    | _ => none

end

namespace Document

/-- Takes in one line. -/
def readLine (d : Document) (cs : List Char) : Option (Document × List Char) := do
  match skipBlanks cs with
  | '[' :: '[' :: rest =>
    let ((path, name), rest) ← readKey rest
    let rest ← afterLine (← after ']' (← after ']' rest))
    return (← d.openNext path name, rest)
  | '[' :: rest =>
    let ((path, name), rest) ← readKey rest
    let rest ← afterLine (← after ']' rest)
    return (← d.openTable path name, rest)
  | rest =>
    match afterLine rest with
    | some rest => return (d, rest)
    | none =>
      let ((path, name), rest) ← readKey rest
      let value := skipBlanks (← after '=' rest)
      let (value, rest) ← readValue (maxDepth - 1) (2 * value.length + 2) value
      return (← d.assign path name value, ← afterLine rest)

/-- Takes in all lines; each step takes one. -/
def readLines : Nat → Document → List Char → Option Document
  | _, d, [] => some d
  | 0, _, _ :: _ => none
  | steps + 1, d, cs => do
    let (d, rest) ← d.readLine cs
    readLines steps d rest

end Document

/-- The mark of the order of bytes that may stand before a text. -/
def byteOrderMark : Char := '\uFEFF'

/-- The value that a TOML text stands for. -/
def ofText? (s : String) : Option Toml :=
  let cs := s.toList
  let cs := if cs.head? = some byteOrderMark then cs.drop 1 else cs
  (Document.readLines cs.length {} cs).map Document.finish

end RoleComposition.Toml
