/-
# JSON documents

A document with its members in a fixed order, and two ways to write it: compactly,
without any blanks, and indented, one entry to a line. Numbers are either counts or
doubles, which `Number.json` lays out.
-/

import LoxLang.Number.Text

namespace LoxLang

/-- A JSON document. -/
inductive Json
  | null
  | bool (value : Bool)
  | count (value : Nat)
  | number (value : Float)
  | string (contents : String)
  | array (items : List Json)
  | object (members : List (String × Json))

namespace Json

/-- The four lower-case hexadecimal digits of a control character's code. -/
def hexCode (c : Char) : List Char :=
  ['0', '0', Nat.digitChar (c.toNat / 16), Nat.digitChar (c.toNat % 16)]

/-- How a character is written inside a string: quotes, backslashes and control
characters are escaped, all others stand for themselves. -/
def escape (c : Char) : List Char :=
  match c with
  | '"' => ['\\', '"']
  | '\\' => ['\\', '\\']
  | '\n' => ['\\', 'n']
  | '\r' => ['\\', 'r']
  | '\t' => ['\\', 't']
  | _ =>
    if c.toNat = 8 then ['\\', 'b']
    else if c.toNat = 12 then ['\\', 'f']
    else if c.toNat < 32 then '\\' :: 'u' :: hexCode c
    else [c]

/-- A string in quotes. -/
def quote (contents : String) : String :=
  String.ofList ('"' :: (contents.toList.flatMap escape ++ ['"']))

mutual

/-- The document without any blanks between its parts. -/
def compact : Json → String
  | .null => "null"
  | .bool value => if value then "true" else "false"
  | .count value => toString value
  | .number value => Number.json value
  | .string contents => quote contents
  | .array items => "[" ++ compactItems items ++ "]"
  | .object members => "\x7b" ++ compactMembers members ++ "\x7d"

/-- The entries of an array, with commas between them. -/
def compactItems : List Json → String
  | [] => ""
  | [item] => compact item
  | item :: items => compact item ++ "," ++ compactItems items

/-- The members of an object, with commas between them. -/
def compactMembers : List (String × Json) → String
  | [] => ""
  | [(name, value)] => quote name ++ ":" ++ compact value
  | (name, value) :: members =>
    quote name ++ ":" ++ compact value ++ "," ++ compactMembers members

end

/-- The start of a line at the given depth, two blanks to a level. -/
def newline (depth : Nat) : String :=
  String.ofList ('\n' :: List.replicate (2 * depth) ' ')

mutual

/-- The document with each entry on a line of its own. What encloses nothing stays
on one line. -/
def indented (depth : Nat) : Json → String
  | .array [] => "[]"
  | .array items => "[" ++ indentedItems (depth + 1) items ++ newline depth ++ "]"
  | .object [] => "\x7b\x7d"
  | .object members =>
    "\x7b" ++ indentedMembers (depth + 1) members ++ newline depth ++ "\x7d"
  | .null => "null"
  | .bool value => if value then "true" else "false"
  | .count value => toString value
  | .number value => Number.json value
  | .string contents => quote contents

/-- The entries of an array, each on its line. -/
def indentedItems (depth : Nat) : List Json → String
  | [] => ""
  | [item] => newline depth ++ indented depth item
  | item :: items => newline depth ++ indented depth item ++ "," ++ indentedItems depth items

/-- The members of an object, each on its line. -/
def indentedMembers (depth : Nat) : List (String × Json) → String
  | [] => ""
  | [(name, value)] => newline depth ++ quote name ++ ": " ++ indented depth value
  | (name, value) :: members =>
    newline depth ++ quote name ++ ": " ++ indented depth value ++ "," ++
      indentedMembers depth members

end

/-- The document with each entry on a line of its own. -/
def pretty (document : Json) : String :=
  document.indented 0

/-- The document of an optional part. -/
def ofOption {α : Type} (document : α → Json) : Option α → Json
  | some value => document value
  | none => .null

end Json

end LoxLang
