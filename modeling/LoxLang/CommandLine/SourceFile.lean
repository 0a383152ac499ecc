/-
# Source files

A source is read from a file that may be missing, may be no file, or may hold no
text. What is reported then names the file in quotes, with everything escaped that
would not show by itself.
-/

import LoxLang.Text.Visible

namespace LoxLang.CommandLine

/-- How a file turns out that no source can be read from. -/
inductive FileFault
  | missing
  | denied
  | notDirectory
  | isDirectory
  | nameTooLong
  | notText
  deriving DecidableEq

namespace FileFault

/-- How a fault of a file is worded. -/
def message : FileFault → String
  | .missing => "No such file or directory (os error 2)"
  | .denied => "Permission denied (os error 13)"
  | .notDirectory => "Not a directory (os error 20)"
  | .isDirectory => "Is a directory (os error 21)"
  | .nameTooLong => "File name too long (os error 36)"
  | .notText => "stream did not contain valid UTF-8"

/-- What could not be done with a file. A directory can be opened, but not read. -/
def action : FileFault → String
  | .missing => "open"
  | .denied => "open"
  | .notDirectory => "open"
  | .isDirectory => "read"
  | .nameTooLong => "open"
  | .notText => "read"

end FileFault

/-- The code of a character in lower-case hexadecimal digits. -/
def codeEscape (c : Char) : List Char :=
  '\\' :: 'u' :: '\x7b' :: (Nat.toDigits 16 c.toNat ++ ['\x7d'])

/-- How a character is written inside a quoted name. -/
def escapeName (c : Char) : List Char :=
  match c with
  | '"' => ['\\', '"']
  | '\\' => ['\\', '\\']
  | '\n' => ['\\', 'n']
  | '\r' => ['\\', 'r']
  | '\t' => ['\\', 't']
  | '\x00' => ['\\', '0']
  | _ => if isVisible c then [c] else codeEscape c

/-- A file name in quotes. -/
def quoteName (name : String) : String :=
  String.ofList ('"' :: (name.toList.flatMap escapeName ++ ['"']))

/-- What is reported if no source can be read from a file. -/
def FileFault.report (fault : FileFault) (file : String) : String :=
  "Error: Failed to " ++ fault.action ++ " file " ++ quoteName file ++ "\n\nCaused by:\n    " ++
    fault.message ++ "\n"

/-- The text of a file, given how files are read. -/
def readText (read : String → Except FileFault ByteArray) (file : String) :
    Except FileFault String :=
  match read file with
  | .error fault => .error fault
  | .ok bytes =>
    match String.fromUTF8? bytes with
    | some source => .ok source
    | none => .error .notText

end LoxLang.CommandLine
