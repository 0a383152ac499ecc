/-
# Diagnostics

Each stage has its own type of fault, which says what went wrong and not how that
is worded. A diagnostic is what all of them become when they are reported: a
message, the line it concerns, and the stage it comes from, which decides the
layout of the text.
-/

import LoxLang.Token.Basic

namespace LoxLang

/-- A fault as it is reported. -/
inductive Diagnostic
  | /-- A piece of the source is no part of any token. -/
    lexical (message : String) (line : Nat)
  | /-- The tokens do not form a program. The location names the token at fault. -/
    grammatical (message : String) (location : String) (line : Nat)
  | /-- A program failed while it ran. -/
    runtime (message : String) (line : Nat)
  | /-- A stream could not be written. -/
    stream (message : String)
  deriving DecidableEq

namespace Diagnostic

/-- Where a token stands, as a diagnostic says it. The end of the source has no
text to quote. -/
def location (token : Token) : String :=
  if token.kind = .eof then " at end" else " at '" ++ token.lexeme ++ "'"

/-- The diagnostic of a message about a token the grammar cannot use. -/
def atToken (token : Token) (message : String) : Diagnostic :=
  .grammatical message (location token) token.line

/-- The text of a diagnostic, without the newline that ends it. Syntax diagnostics
start with their line, a runtime diagnostic ends with it. -/
def text : Diagnostic → String
  | .lexical message line => "[line " ++ toString line ++ "] Error: " ++ message
  | .grammatical message location line =>
    "[line " ++ toString line ++ "] Error" ++ location ++ ": " ++ message
  | .runtime message line => message ++ "\n[line " ++ toString line ++ "]"
  | .stream message => message

end Diagnostic

end LoxLang
