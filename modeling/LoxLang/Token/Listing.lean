/-
# Listings of tokens

A listing shows a token on one line: the name of its kind, its text, and what it
carries.
-/

import LoxLang.Number.Text
import LoxLang.Token.Basic

namespace LoxLang

/-- The text of what a token carries. -/
def Payload.listing : Payload → String
  | .text contents => contents
  | .number value => Number.ofToken value

/-- The line that lists a token. -/
def Token.listing (token : Token) : String :=
  token.kind.name ++ " " ++ token.lexeme ++ " " ++
    match token.payload with
    | some payload => payload.listing
    | none => "null"

end LoxLang
