/-
# Tokens

A token is a kind, the text it was read from, the value it carries if it is a
number or a string, and the line it ends on. Nothing forces the kind and the text
to agree: the grammar and the evaluator look at the kind, renderings show the
text.
-/

namespace LoxLang

/-- The reserved words. -/
inductive Keyword
  | and
  | «class»
  | «else»
  | «false»
  | «for»
  | «fun»
  | «if»
  | nil
  | or
  | print
  | «return»
  | super
  | this
  | «true»
  | var
  | «while»
  deriving DecidableEq

namespace Keyword

/-- Every reserved word. -/
def all : List Keyword :=
  [.and, .class, .else, .false, .for, .fun, .if, .nil, .or, .print, .return, .super, .this,
    .true, .var, .while]

/-- How the word is spelled. -/
def word : Keyword → String
  | .and => "and"
  | .class => "class"
  | .else => "else"
  | .false => "false"
  | .for => "for"
  | .fun => "fun"
  | .if => "if"
  | .nil => "nil"
  | .or => "or"
  | .print => "print"
  | .return => "return"
  | .super => "super"
  | .this => "this"
  | .true => "true"
  | .var => "var"
  | .while => "while"

/-- The reserved word with the given spelling. -/
def ofWord? (text : String) : Option Keyword :=
  all.find? (·.word == text)

end Keyword

/-- The kinds of token. -/
inductive TokenKind
  | leftParen
  | rightParen
  | leftBrace
  | rightBrace
  | comma
  | dot
  | minus
  | plus
  | semicolon
  | slash
  | star
  | bang
  | bangEqual
  | equal
  | equalEqual
  | greater
  | greaterEqual
  | less
  | lessEqual
  | identifier
  | string
  | number
  | keyword (word : Keyword)
  | /-- The end of the source. -/
    eof
  deriving DecidableEq

namespace TokenKind

/-- The name under which a kind is listed. Reserved words are listed in capitals. -/
def name : TokenKind → String
  | .leftParen => "LEFT_PAREN"
  | .rightParen => "RIGHT_PAREN"
  | .leftBrace => "LEFT_BRACE"
  | .rightBrace => "RIGHT_BRACE"
  | .comma => "COMMA"
  | .dot => "DOT"
  | .minus => "MINUS"
  | .plus => "PLUS"
  | .semicolon => "SEMICOLON"
  | .slash => "SLASH"
  | .star => "STAR"
  | .bang => "BANG"
  | .bangEqual => "BANG_EQUAL"
  | .equal => "EQUAL"
  | .equalEqual => "EQUAL_EQUAL"
  | .greater => "GREATER"
  | .greaterEqual => "GREATER_EQUAL"
  | .less => "LESS"
  | .lessEqual => "LESS_EQUAL"
  | .identifier => "IDENTIFIER"
  | .string => "STRING"
  | .number => "NUMBER"
  | .keyword word => String.ofList (word.word.toList.map Char.toUpper)
  | .eof => "EOF"

/-- Every kind, each reserved word being one. -/
def all : List TokenKind :=
  [.leftParen, .rightParen, .leftBrace, .rightBrace, .comma, .dot, .minus, .plus, .semicolon,
    .slash, .star, .bang, .bangEqual, .equal, .equalEqual, .greater, .greaterEqual, .less,
    .lessEqual, .identifier, .string, .number, .eof] ++ Keyword.all.map .keyword

/-- The kind that is listed under the given name. -/
def ofName? (text : String) : Option TokenKind :=
  all.find? (·.name == text)

end TokenKind

/-- What a number or string token carries. -/
inductive Payload
  | /-- The contents of a string, without its quotes. -/
    text (contents : String)
  | /-- The value of a number. -/
    number (value : Float)
  deriving DecidableEq

/-- A token of the language. -/
structure Token where
  /-- What the token is. -/
  kind : TokenKind
  /-- The text it was read from. -/
  lexeme : String
  /-- What it carries, present on numbers and strings. -/
  payload : Option Payload
  /-- The line its last character is on, counted from one. -/
  line : Nat
  deriving DecidableEq

/-- The token that stands for the end of a source, on its last line. -/
def Token.eof (line : Nat) : Token :=
  ⟨.eof, "", none, line⟩

end LoxLang
