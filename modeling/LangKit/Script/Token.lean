import LangKit.Text.Word
import LangKit.Text.Quoted
import LangKit.Text.Decimal

/-!
# Tokens of the script language

The kinds of token, the words that are reserved, and the token itself: its kind, its value, and
where it stands in the text.
-/

namespace LangKit.Script

/-- The kinds of token. A double quote that opens no text is a token of its own, which no rule of
the grammar uses. -/
inductive TokenKind
  | func | «if» | «else» | «while» | «return» | «true» | «false» | nil | lambda | ref
  | lparen | rparen | lbrace | rbrace | comma | dot | at | semi
  | eq | notEq | greaterEq | greater | lessEq | less | assign
  | plus | minus | multiply | divide | number | name | string | and | or | not
  | quote
  deriving DecidableEq, Repr, Inhabited

namespace TokenKind

/-- The kind's name in grammar rules and logs. -/
def label : TokenKind → String
  | func => "FUNC"
  | «if» => "IF"
  | «else» => "ELSE"
  | «while» => "WHILE"
  | «return» => "RETURN"
  | «true» => "TRUE"
  | «false» => "FALSE"
  | nil => "NIL"
  | lambda => "LAMBDA"
  | ref => "REF"
  | lparen => "LPAREN"
  | rparen => "RPAREN"
  | lbrace => "LBRACE"
  | rbrace => "RBRACE"
  | comma => "COMMA"
  | dot => "DOT"
  | «at» => "AT"
  | semi => "SEMI"
  | eq => "EQ"
  | notEq => "NOT_EQ"
  | greaterEq => "GREATER_EQ"
  | greater => "GREATER"
  | lessEq => "LESS_EQ"
  | less => "LESS"
  | assign => "ASSIGN"
  | plus => "PLUS"
  | minus => "MINUS"
  | multiply => "MULTIPLY"
  | divide => "DIVIDE"
  | number => "NUMBER"
  | name => "NAME"
  | string => "STRING"
  | and => "AND"
  | or => "OR"
  | not => "NOT"
  | quote => "\""

def reserved : List (String × TokenKind) := [
  ("func", func), ("if", «if»), ("else", «else»), ("while", «while»), ("return", «return»),
  ("true", «true»), ("false", «false»), ("nil", nil), ("lambda", lambda), ("ref", ref)]

def ofWord (word : String) : TokenKind :=
  (reserved.lookup word).getD name

end TokenKind

inductive TokenValue
  | text (s : String)
  | number (n : Nat)
  deriving DecidableEq, Repr, Inhabited

namespace TokenValue

def render : TokenValue → String
  | text s => s
  | number n => toString n

end TokenValue

/-- A token. Positions count characters from the start of the text; lines count from one. -/
structure Token where
  kind : TokenKind
  value : TokenValue
  line : Nat
  start : Nat
  deriving DecidableEq, Repr, Inhabited

end LangKit.Script
