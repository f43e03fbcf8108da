/-! # Tokens of the deps language -/

namespace OverlaySync.Deps

/-- The marks of the deps language. -/
inductive Mark where
  | openBrace | closeBrace
  | openBracket | closeBracket
  | openParen | closeParen
  | colon | comma | equals | plus | minus | percent
  deriving DecidableEq, Repr

namespace Mark

/-- How a mark is written. -/
def toChar : Mark → Char
  | openBrace => '{'
  | closeBrace => '}'
  | openBracket => '['
  | closeBracket => ']'
  | openParen => '('
  | closeParen => ')'
  | colon => ':'
  | comma => ','
  | equals => '='
  | plus => '+'
  | minus => '-'
  | percent => '%'

/-- All marks. -/
def all : List Mark :=
  [openBrace, closeBrace, openBracket, closeBracket, openParen, closeParen, colon, comma, equals,
    plus, minus, percent]

/-- The mark that a character writes. -/
def ofChar? (c : Char) : Option Mark :=
  all.find? fun m => m.toChar = c

/-- Each mark is read back from the character that it is written with. -/
@[simp] theorem ofChar?_toChar (m : Mark) : ofChar? m.toChar = some m := by
  cases m <;> rfl

end Mark

/-- A token of the deps language. -/
inductive Token where
  /-- A name: a letter or an underscore, then letters, numbers and underscores. -/
  | name (x : String)
  /-- A quoted text, with its escapes replaced. -/
  | string (s : String)
  /-- An integer literal. -/
  | integer (n : Int64)
  /-- A mark. -/
  | mark (m : Mark)
  deriving DecidableEq, Repr

end OverlaySync.Deps
