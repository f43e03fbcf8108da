import OverlaySync.Deps.Position

/-! # What can be wrong with a source

A source is refused for one cause, at one position. The causes are those of its characters, of the
order of its tokens, and of the evaluation of its expressions; `Cause.message` words them. -/

namespace OverlaySync.Deps

/-- What the grammar requires at a place. -/
inductive Expectation where
  /-- The `=` behind the name of a binding. -/
  | equalsAfterName
  /-- An operand. -/
  | value
  /-- The colon behind the key of a dict. -/
  | colonAfterKey
  /-- The end of a list, or a comma before its next item. -/
  | commaOrBracket
  /-- The end of a tuple, or a comma before its next item. -/
  | commaOrParen
  /-- The end of a dict, or a comma before its next entry. -/
  | commaOrBrace
  deriving DecidableEq, Repr

/-- How a requirement is worded. -/
def Expectation.text : Expectation → String
  | equalsAfterName => "'=' after binding name"
  | value => "a value"
  | colonAfterKey => "':' after dict key"
  | commaOrBracket => "',' or ']'"
  | commaOrParen => "',' or ')'"
  | commaOrBrace => "',' or '\x7d'"

/-- Why a source is refused. -/
inductive Cause where
  /-- A quoted text without its closing quote. -/
  | unterminatedString
  /-- An integer literal beyond 64 bits. -/
  | integerOutOfRange
  /-- A character that starts no token. -/
  | unexpectedCharacter (c : Char)
  /-- A binding that starts with something other than a name. -/
  | nameExpected
  /-- A token in the place of what the grammar requires. -/
  | expected (what : Expectation)
  /-- The end of the source in the place of what the grammar requires. -/
  | endReached (what : Expectation)
  /-- A reference to a name without an earlier binding. -/
  | undefinedName (x : String)
  /-- An integer result beyond 64 bits. -/
  | integerOverflow
  /-- A sum of operands of types that have no sum. -/
  | unsupportedSum (left right : String)
  /-- The negation of something other than an integer. -/
  | unsupportedNegation (type : String)
  /-- A dict key of the given type. -/
  | keyNotText (type : String)
  /-- Formatting something other than a text. -/
  | formatNotText (type : String)
  /-- More placeholders than arguments. -/
  | tooFewArguments
  /-- More arguments than placeholders. -/
  | tooManyArguments
  /-- An argument of the given type for `%d`. -/
  | numberRequired (type : String)
  /-- A placeholder that does not exist. -/
  | unsupportedPlaceholder (c : Char)
  /-- A format that ends in the middle of a placeholder. -/
  | incompleteFormat
  deriving DecidableEq, Repr

/-- How a cause is worded. -/
def Cause.message : Cause → String
  | unterminatedString => "unterminated string literal"
  | integerOutOfRange => "integer literal out of range"
  | unexpectedCharacter c => "unexpected character '" ++ c.toString ++ "'"
  | nameExpected => "expected a binding name"
  | expected what => "expected " ++ what.text
  | endReached what => "expected " ++ what.text ++ ", found end of file"
  | undefinedName x => "name '" ++ x ++ "' is not defined"
  | integerOverflow => "integer overflow"
  | unsupportedSum left right =>
    "unsupported operand types for +: '" ++ left ++ "' and '" ++ right ++ "'"
  | unsupportedNegation type => "bad operand type for unary -: '" ++ type ++ "'"
  | keyNotText type => "dict keys must be str, found '" ++ type ++ "'"
  | formatNotText type => "'%' needs a str on the left, found '" ++ type ++ "'"
  | tooFewArguments => "not enough arguments for format string"
  | tooManyArguments => "not all arguments converted during string formatting"
  | numberRequired type => "%d format: a number is required, not " ++ type
  | unsupportedPlaceholder c => "unsupported format character '" ++ c.toString ++ "'"
  | incompleteFormat => "incomplete format"

/-- The refusal of a source. -/
structure SyntaxError where
  /-- Where the fault is. -/
  position : Position
  /-- What the fault is. -/
  cause : Cause
  deriving DecidableEq, Repr

end OverlaySync.Deps
