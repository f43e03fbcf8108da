import OverlaySync.Deps.Value

/-! # Writing values in the deps language

Values are written on one line (`Value.inline`) or laid out over several (`Value.layout`): a dict
that is not empty has a line for every entry, a list that holds a container has a line for every
item, and everything else stays on its line. Entries come in key order, so equal values have equal
texts. -/

namespace OverlaySync.Deps

/-- How a character of a text is written between quotes. -/
def escape : Char → List Char
  | '\\' => ['\\', '\\']
  | '\'' => ['\\', '\'']
  | '\n' => ['\\', 'n']
  | '\t' => ['\\', 't']
  | '\r' => ['\\', 'r']
  | c => [c]

/-- A text between single quotes. -/
def quote (s : String) : List Char :=
  '\'' :: (s.toList.flatMap escape ++ ['\''])

/-- An integer in decimal digits, with a minus sign if it is negative. -/
def decimal (n : Int) : List Char :=
  if n < 0 then '-' :: Nat.toDigits 10 n.natAbs else Nat.toDigits 10 n.toNat

/-- Two spaces for every level. -/
def indent (depth : Nat) : List Char :=
  List.replicate (2 * depth) ' '

namespace Value

mutual

/-- The value on one line. -/
def inline : Value → List Char
  | .none => ['N', 'o', 'n', 'e']
  | .bool true => ['T', 'r', 'u', 'e']
  | .bool false => ['F', 'a', 'l', 's', 'e']
  | .int n => decimal n.toInt
  | .str s => quote s
  | .list items => '[' :: (inlineItems items ++ [']'])
  | .dict es => '{' :: (inlineEntries es ++ ['}'])

/-- The items on one line, with commas between them. -/
def inlineItems : List Value → List Char
  | [] => []
  | [v] => v.inline
  | v :: w :: vs => v.inline ++ ',' :: ' ' :: inlineItems (w :: vs)

/-- The entries on one line, with commas between them. -/
def inlineEntries : List (String × Value) → List Char
  | [] => []
  | [(k, v)] => quote k ++ ':' :: ' ' :: v.inline
  | (k, v) :: e :: es =>
    quote k ++ ':' :: ' ' :: (v.inline ++ ',' :: ' ' :: inlineEntries (e :: es))

end

mutual

/-- The value laid out over lines, behind a line start with `depth` levels of indentation. -/
def layout (depth : Nat) : Value → List Char
  | .dict [] => ['{', '}']
  | .dict (e :: es) => '{' :: '\n' :: (layoutEntries (depth + 1) (e :: es) ++ indent depth ++ ['}'])
  | .list items =>
    if items.all isAtom then '[' :: (inlineItems items ++ [']'])
    else '[' :: '\n' :: (layoutItems (depth + 1) items ++ indent depth ++ [']'])
  | v => v.inline

/-- A line, or several, for every item. -/
def layoutItems (depth : Nat) : List Value → List Char
  | [] => []
  | v :: vs => indent depth ++ v.layout depth ++ ',' :: '\n' :: layoutItems depth vs

/-- A line, or several, for every entry. -/
def layoutEntries (depth : Nat) : List (String × Value) → List Char
  | [] => []
  | (k, v) :: es =>
    indent depth ++ quote k ++
      ':' :: ' ' :: (v.layout depth ++ ',' :: '\n' :: layoutEntries depth es)

end

/-- The text of a value on one line. -/
def renderInline (v : Value) : String :=
  String.ofList v.inline

/-- The text of a value laid out over lines. -/
def render (v : Value) : String :=
  String.ofList (v.layout 0)

end Value

/-- The line, or lines, that bind a name to a value. -/
def renderAssignment (name : String) (v : Value) : String :=
  String.ofList (name.toList ++ ' ' :: '=' :: ' ' :: (v.layout 0 ++ ['\n']))

/-- The text that binds all names, in their order. -/
def Bindings.render (b : Bindings) : String :=
  String.join (b.entries.map fun e => renderAssignment e.1 e.2)

end OverlaySync.Deps
