import OverlaySync.Deps.Printer
import OverlaySync.Deps.SyntaxError

/-! # Formatting texts

`%s` and `%d` in a format are replaced by the arguments in their order, and `%%` by a percent sign.
What an argument puts in is not looked at again. -/

namespace OverlaySync.Deps

/-- What an argument puts in the place of `%s`: a text as it is, any other value as it is written.
-/
def Value.display : Value → List Char
  | .str s => s.toList
  | v => v.inline

/-- Fill the placeholders of a format from the arguments. -/
def fillFormat : List Char → List Value → Except Cause (List Char)
  | [], [] => .ok []
  | [], _ :: _ => .error .tooManyArguments
  | ['%'], _ => .error .incompleteFormat
  | '%' :: '%' :: cs, args => (fillFormat cs args).map ('%' :: ·)
  | '%' :: 's' :: _, [] => .error .tooFewArguments
  | '%' :: 's' :: cs, v :: vs => (fillFormat cs vs).map (v.display ++ ·)
  | '%' :: 'd' :: _, [] => .error .tooFewArguments
  | '%' :: 'd' :: cs, .int n :: vs => (fillFormat cs vs).map (decimal n.toInt ++ ·)
  | '%' :: 'd' :: _, v :: _ => .error (.numberRequired v.kindName)
  | '%' :: c :: _, _ => .error (.unsupportedPlaceholder c)
  | c :: cs, args => (fillFormat cs args).map (c :: ·)

end OverlaySync.Deps
