import OverlaySync.Deps.Format
import OverlaySync.Deps.Token

/-! # Expressions and their evaluation

The syntax tree of an expression, and what it evaluates to in a scope. A tree records where its
operators, names and keys stand, as the number of tokens from there to the end of the file, so that
evaluation can say where it failed.

A text may stop being an expression halfway. Its tree is then the tree of what was read, with the
leaf `Expr.broken` where the reading stopped. Evaluation goes from left to right and fails at that
leaf at the latest, so the first fault in reading order is the one that is found, be it of the
grammar or of the values. -/

namespace OverlaySync.Deps

/-- A fault among the tokens of a file. -/
structure Fault where
  /-- The number of tokens from the place of the fault on; none at the end of the file. -/
  remaining : Nat
  /-- What the fault is. -/
  cause : Cause
  deriving DecidableEq, Repr

/-- An expression of the deps language. -/
inductive Expr where
  /-- Quoted texts next to each other. -/
  | string (s : String)
  /-- An integer literal. -/
  | integer (n : Int64)
  /-- A reference to a name. -/
  | name (place : Nat) (x : String)
  /-- A list. -/
  | list (items : List Expr)
  /-- A tuple. -/
  | tuple (items : List Expr)
  /-- An expression in parentheses. -/
  | group (e : Expr)
  /-- A dict: the place of each key, the key, and its value. -/
  | dict (entries : List (Nat × Expr × Expr))
  /-- A negation. -/
  | negation (place : Nat) (e : Expr)
  /-- The formatting of the left operand with the right one. -/
  | format (place : Nat) (left right : Expr)
  /-- A sum. -/
  | sum (place : Nat) (left right : Expr)
  /-- The place where the text stops being an expression. -/
  | broken (f : Fault)
  deriving Inhabited

/-- The integer, if 64 bits hold it. -/
def checkedInteger (n : Int) : Except Cause Value :=
  if Int64.minValue.toInt ≤ n ∧ n ≤ Int64.maxValue.toInt then .ok (.int (Int64.ofInt n))
  else .error .integerOverflow

namespace Value

/-- The negation of a value. -/
def negate : Value → Except Cause Value
  | .int n => checkedInteger (-n.toInt)
  | v => .error (.unsupportedNegation v.kindName)

/-- The sum of two values: texts and lists are put together, integers are added. -/
def add : Value → Value → Except Cause Value
  | .str s, .str t => .ok (.str (s ++ t))
  | .list vs, .list ws => .ok (.list (vs ++ ws))
  | .int m, .int n => checkedInteger (m.toInt + n.toInt)
  | v, w => .error (.unsupportedSum v.kindName w.kindName)

/-- The formatting of a value with arguments. -/
def formatWith : Value → List Value → Except Cause Value
  | .str s, args => (fillFormat s.toList args).map fun cs => .str (String.ofList cs)
  | v, _ => .error (.formatNotText v.kindName)

/-- The values that some names always have. -/
def constant? : String → Option Value
  | "None" => some .none
  | "True" => some (.bool true)
  | "False" => some (.bool false)
  | _ => Option.none

end Value

/-- A cause, put at a place. -/
def Fault.locate {α : Type} (place : Nat) : Except Cause α → Except Fault α
  | .ok a => .ok a
  | .error cause => .error ⟨place, cause⟩

namespace Expr

/-- The arguments that the right operand of a format supplies: the items of a list or tuple, else
the value itself. Parentheses around a single expression keep a list together. -/
def arguments : Expr → Value → List Value
  | .group _, v => [v]
  | _, .list items => items
  | _, v => [v]

/-- The value of a name. -/
def lookup (scope : Bindings) (place : Nat) (x : String) : Except Fault Value :=
  match Value.constant? x, scope.get? x with
  | some v, _ => .ok v
  | none, some v => .ok v
  | none, none => .error ⟨place, .undefinedName x⟩

/-- A dict key. -/
def key (place : Nat) : Value → Except Fault String
  | .str s => .ok s
  | v => .error ⟨place, .keyNotText v.kindName⟩

mutual

/-- The value of an expression, or its first fault from left to right. -/
def eval (scope : Bindings) : Expr → Except Fault Value
  | .string s => .ok (.str s)
  | .integer n => .ok (.int n)
  | .name place x => lookup scope place x
  | .list items => do return .list (← evalItems scope items)
  | .tuple items => do return .list (← evalItems scope items)
  | .group e => e.eval scope
  | .dict entries => do return .dict (Entries.ofList (← evalEntries scope entries))
  | .negation place e => do
    let v ← e.eval scope
    Fault.locate place v.negate
  | .format place left right => do
    let v ← left.eval scope
    let w ← right.eval scope
    Fault.locate place (v.formatWith (right.arguments w))
  | .sum place left right => do
    let v ← left.eval scope
    let w ← right.eval scope
    Fault.locate place (v.add w)
  | .broken f => .error f

/-- The values of items. -/
def evalItems (scope : Bindings) : List Expr → Except Fault (List Value)
  | [] => .ok []
  | e :: es => do
    let v ← e.eval scope
    let vs ← evalItems scope es
    return v :: vs

/-- The keys and values of dict entries, as they are written. -/
def evalEntries (scope : Bindings) :
    List (Nat × Expr × Expr) → Except Fault (List (String × Value))
  | [] => .ok []
  | (place, k, e) :: es => do
    let s ← key place (← k.eval scope)
    let v ← e.eval scope
    let vs ← evalEntries scope es
    return (s, v) :: vs

end

end Expr

end OverlaySync.Deps
