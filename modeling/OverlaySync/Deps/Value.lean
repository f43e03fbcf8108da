import OverlaySync.OrderedMap.Basic

/-! # Values of the deps language

What a binding of a deps file can hold. A dict is a list of entries; in every dict that is read from
a file the keys ascend (`Value.Canonical`), so that equal dicts are equal lists. -/

namespace OverlaySync.Deps

/-- A value of the deps language. Integers are those of 64 bits. -/
inductive Value where
  /-- The absent value. -/
  | none
  /-- A truth value. -/
  | bool (b : Bool)
  /-- An integer. -/
  | int (n : Int64)
  /-- A text. -/
  | str (s : String)
  /-- A sequence of values. -/
  | list (items : List Value)
  /-- A table from texts to values, in key order. -/
  | dict (entries : List (String × Value))
  deriving Inhabited, Repr

/-- The names that a file binds, with their values. -/
abbrev Bindings := OrderedMap String Value

namespace Value

/-! ## Equality is decidable -/

mutual

/-- Decide whether two values are equal. -/
protected def decEq : (v w : Value) → Decidable (v = w)
  | .none, w => by
    cases w
    case none => exact isTrue rfl
    all_goals exact isFalse nofun
  | .bool b, w => by
    cases w
    case bool c => exact decidable_of_iff (b = c) (by simp)
    all_goals exact isFalse nofun
  | .int n, w => by
    cases w
    case int m => exact decidable_of_iff (n = m) (by simp)
    all_goals exact isFalse nofun
  | .str s, w => by
    cases w
    case str t => exact decidable_of_iff (s = t) (by simp)
    all_goals exact isFalse nofun
  | .list vs, w => by
    cases w
    case list ws =>
      have := Value.decEqItems vs ws
      exact decidable_of_iff (vs = ws) (by simp)
    all_goals exact isFalse nofun
  | .dict vs, w => by
    cases w
    case dict ws =>
      have := Value.decEqEntries vs ws
      exact decidable_of_iff (vs = ws) (by simp)
    all_goals exact isFalse nofun

/-- Decide whether two lists of values are equal. -/
protected def decEqItems : (vs ws : List Value) → Decidable (vs = ws)
  | [], [] => isTrue rfl
  | [], _ :: _ => isFalse nofun
  | _ :: _, [] => isFalse nofun
  | v :: vs, w :: ws =>
    have := Value.decEq v w
    have := Value.decEqItems vs ws
    decidable_of_iff (v = w ∧ vs = ws) (by simp)

/-- Decide whether two lists of entries are equal. -/
protected def decEqEntries : (vs ws : List (String × Value)) → Decidable (vs = ws)
  | [], [] => isTrue rfl
  | [], _ :: _ => isFalse nofun
  | _ :: _, [] => isFalse nofun
  | (k, v) :: vs, (l, w) :: ws =>
    have := Value.decEq v w
    have := Value.decEqEntries vs ws
    decidable_of_iff ((k = l ∧ v = w) ∧ vs = ws) (by simp)

end

instance : DecidableEq Value := Value.decEq

/-! ## Kinds of values -/

/-- The short name of the value's type, as messages give it. -/
def kindName : Value → String
  | .none => "None"
  | .bool _ => "bool"
  | .int _ => "int"
  | .str _ => "str"
  | .list _ => "list"
  | .dict _ => "dict"

/-- Lists and dicts are containers; everything else is a scalar. -/
def isAtom : Value → Bool
  | .list _ => false
  | .dict _ => false
  | _ => true

/-- The entries of a dict. -/
def entries? : Value → Option (List (String × Value))
  | .dict es => some es
  | _ => Option.none

/-- A text, or the absent value. -/
def ofOption : Option String → Value
  | Option.none => .none
  | some s => .str s

/-- The dict of a table. -/
def ofTable (m : OrderedMap String Value) : Value :=
  .dict m.entries

/-! ## Dicts with ascending keys -/

mutual

/-- In every dict of the value the keys ascend. -/
def Canonical : Value → Prop
  | .list items => CanonicalItems items
  | .dict es => Entries.Ascending es ∧ CanonicalEntries es
  | _ => True

/-- Every value of the list is canonical. -/
def CanonicalItems : List Value → Prop
  | [] => True
  | v :: vs => v.Canonical ∧ CanonicalItems vs

/-- Every value of the entries is canonical. -/
def CanonicalEntries : List (String × Value) → Prop
  | [] => True
  | (_, v) :: es => v.Canonical ∧ CanonicalEntries es

end

end Value

end OverlaySync.Deps
