import OverlaySync.Proofs.Deps.Assignments
import OverlaySync.Proofs.Deps.Excerpts

/-! # Sources one after another

Two sources that are accepted can be put together, one below the other: the names of both are bound,
and where both bind a name the second one counts (`parse_joined`). The newline between them ends
whatever the first one ends in, so the tokens are those of the first source and those of the second.
Every binding starts with a name and a sign that no expression starts with or goes on with, so these
are the bindings of both. Those of the second source find more names bound than they do alone, and
as they need none of these, their values stay the same. -/

namespace OverlaySync.Deps

/-! ## Values in a larger scope -/

/-- A scope gives the names of another one their values there, and may give others values. -/
def Extends (scope' scope : String → Option Value) : Prop :=
  ∀ x v, scope x = some v → scope' x = some v

section

variable {scope scope' : String → Option Value}

mutual

/-- A phrase with a value has the same value where more names are bound. -/
theorem Means.mono (larger : Extends scope' scope) {p : Phrase} {v : Value} (h : Means scope p v) :
    Means scope' p v := by
  match h with
  | .text s => exact .text s
  | .integer n => exact .integer n
  | .none => exact .none
  | .true => exact .true
  | .false => exact .false
  -- Names are all that a phrase looks up.
  | .name ordinary bound => exact .name ordinary (larger _ _ bound)
  | .list items => exact .list (items.mono larger)
  | .tuple items => exact .tuple (items.mono larger)
  | .group inner => exact .group (inner.mono larger)
  | .dict entries latest => exact .dict (entries.mono larger) latest
  | .negation operand result => exact .negation (operand.mono larger) result
  | .format left right supplied filled =>
    exact .format (left.mono larger) (right.mono larger) supplied filled
  | .sumTexts left right => exact .sumTexts (left.mono larger) (right.mono larger)
  | .sumLists left right => exact .sumLists (left.mono larger) (right.mono larger)
  | .sumIntegers left right result =>
    exact .sumIntegers (left.mono larger) (right.mono larger) result

/-- The same of items. -/
theorem MeansItems.mono (larger : Extends scope' scope) {ps : List Phrase} {vs : List Value}
    (h : MeansItems scope ps vs) : MeansItems scope' ps vs := by
  match h with
  | .nil => exact .nil
  | .cons head tail => exact .cons (head.mono larger) (tail.mono larger)

/-- The same of entries. -/
theorem MeansEntries.mono (larger : Extends scope' scope) {ps : List (Phrase × Phrase)}
    {kvs : List (String × Value)} (h : MeansEntries scope ps kvs) :
    MeansEntries scope' ps kvs := by
  match h with
  | .nil => exact .nil
  | .cons key value tail =>
    exact .cons (key.mono larger) (value.mono larger) (tail.mono larger)

end

end

/-- Older bindings below a history hide none of its own. -/
theorem extends_append (history older : List (String × Value)) :
    Extends ((history ++ older).lookup ·) (history.lookup ·) := by
  intro x v (found : history.lookup x = some v)
  show (history ++ older).lookup x = some v
  rw [List.lookup_append, found, Option.some_or]

/-! ## Bindings behind others -/

/-- Bindings that are made from a history are made from a longer one, and leave what is below. -/
theorem Binds.append_history {history final : List (String × Value)}
    {ps : List (String × Phrase)} (h : Binds history ps final) (older : List (String × Value)) :
    Binds (history ++ older) ps (final ++ older) := by
  induction h with
  | nil => exact .nil
  | cons value tail ih => exact .cons (value.mono (extends_append _ older)) ih

/-- Bindings are made one after another. -/
theorem Binds.append {history here final : List (String × Value)} {ps qs : List (String × Phrase)}
    (h : Binds history ps here) (h' : Binds here qs final) : Binds history (ps ++ qs) final := by
  induction h with
  | nil => exact h'
  | cons value tail ih => exact .cons value (ih h')

/-- The tokens of two files are those of a file with the bindings of both. -/
theorem IsFile.append {ts us : List Token} {ps qs : List (String × Phrase)} (h : IsFile ts ps)
    (h' : IsFile us qs) : IsFile (ts ++ us) (ps ++ qs) := by
  induction h with
  | nil => exact h'
  | cons x value tail ih =>
    rw [List.cons_append, List.cons_append, List.append_assoc]
    exact .cons x value ih

/-! ## Sources behind others -/

/-- The end of a line ends every lexeme, so nothing before it depends on what is behind. -/
theorem scan_append_newline {cs : List Char} {ts : List Token} (h : scan cs = (ts, none))
    (ds : List Char) : scan (cs ++ '\n' :: ds) = behind ts (scan ds) := by
  obtain ⟨tokens, faultless⟩ := Prod.mk.inj h
  have cut : lexemes cs = ((lexemes cs).1 ++ [], none) := by
    rw [List.append_nil, ← faultless]
  obtain ⟨_, -, -, again⟩ := lexemes_append cut
  have ends := again ('\n' :: ds) (.inr fun l _ => .newline l ds)
  have whole : lexemes cs = ((lexemes cs).1, none) := Prod.ext rfl faultless
  rw [← eq_textOf_of_lexemes whole] at ends
  rw [scan_of_lexemes ends, tokens, scan_newline]

/-- Of two sources that are accepted, the second one can be put below the first one. The names of
both are bound, with the value of the second source if it binds them. -/
theorem parse_joined {first second : String} {b c : Bindings} (accepted : parse first = .ok b)
    (accepted' : parse second = .ok c) :
    ∃ d, parse (first ++ "\n" ++ second) = .ok d ∧ ∀ x, d.get? x = (c.get? x).or (b.get? x) := by
  obtain ⟨ts, hscan⟩ := exists_scan_of_parse accepted
  obtain ⟨us, hscan'⟩ := exists_scan_of_parse accepted'
  obtain ⟨ps, older, file, binds, same⟩ := (parse_eq_ok_iff_of_scan hscan).1 accepted
  obtain ⟨qs, newer, file', binds', same'⟩ := (parse_eq_ok_iff_of_scan hscan').1 accepted'
  have both : scan (first ++ "\n" ++ second).toList = (ts ++ us, none) := by
    have newline : "\n".toList = ['\n'] := rfl
    rw [String.toList_append, String.toList_append, newline, List.append_assoc,
      List.singleton_append, scan_append_newline hscan, hscan']
    rfl
  have history : Binds [] (ps ++ qs) (newer ++ older) := binds.append (binds'.append_history older)
  have scope : SameScope (OrderedMap.ofList (newer ++ older).reverse) (newer ++ older) := by
    have all := sameScope_ofList (newer ++ older).reverse
    rwa [List.reverse_reverse] at all
  refine ⟨_, (parse_eq_ok_iff_of_scan both).2 ⟨_, _, file.append file', history, scope⟩, ?_⟩
  intro x
  rw [scope x, List.lookup_append, ← same' x, ← same x]

/-! ## A source that ends in a comment, and one that binds a name again -/

/-- A source that binds two names to a text. -/
def olderSource : String :=
  "a = 'x'\nb = a  # once"

/-- A source that binds one of these names again. -/
def newerSource : String :=
  "a = 1\nc = a + 2"

/-- The first source binds its second name to what it has bound the first one to. -/
theorem parse_olderSource :
    parse olderSource = .ok (OrderedMap.ofList [("a", .str "x"), ("b", .str "x")]) := by
  have tokens : scan olderSource.toList =
      ([.name "a", .mark .equals, .string "x", .name "b", .mark .equals, .name "a"], none) := by
    decide +kernel
  have file : IsFile [.name "a", .mark .equals, .string "x", .name "b", .mark .equals, .name "a"]
      [("a", .text "x"), ("b", .name "a")] :=
    .cons "a" (IsUnary.primary (.text "x" [])).isExpr
      (.cons "b" (IsUnary.primary (.name "a")).isExpr .nil)
  exact (parse_eq_ok_iff_of_scan tokens).2 ⟨_, _, file,
    .cons (.text "x") (.cons (.name (by decide) rfl) .nil), sameScope_ofList _⟩

/-- The second source binds the first name again, and refers to the new value. -/
theorem parse_newerSource :
    parse newerSource = .ok (OrderedMap.ofList [("a", .int 1), ("c", .int 3)]) := by
  have tokens : scan newerSource.toList =
      ([.name "a", .mark .equals, .integer 1, .name "c", .mark .equals, .name "a", .mark .plus,
        .integer 2], none) := by
    decide +kernel
  have sum : IsExpr [.name "a", .mark .plus, .integer 2] (.sum (.name "a") (.integer 2)) :=
    .intro (IsTerm.intro (.primary (.name "a")) .nil)
      (.cons (IsTerm.intro (.primary (.integer 2)) .nil) .nil)
  have file : IsFile [.name "a", .mark .equals, .integer 1, .name "c", .mark .equals, .name "a",
      .mark .plus, .integer 2] [("a", .integer 1), ("c", .sum (.name "a") (.integer 2))] :=
    .cons "a" (IsUnary.primary (.integer 1)).isExpr (.cons "c" sum .nil)
  exact (parse_eq_ok_iff_of_scan tokens).2 ⟨_, _, file,
    .cons (.integer 1) (.cons (.sumIntegers (.name (by decide) rfl) (.integer 2) rfl) .nil),
    sameScope_ofList _⟩

/-- The first source ends in a comment, and its other name keeps the text. -/
theorem parse_joined_overridden :
    parse olderSource = .ok (OrderedMap.ofList [("a", .str "x"), ("b", .str "x")]) ∧
      parse newerSource = .ok (OrderedMap.ofList [("a", .int 1), ("c", .int 3)]) ∧
      ∃ d, parse "a = 'x'\nb = a  # once\na = 1\nc = a + 2" = .ok d ∧
        d.get? "a" = some (.int 1) ∧ d.get? "b" = some (.str "x") ∧ d.get? "c" = some (.int 3) := by
  obtain ⟨d, joined, all⟩ := parse_joined parse_olderSource parse_newerSource
  refine ⟨parse_olderSource, parse_newerSource, d, joined, ?_, ?_, ?_⟩
  · rw [all]
    decide +kernel
  · rw [all]
    decide +kernel
  · rw [all]
    decide +kernel

end OverlaySync.Deps
