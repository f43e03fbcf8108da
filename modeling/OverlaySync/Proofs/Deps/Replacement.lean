import OverlaySync.Proofs.Deps.Canonical
import OverlaySync.Proofs.Deps.Contexts
import OverlaySync.Proofs.Deps.Excerpts

/-! # Other operands in a source

In a source that is accepted, the characters of an operand can be replaced by those of another one
with the same value, and the source is still accepted with the same bindings
(`Excerpt.parse_replace`). So a name is an abbreviation of the value that it has where it stands: it
can be replaced by this value, written on one line (`parse_unabbreviated`). -/

namespace OverlaySync.Deps

/-! ## The value of an operand -/

/-- The names that have been bound before the binding in whose value the tokens end, with their
values. -/
def BoundBefore (us : List Token) (here : List (String × Value)) : Prop :=
  ∃ done x ps, Begins us done x ∧ IsFile done ps ∧ Binds [] ps here

/-- These names and values are determined. -/
theorem BoundBefore.unique {us : List Token} {here here' : List (String × Value)}
    (h : BoundBefore us here) (h' : BoundBefore us here') : here = here' := by
  obtain ⟨done, x, ps, begins, file, binds⟩ := h
  obtain ⟨done', x', ps', begins', file', binds'⟩ := h'
  obtain ⟨rfl, -⟩ := begins.unique begins'
  obtain rfl := file.unique file'
  exact binds.unique binds'

namespace Excerpt

variable {source : String} {e : Excerpt source} {p : Phrase} {b : Bindings}

/-- The excerpt is a primary of the source: it is the phrase `p`, and stands where an operand can
stand. -/
structure IsOperand (e : Excerpt source) (p : Phrase) : Prop where
  primary : IsPrimary e.tokens p
  place : OperandBetween e.tokensBefore e.tokensBehind

/-- A name is an operand of a source that is accepted, unless it is bound there. -/
theorem isOperand_name {x : String} (accepted : parse source = .ok b) (name : e.tokens = [.name x])
    (reference : e.tokensBehind.head? ≠ some (.mark .equals)) : e.IsOperand (.name x) where
  primary := name ▸ .name x
  place := by
    obtain ⟨ps, -, file, -, -⟩ := (parse_eq_ok_iff_of_scan e.scan_source).1 accepted
    rw [name] at file
    exact file.operandBetween reference

/-- An operand of a source that is accepted has a value, and an operand in its place that has this
value and supplies the same arguments makes no difference. -/
theorem parse_replace (accepted : parse source = .ok b) (operand : e.IsOperand p) :
    ∃ here v, BoundBefore e.tokensBefore here ∧ Means (here.lookup ·) p v ∧
      ∀ cs ts q, Border (cs ++ textOf e.after) →
        scan (cs ++ textOf e.after) = behind ts (scan (textOf e.after)) → IsUnary ts q →
        (∀ w, Means (here.lookup ·) p w → Means (here.lookup ·) q w) →
        (e.tokensBefore.getLast? = some (.mark .percent) → ∀ w args,
          Means (here.lookup ·) p w → Supplies p w args → Supplies q w args) →
        parse (e.replace cs) = .ok b := by
  obtain ⟨ps, final, file, binds, same⟩ := (parse_eq_ok_iff_of_scan e.scan_source).1 accepted
  obtain ⟨F, fill, supplies, done, begins, complete⟩ := operand.place.exists_context
  obtain rfl := file.unique (fill (.primary operand.primary))
  obtain ⟨here, v, before, value, replace⟩ := FileContext.binds_plug binds
  refine ⟨here, v, ⟨done, _, _, begins, complete, before⟩, value, ?_⟩
  intro cs ts q border hscan unary sameValue sameArguments
  refine (parse_eq_ok_iff_of_scan (e.scan_replace border hscan)).2
    ⟨_, final, fill unary, replace q sameValue fun h => ?_, same⟩
  exact sameArguments (supplies.1 h)

end Excerpt

/-! ## Names as abbreviations -/

/-- The tokens of a group start with a parenthesis. -/
theorem head?_of_isUnary_group {ts : List Token} {p : Phrase} (h : IsUnary ts (.group p)) :
    ts.head? = some (.mark .openParen) := by
  cases h with
  | primary operand =>
    cases operand with
    | group inner => rfl
    | tuple inner => cases inner

/-- A list is not written in parentheses. -/
theorem ne_group_of_scan_inline {vs : List Value} {ts : List Token} {rest : List Char}
    {later : List Token × Option Cause} {p : Phrase} (unary : IsUnary ts p)
    (h : scan ((Value.list vs).inline ++ rest) = behind ts later) (q : Phrase) : p ≠ .group q := by
  rintro rfl
  obtain ⟨ts', rfl⟩ := List.head?_eq_some_iff.1 (head?_of_isUnary_group unary)
  have bracket : scan ((Value.list vs).inline ++ rest) = behind [.mark .openBracket] _ :=
    scan_mark .openBracket _
  rw [bracket] at h
  cases h

/-- A name that is not bound where it stands can be replaced by its value there, written on one line
and with spaces around it; only the least integer cannot be written. The constants are no names in
this sense. -/
theorem parse_unabbreviated {source : String} {e : Excerpt source} {x : String} {b : Bindings}
    (accepted : parse source = .ok b) (name : e.tokens = [.name x])
    (reference : e.tokensBehind.head? ≠ some (.mark .equals))
    (ordinary : x ∉ ["None", "True", "False"]) :
    ∃ here v, BoundBefore e.tokensBefore here ∧ here.lookup x = some v ∧
      (v.hasLeast = false → parse (e.replace (' ' :: (v.inline ++ [' ']))) = .ok b) := by
  have operand := Excerpt.isOperand_name accepted name reference
  obtain ⟨here, v, before, value, replace⟩ := e.parse_replace accepted operand
  have refers {w : Value} (h : Means (here.lookup ·) (.name x) w) : here.lookup x = some w := by
    cases h with
    | none | true | false => simp at ordinary
    | name _ bound => exact bound
  have found := refers value
  refine ⟨here, v, before, found, fun least => ?_⟩
  -- What a source binds is canonical, so that writing it can be undone.
  have canonical : v.Canonical := by
    obtain ⟨done, y, ps, -, -, binds⟩ := before
    have all := binds.forall_mem (N := fun _ => True) (fun _ _ => trivial)
      fun _ there => absurd there List.not_mem_nil
    exact (all _ (mem_of_lookup found)).2
  have written := v.writes_inline canonical
  rw [least] at written
  obtain ⟨ts, ⟨q, unary, means⟩, hscan⟩ := written (' ' :: textOf e.after) (.cons (by decide) _)
  refine replace _ ts q (.cons (by decide) _) ?_ unary (fun w h => ?_) fun _ w args h supplied => ?_
  · rw [List.cons_append, scan_space, List.append_assoc]
    exact hscan.trans (by rw [scan_space])
  · obtain rfl := Option.some.inj (found.symm.trans (refers h))
    exact means _
  · obtain rfl := Option.some.inj (found.symm.trans (refers h))
    -- The written value is no group, and so it supplies what the name did.
    cases supplied with
    | items bare => exact .items (ne_group_of_scan_inline unary hscan)
    | single atom => exact .single atom

/-! ## A list behind a percent sign -/

/-- A name is bound to a list, which then supplies the arguments of a format. -/
def formatSource : String :=
  "t = ['a', 'b']\nx = '%s-%s' % t\n"

/-- What it binds. -/
def formatBindings : Bindings :=
  .insert (.insert ∅ "t" (.list [.str "a", .str "b"])) "x" (.str "a-b")

/-- The reference to the list. -/
def referenceExcerpt : Excerpt formatSource where
  before := (lexemes formatSource.toList).1.take 19
  within := [⟨['t'], some (.name "t")⟩]
  after := [⟨['\n'], none⟩]
  cut := by decide +kernel
  begins := rfl
  ends := rfl

/-- The tokens of the first binding. -/
def listTokens : List Token :=
  [.name "t", .mark .equals, .mark .openBracket, .string "a", .mark .comma, .string "b",
    .mark .closeBracket]

/-- The phrases of both bindings, with any phrase in the place of the reference. -/
def formatPhrases (p : Phrase) : List (String × Phrase) :=
  [("t", .list [.text "a", .text "b"]), ("x", .format (.text "%s-%s") p)]

/-- The reference stands behind a percent sign. -/
theorem tokensBefore_referenceExcerpt : referenceExcerpt.tokensBefore =
    listTokens ++ [.name "x", .mark .equals, .string "%s-%s", .mark .percent] := by
  decide +kernel

/-- The first binding, in front of others. -/
theorem isFile_listTokens {ts : List Token} {ps : List (String × Phrase)} (tail : IsFile ts ps) :
    IsFile (listTokens ++ ts) (("t", .list [.text "a", .text "b"]) :: ps) := by
  have items : IsItems [.string "a", .mark .comma, .string "b"] [.text "a", .text "b"] :=
    .cons (isExpr_string "a") (.last (isExpr_string "b"))
  exact .cons "t" (IsUnary.primary (.list items)).isExpr tail

/-- Any operand can stand in the place of the reference. -/
theorem isFile_format {ts : List Token} {p : Phrase} (operand : IsUnary ts p) :
    IsFile (referenceExcerpt.tokensBefore ++ (ts ++ referenceExcerpt.tokensBehind))
      (formatPhrases p) := by
  have text : IsUnary [.string "%s-%s"] (.text "%s-%s") :=
    .primary (by simpa using IsPrimary.text "%s-%s" [])
  have format : IsExpr ([.string "%s-%s"] ++ .mark .percent :: (ts ++ []))
      (.format (.text "%s-%s") p) :=
    (IsTerm.intro text (.unary operand .nil)).isExpr
  rw [tokensBefore_referenceExcerpt, show referenceExcerpt.tokensBehind = [] from rfl]
  simpa [formatPhrases] using isFile_listTokens (.cons "x" format .nil)

/-- The list is bound where the name refers to it. -/
theorem boundBefore_referenceExcerpt :
    BoundBefore referenceExcerpt.tokensBefore [("t", .list [.str "a", .str "b"])] := by
  refine ⟨listTokens, "x", _, ⟨_, tokensBefore_referenceExcerpt, by decide⟩,
    isFile_listTokens .nil, ?_⟩
  exact .cons (.list (.cons (.text "a") (.cons (.text "b") .nil))) .nil

/-- The items of the list fill both placeholders. -/
theorem parse_formatSource : parse formatSource = .ok formatBindings := by
  have filled : fillFormat "%s-%s".toList [.str "a", .str "b"] = .ok "a-b".toList := rfl
  have file := isFile_format (.primary (.name "t"))
  refine (parse_eq_ok_iff_of_scan referenceExcerpt.scan_source).2 ⟨_, _, file, ?_,
    (sameScope_empty.insert "t" _).insert "x" _⟩
  exact .cons (.list (.cons (.text "a") (.cons (.text "b") .nil)))
    (.cons (.format (.text _) (.name (by decide) rfl) (.items nofun) filled) .nil)

/-- The reference is replaced by the list, in brackets. -/
theorem parse_unabbreviated_format :
    parse formatSource = .ok formatBindings ∧ referenceExcerpt.tokens = [.name "t"] ∧
      referenceExcerpt.tokensBehind = [] ∧
      referenceExcerpt.replace (' ' :: ((Value.list [.str "a", .str "b"]).inline ++ [' '])) =
        "t = ['a', 'b']\nx = '%s-%s' %  ['a', 'b'] \n" ∧
      parse "t = ['a', 'b']\nx = '%s-%s' %  ['a', 'b'] \n" = .ok formatBindings := by
  obtain ⟨here, v, before, bound, unabbreviated⟩ :=
    parse_unabbreviated (e := referenceExcerpt) parse_formatSource rfl nofun (by decide)
  obtain rfl := before.unique boundBefore_referenceExcerpt
  obtain rfl : Value.list [.str "a", .str "b"] = v := Option.some.inj bound
  have text : referenceExcerpt.replace
      (' ' :: ((Value.list [.str "a", .str "b"]).inline ++ [' '])) =
        "t = ['a', 'b']\nx = '%s-%s' %  ['a', 'b'] \n" := by
    decide +kernel
  exact ⟨parse_formatSource, rfl, rfl, text, text ▸ unabbreviated (by decide)⟩

end OverlaySync.Deps
