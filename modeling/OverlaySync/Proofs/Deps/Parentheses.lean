import OverlaySync.Proofs.Deps.Formats
import OverlaySync.Proofs.Deps.Replacement

/-! # Parentheses around an operand

Parentheses around an operand make no difference to a source, with one exception: a list behind a
percent sign supplies its items as arguments, and in parentheses it is an argument itself
(`parse_parenthesized`). There the formatted text is always another one, if there is any. -/

namespace OverlaySync.Deps

/-! ## Formats with a list as their argument -/

/-- A text between quotes is longer than the text. -/
theorem length_lt_length_quote (s : String) : s.toList.length < (quote s).length := by
  have escaped (cs : List Char) : cs.length ≤ (cs.flatMap escape).length := by
    induction cs with
    | nil => exact Nat.le_refl 0
    | cons c cs ih =>
      have one : 1 ≤ (escape c).length := by
        unfold escape
        split <;> simp
      rw [List.flatMap_cons, List.length_append, List.length_cons]
      omega
  have long := escaped s.toList
  rw [quote, List.length_cons, List.length_append]
  omega

/-- What is shown of a value is shorter than what is shown of the list of it. -/
theorem length_display_lt (v : Value) :
    v.display.length < (Value.list [v]).display.length := by
  have inline : v.display.length ≤ v.inline.length := by
    cases v with
    | str s => exact Nat.le_of_lt (length_lt_length_quote s)
    | _ => exact Nat.le_refl _
  have list : (Value.list [v]).display = '[' :: (v.inline ++ [']']) := rfl
  rw [list, List.length_cons, List.length_append]
  omega

/-- A list that is an argument itself makes a longer text than its items as arguments do. -/
theorem length_fillFormat_lt {s cs cs' : List Char} {vs : List Value}
    (h : fillFormat s vs = .ok cs) (h' : fillFormat s [.list vs] = .ok cs') :
    cs.length < cs'.length := by
  obtain ⟨parts, rfl, suits, rfl⟩ := fillFormat_eq_ok_iff.1 h
  obtain ⟨parts', same, suits', rfl⟩ := fillFormat_eq_ok_iff.1 h'
  obtain rfl := formatOf_injective same
  -- The list takes the one placeholder that there is, so it has one item.
  obtain ⟨v, rfl⟩ := List.length_eq_one_iff.1 (suits.length_eq.symm.trans suits'.length_eq)
  have shorter := length_display_lt v
  rw [length_filledWith (length_placeholders suits),
    length_filledWith (length_placeholders suits')]
  simpa using shorter

/-! ## Operands in parentheses -/

section

variable {source : String} {e : Excerpt source} {p : Phrase} {v : Value} {b : Bindings}

/-- The operand supplies the items of a list as arguments: it stands behind a percent sign, and is
not in parentheses. -/
def Excerpt.Spreads (e : Excerpt source) (p : Phrase) (v : Value) : Prop :=
  e.tokensBefore.getLast? = some (.mark .percent) ∧ (∀ q, p ≠ .group q) ∧ ∃ vs, v = .list vs

/-- In parentheses the operand writes the tokens of a group. -/
theorem Excerpt.scan_parenthesized (e : Excerpt source) :
    scan ('(' :: (e.text ++ [')']) ++ textOf e.after) =
      behind (.mark .openParen :: (e.tokens ++ [.mark .closeParen])) (scan (textOf e.after)) := by
  obtain ⟨_, rfl, text⟩ := e.writes_text (')' :: textOf e.after) (.cons (by decide) _)
  have opening : scan ('(' :: (e.text ++ ')' :: textOf e.after)) = behind [.mark .openParen] _ :=
    scan_mark .openParen _
  have closing : scan (')' :: textOf e.after) = behind [.mark .closeParen] _ :=
    scan_mark .closeParen _
  rw [List.cons_append, List.append_assoc, List.singleton_append, opening, text, closing,
    behind_behind, behind_behind]
  rfl

/-- What an operand supplies it supplies in parentheses as well, unless it is a list without. -/
theorem Supplies.parenthesized {w : Value} {args : List Value} (h : Supplies p w args)
    (other : ¬((∀ q, p ≠ .group q) ∧ ∃ vs, w = .list vs)) : Supplies (.group p) w args := by
  cases h with
  | items bare => exact absurd ⟨bare, _, rfl⟩ other
  | group => exact .group
  | single => exact .group

/-- Where a list supplies its items, it would make another text in parentheses. -/
theorem not_means_format_group {scope : String → Option Value} {l : Phrase} {t : Value}
    {vs : List Value} (value : Means scope p (.list vs)) (bare : ∀ q, p ≠ .group q)
    (h : Means scope (.format l p) t) : ¬Means scope (.format l (.group p)) t := by
  intro h'
  cases h with
  | format left right supplied filled =>
    generalize same : Value.str _ = u at h'
    cases h' with
    | format left' right' supplied' filled' =>
      cases right' with
      | group inner =>
        obtain rfl := Value.str.inj (left.unique left')
        obtain rfl := value.unique right
        obtain rfl := value.unique inner
        obtain rfl := supplied.unique (.items bare)
        obtain rfl := supplied'.unique .group
        have shorter := length_fillFormat_lt filled filled'
        rw [String.ofList_inj.1 (Value.str.inj same)] at shorter
        exact absurd shorter (Nat.lt_irrefl _)

/-- An operand can be put in parentheses without a difference, unless it is a list that supplies its
items as arguments. There the format would have another value, if it had any. -/
theorem parse_parenthesized (accepted : parse source = .ok b) (operand : e.IsOperand p) :
    ∃ here v, BoundBefore e.tokensBefore here ∧ Means (here.lookup ·) p v ∧
      (¬e.Spreads p v → parse (e.replace ('(' :: (e.text ++ [')']))) = .ok b) ∧
      (e.Spreads p v → ∀ l t, Means (here.lookup ·) (.format l p) t →
        ¬Means (here.lookup ·) (.format l (.group p)) t) := by
  obtain ⟨here, v, before, value, replace⟩ := e.parse_replace accepted operand
  refine ⟨here, v, before, value, fun whole => ?_, fun ⟨_, bare, vs, list⟩ l t h => ?_⟩
  · have group : IsPrimary _ (.group p) := .group (IsUnary.primary operand.primary).isExpr
    refine replace _ _ (.group p) (.cons (by decide) _) e.scan_parenthesized (.primary group)
      (fun w => .group) fun percent w args h supplied => ?_
    obtain rfl := value.unique h
    exact supplied.parenthesized fun other => whole ⟨percent, other⟩
  · subst list
    exact not_means_format_group value bare h

end

/-! ## A format in parentheses, and its argument -/

/-- The text in front of the percent sign. -/
def textExcerpt : Excerpt formatSource where
  before := (lexemes formatSource.toList).1.take 15
  within := [⟨"'%s-%s'".toList, some (.string "%s-%s")⟩]
  after := (lexemes formatSource.toList).1.drop 16
  cut := by decide +kernel
  begins := rfl
  ends := rfl

/-- The text stands behind the name that is bound to the format. -/
theorem tokensBefore_textExcerpt :
    textExcerpt.tokensBefore = listTokens ++ [.name "x", .mark .equals] := by
  decide +kernel

/-- The name of the list stands behind the text. -/
theorem tokensBehind_textExcerpt : textExcerpt.tokensBehind = [.mark .percent, .name "t"] := by
  decide +kernel

/-- The text is an operand by itself, and any other one could stand there. -/
theorem isOperand_textExcerpt : textExcerpt.IsOperand (.text "%s-%s") where
  primary := .text "%s-%s" []
  place := by
    have format : IsExpr ([.integer 0] ++ .mark .percent :: ([.name "t"] ++ []))
        (.format (.integer 0) (.name "t")) :=
      (IsTerm.intro (.primary (.integer 0)) (.unary (.primary (.name "t")) .nil)).isExpr
    have file := isFile_listTokens (.cons "x" format .nil)
    rw [tokensBefore_textExcerpt, tokensBehind_textExcerpt]
    exact ⟨0, _, by simpa using file⟩

/-- The format text is put in parentheses. -/
theorem parse_parenthesized_format :
    parse formatSource = .ok formatBindings ∧ textExcerpt.IsOperand (.text "%s-%s") ∧
      textExcerpt.replace ('(' :: (textExcerpt.text ++ [')'])) =
        "t = ['a', 'b']\nx = ('%s-%s') % t\n" ∧
      parse "t = ['a', 'b']\nx = ('%s-%s') % t\n" = .ok formatBindings := by
  obtain ⟨here, v, -, -, parenthesized, -⟩ :=
    parse_parenthesized parse_formatSource isOperand_textExcerpt
  have text : textExcerpt.replace ('(' :: (textExcerpt.text ++ [')'])) =
      "t = ['a', 'b']\nx = ('%s-%s') % t\n" := by
    decide +kernel
  have alone : ¬textExcerpt.Spreads (.text "%s-%s") v := by
    rintro ⟨percent, -⟩
    rw [tokensBefore_textExcerpt] at percent
    cases percent
  exact ⟨parse_formatSource, isOperand_textExcerpt, text, text ▸ parenthesized alone⟩

/-- The reference is an operand, as an atom of an accepted source. -/
theorem isOperand_referenceExcerpt : referenceExcerpt.IsOperand (.name "t") :=
  Excerpt.isOperand_name parse_formatSource rfl nofun

/-- The reference to the list is put in parentheses, and the source is not accepted any more. -/
theorem list_in_parentheses_refused :
    parse formatSource = .ok formatBindings ∧ referenceExcerpt.IsOperand (.name "t") ∧
      referenceExcerpt.replace ('(' :: (referenceExcerpt.text ++ [')'])) =
        "t = ['a', 'b']\nx = '%s-%s' % (t)\n" ∧
      ∀ b, parse "t = ['a', 'b']\nx = '%s-%s' % (t)\n" ≠ .ok b := by
  have text : referenceExcerpt.replace ('(' :: (referenceExcerpt.text ++ [')'])) =
      "t = ['a', 'b']\nx = '%s-%s' % (t)\n" := by
    decide +kernel
  refine ⟨parse_formatSource, isOperand_referenceExcerpt, text, fun b accepted => ?_⟩
  have hscan := referenceExcerpt.scan_replace (.cons (by decide) _)
    referenceExcerpt.scan_parenthesized
  rw [text] at hscan
  obtain ⟨ps, final, file, binds, -⟩ := (parse_eq_ok_iff_of_scan hscan).1 accepted
  have group : IsPrimary [.mark .openParen, .name "t", .mark .closeParen] (.group (.name "t")) :=
    .group (IsUnary.primary (.name "t")).isExpr
  obtain rfl := file.unique (isFile_format (.primary group))
  -- The list is the only argument, and there is none for the second placeholder.
  cases binds with
  | cons first others =>
    cases others with
    | cons format _ =>
      cases format with
      | format left right supplied filled =>
        cases left
        cases supplied with
        | items bare => exact bare _ rfl
        | group | single => cases filled

end OverlaySync.Deps
