import Mathlib.Data.List.Forall2
import OverlaySync.Deps.Format
import OverlaySync.Proofs.Outcome

/-! # What formats write

A format is a row of parts: characters that stand for themselves, percent signs that are written
twice, and placeholders. It can be filled exactly if it has such parts, with one placeholder for
each argument that the argument suits (`fillFormat_eq_ok_iff`). What is written then is the parts
with the texts of the arguments in the place of the placeholders, and nothing else of these texts
is looked at. As parts and arguments are told apart in this way, formats that can be filled can be
put together, and so can what they write. -/

namespace OverlaySync.Deps

/-! ## Parts of formats -/

/-- A place in a format that an argument fills. -/
inductive Placeholder where
  /-- `%s`, for any value. -/
  | any
  /-- `%d`, for integers. -/
  | integer
  deriving DecidableEq, Repr

namespace Placeholder

/-- The letter behind the percent sign. -/
def letter : Placeholder → Char
  | any => 's'
  | integer => 'd'

/-- The values that suit a placeholder. -/
def Takes : Placeholder → Value → Prop
  | any, _ => True
  | integer, v => ∃ n, v = .int n

end Placeholder

/-- A part of a format. -/
inductive FormatPart where
  /-- A character that stands for itself. -/
  | plain (c : Char) (notPercent : c ≠ '%')
  /-- A percent sign, written twice. -/
  | percent
  /-- A placeholder. -/
  | placeholder (p : Placeholder)
  deriving DecidableEq, Repr

namespace FormatPart

/-- How a part is written. -/
def text : FormatPart → List Char
  | plain c _ => [c]
  | percent => ['%', '%']
  | placeholder p => ['%', p.letter]

/-- The placeholder that a part is. -/
def placeholder? : FormatPart → Option Placeholder
  | placeholder p => some p
  | _ => none

end FormatPart

/-- The format that is made of some parts. -/
def formatOf (parts : List FormatPart) : List Char :=
  parts.flatMap FormatPart.text

/-- The placeholders among some parts. -/
def placeholders (parts : List FormatPart) : List Placeholder :=
  parts.filterMap FormatPart.placeholder?

/-- The parts, with texts in the place of the placeholders. -/
def filledWith : List FormatPart → List (List Char) → List Char
  | .plain c _ :: parts, texts => c :: filledWith parts texts
  | .percent :: parts, texts => '%' :: filledWith parts texts
  | .placeholder _ :: parts, text :: texts => text ++ filledWith parts texts
  | .placeholder _ :: _, [] | [], _ => []

/-- A format starts with the text of its first part. -/
@[simp] theorem formatOf_cons (part : FormatPart) (parts : List FormatPart) :
    formatOf (part :: parts) = part.text ++ formatOf parts :=
  List.flatMap_cons

/-- Formats put together have the parts of both. -/
theorem formatOf_append (parts parts' : List FormatPart) :
    formatOf (parts ++ parts') = formatOf parts ++ formatOf parts' :=
  List.flatMap_append

/-- The placeholders of both are filled in the same order. -/
theorem placeholders_append (parts parts' : List FormatPart) :
    placeholders (parts ++ parts') = placeholders parts ++ placeholders parts' :=
  List.filterMap_append

/-- The first one or two characters tell which part a format starts with. -/
theorem FormatPart.eq_of_text_append {part part' : FormatPart} {cs cs' : List Char}
    (same : part.text ++ cs = part'.text ++ cs') : part = part' ∧ cs = cs' := by
  cases part with
  | plain c notPercent =>
    cases part' with
    | plain => simp_all [text]
    | percent | placeholder => exact absurd (List.cons.inj same).1 notPercent
  | percent =>
    cases part' with
    | plain c notPercent => exact absurd (List.cons.inj same).1.symm notPercent
    | percent => simp_all [text]
    | placeholder q => cases q <;> simp [text, Placeholder.letter] at same
  | placeholder p =>
    cases part' with
    | plain c notPercent => exact absurd (List.cons.inj same).1.symm notPercent
    | percent => cases p <;> simp [text, Placeholder.letter] at same
    | placeholder q => cases p <;> cases q <;> simp_all [text, Placeholder.letter]

/-- A format has one way to be cut into parts. -/
theorem formatOf_injective {parts parts' : List FormatPart}
    (same : formatOf parts = formatOf parts') : parts = parts' := by
  induction parts generalizing parts' with
  | nil =>
    cases parts' with
    | nil => rfl
    | cons part _ => cases part <;> cases same
  | cons part parts ih =>
    cases parts' with
    | nil => cases part <;> cases same
    | cons part' parts' =>
      rw [formatOf_cons, formatOf_cons] at same
      obtain ⟨rfl, others⟩ := FormatPart.eq_of_text_append same
      rw [ih others]

/-- Parts that are put together take their texts in turn. -/
theorem filledWith_append {parts : List FormatPart} {texts : List (List Char)}
    (one : (placeholders parts).length = texts.length) (parts' : List FormatPart)
    (texts' : List (List Char)) :
    filledWith (parts ++ parts') (texts ++ texts') =
      filledWith parts texts ++ filledWith parts' texts' := by
  -- On the parts: a placeholder takes the next text, and any other part none.
  induction parts generalizing texts with
  | nil =>
    cases texts with
    | nil => rfl
    | cons text texts => cases one
  | cons part parts ih =>
    cases part with
    | plain c notPercent =>
      show c :: filledWith (parts ++ parts') (texts ++ texts') = _
      rw [ih one]
      rfl
    | percent =>
      show '%' :: filledWith (parts ++ parts') (texts ++ texts') = _
      rw [ih one]
      rfl
    | placeholder p =>
      cases texts with
      | nil => cases one
      | cons text texts =>
        show text ++ filledWith (parts ++ parts') (texts ++ texts') = _
        rw [ih (Nat.succ.inj one), ← List.append_assoc]
        rfl

/-- The texts in the place of the placeholders are all that makes a difference in length. -/
theorem length_filledWith {parts : List FormatPart} {texts : List (List Char)}
    (one : (placeholders parts).length = texts.length) :
    (filledWith parts texts).length =
      (filledWith parts (texts.map fun _ => [])).length + texts.flatten.length := by
  induction parts generalizing texts with
  | nil =>
    cases texts with
    | nil => rfl
    | cons text texts => cases one
  | cons part parts ih =>
    cases part with
    | plain c notPercent =>
      show (filledWith parts texts).length + 1 = (filledWith parts _).length + 1 + _
      rw [ih one, Nat.add_right_comm]
    | percent =>
      show (filledWith parts texts).length + 1 = (filledWith parts _).length + 1 + _
      rw [ih one, Nat.add_right_comm]
    | placeholder p =>
      cases texts with
      | nil => cases one
      | cons text texts =>
        show (text ++ filledWith parts texts).length = (filledWith parts _).length + _
        rw [List.length_append, ih (Nat.succ.inj one), List.flatten_cons, List.length_append,
          Nat.add_left_comm]

/-! ## Filling, part by part -/

/-- There is one text for each placeholder. -/
theorem length_placeholders {parts : List FormatPart} {args : List Value}
    (suits : List.Forall₂ Placeholder.Takes (placeholders parts) args) :
    (placeholders parts).length = (args.map Value.display).length := by
  rw [suits.length_eq, List.length_map]

/-- A character other than a percent sign stands for itself. -/
theorem fillFormat_cons_of_ne {c : Char} (h : c ≠ '%') (cs : List Char) (args : List Value) :
    fillFormat (c :: cs) args = (fillFormat cs args).map (c :: ·) := by
  rw [fillFormat] <;> simp [h]

/-- A placeholder writes the text of an argument that suits it. -/
theorem fillFormat_placeholder {p : Placeholder} {v : Value} (h : p.Takes v) (cs : List Char)
    (args : List Value) :
    fillFormat ('%' :: p.letter :: cs) (v :: args) =
      (fillFormat cs args).map (v.display ++ ·) := by
  cases p with
  | any => rfl
  | integer =>
    obtain ⟨n, rfl⟩ := h
    rfl

/-- A format is filled if its placeholders suit the arguments one by one. -/
theorem fillFormat_formatOf {parts : List FormatPart} {args : List Value}
    (suits : List.Forall₂ Placeholder.Takes (placeholders parts) args) :
    fillFormat (formatOf parts) args = .ok (filledWith parts (args.map Value.display)) := by
  induction parts generalizing args with
  | nil =>
    cases suits
    rfl
  | cons part parts ih =>
    cases part with
    | plain c notPercent =>
      show fillFormat (c :: formatOf parts) args = _
      rw [fillFormat_cons_of_ne notPercent, ih suits]
      rfl
    | percent =>
      show fillFormat ('%' :: '%' :: formatOf parts) args = _
      rw [fillFormat, ih suits]
      rfl
    | placeholder p =>
      cases suits with
      | cons takes suits =>
        show fillFormat ('%' :: p.letter :: formatOf parts) _ = _
        rw [fillFormat_placeholder takes, ih suits]
        rfl

/-- A format that is filled has parts whose placeholders suit the arguments. -/
theorem exists_parts_of_fillFormat {format text : List Char} {args : List Value}
    (h : fillFormat format args = .ok text) :
    ∃ parts, format = formatOf parts ∧
      List.Forall₂ Placeholder.Takes (placeholders parts) args := by
  -- On the run of the filling, whose successful cases are the kinds of parts; the others fail.
  fun_induction fillFormat format args generalizing text with
  | case1 => exact ⟨[], rfl, .nil⟩
  | case4 cs args ih =>
    obtain ⟨_, filled, -⟩ := Outcome.map_eq_ok_iff.1 h
    obtain ⟨parts, rfl, suits⟩ := ih filled
    exact ⟨.percent :: parts, rfl, suits⟩
  | case6 cs v vs ih =>
    obtain ⟨_, filled, -⟩ := Outcome.map_eq_ok_iff.1 h
    obtain ⟨parts, rfl, suits⟩ := ih filled
    exact ⟨.placeholder .any :: parts, rfl, .cons trivial suits⟩
  | case8 cs n vs ih =>
    obtain ⟨_, filled, -⟩ := Outcome.map_eq_ok_iff.1 h
    obtain ⟨parts, rfl, suits⟩ := ih filled
    exact ⟨.placeholder .integer :: parts, rfl, .cons ⟨n, rfl⟩ suits⟩
  | case11 c cs args _ _ _ _ _ _ _ _ ih =>
    have notPercent : c ≠ '%' := by
      rintro rfl
      cases cs <;> simp_all
    obtain ⟨_, filled, -⟩ := Outcome.map_eq_ok_iff.1 h
    obtain ⟨parts, rfl, suits⟩ := ih filled
    exact ⟨.plain c notPercent :: parts, rfl, suits⟩
  | _ => cases h

/-- A format can be filled exactly if it has parts whose placeholders suit the arguments one by
one, and then the texts of the arguments stand in the place of these. -/
theorem fillFormat_eq_ok_iff {format text : List Char} {args : List Value} :
    fillFormat format args = .ok text ↔
      ∃ parts, format = formatOf parts ∧
        List.Forall₂ Placeholder.Takes (placeholders parts) args ∧
        text = filledWith parts (args.map Value.display) := by
  constructor
  · intro h
    obtain ⟨parts, rfl, suits⟩ := exists_parts_of_fillFormat h
    rw [fillFormat_formatOf suits] at h
    exact ⟨parts, rfl, suits, (Except.ok.inj h).symm⟩
  · rintro ⟨parts, rfl, suits, rfl⟩
    exact fillFormat_formatOf suits

/-! ## Formats that are put together -/

/-- A text with each percent sign written twice. -/
def doubled (text : List Char) : List Char :=
  text.flatMap fun c => if c = '%' then ['%', '%'] else [c]

/-- The part that writes one character. -/
def FormatPart.literal (c : Char) : FormatPart :=
  if h : c = '%' then .percent else .plain c h

/-- A text with its percent signs doubled has parts without placeholders, which write the text. -/
theorem doubled_eq_formatOf (text : List Char) :
    doubled text = formatOf (text.map .literal) ∧ placeholders (text.map .literal) = [] ∧
      filledWith (text.map .literal) [] = text := by
  induction text with
  | nil => exact ⟨rfl, rfl, rfl⟩
  | cons c cs ih =>
    obtain ⟨written, bare, read⟩ := ih
    rw [doubled, List.flatMap_cons, ← doubled, written, List.map_cons]
    by_cases percent : c = '%'
    · subst percent
      exact ⟨rfl, bare, congrArg _ read⟩
    · rw [FormatPart.literal, dif_neg percent, if_neg percent]
      exact ⟨rfl, bare, congrArg _ read⟩

/-- A format is filled exactly if it is made of plain characters, doubled percent signs and
placeholders that suit the arguments one by one; each placeholder is replaced by the text of its
argument, which is not looked at again. So formats can be put together with their arguments and
their texts, and a text with its percent signs doubled is a format of itself. -/
theorem fillFormat_replaces_placeholders :
    (∀ format args text, fillFormat format args = .ok text ↔
      ∃ parts, format = formatOf parts ∧
        List.Forall₂ Placeholder.Takes (placeholders parts) args ∧
        text = filledWith parts (args.map Value.display)) ∧
    (∀ format args text format' args' text', fillFormat format args = .ok text →
      fillFormat format' args' = .ok text' →
      fillFormat (format ++ format') (args ++ args') = .ok (text ++ text')) ∧
    ∀ text, fillFormat (doubled text) [] = .ok text := by
  refine ⟨fun format args text => fillFormat_eq_ok_iff, ?_, ?_⟩
  · intro format args text format' args' text' filled filled'
    obtain ⟨parts, rfl, suits, rfl⟩ := fillFormat_eq_ok_iff.1 filled
    obtain ⟨parts', rfl, suits', rfl⟩ := fillFormat_eq_ok_iff.1 filled'
    refine fillFormat_eq_ok_iff.2 ⟨parts ++ parts', (formatOf_append _ _).symm, ?_, ?_⟩
    · rw [placeholders_append]
      exact List.rel_append suits suits'
    · rw [List.map_append, filledWith_append (length_placeholders suits)]
  · intro text
    obtain ⟨written, bare, read⟩ := doubled_eq_formatOf text
    refine fillFormat_eq_ok_iff.2 ⟨text.map .literal, written, ?_, read.symm⟩
    rw [bare]
    exact .nil

/-- The argument of the first format looks like a placeholder, and is not filled from the second
one. -/
theorem fillFormat_replaces_placeholders_small :
    fillFormat "%s is 100%%".toList [.str "%d"] = .ok "%d is 100%".toList ∧
      fillFormat " of %d".toList [.int (-7)] = .ok " of -7".toList ∧
      fillFormat ("%s is 100%%".toList ++ " of %d".toList) ([.str "%d"] ++ [.int (-7)]) =
        .ok ("%d is 100%".toList ++ " of -7".toList) := by
  have filled : fillFormat "%s is 100%%".toList [.str "%d"] = .ok "%d is 100%".toList := by
    decide +kernel
  have filled' : fillFormat " of %d".toList [.int (-7)] = .ok " of -7".toList := by
    decide +kernel
  exact ⟨filled, filled', fillFormat_replaces_placeholders.2.1 _ _ _ _ _ _ filled filled'⟩

end OverlaySync.Deps
