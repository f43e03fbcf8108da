import Mathlib.Data.List.Basic
import OverlaySync.Proofs.Diff.LineText
import OverlaySync.Release.Branch

/-! # The reference that gives the branch

On a line the search goes on behind every reference that it finds, so the last one counts, wherever
the references overlap with what only starts like one; among the lines it is the first one with a
reference that counts. What stands behind that line is never looked at, be it text or not.

Main statement: `branchIn_gives_last_reference`. -/

namespace OverlaySync.Release

open Unicode (isDecimalDigit)

variable {cs before digits : List Char}

/-! ## References in a text -/

/-- Behind `before`, the text holds a reference to a branch with these digits: they are decimal
digits, at least one, and an at sign follows them. -/
structure RefersBehind (before digits cs : List Char) : Prop where
  ne_nil : digits ≠ []
  decimal : ∀ d ∈ digits, isDecimalDigit d = true
  text : ∃ after, cs = before ++ (referenceStart ++ (digits ++ '@' :: after))

/-- The text holds a reference to a branch. -/
def Refers (cs : List Char) : Prop :=
  ∃ before digits, RefersBehind before digits cs

/-- The right-most reference in the text has these digits. -/
def RefersLast (digits cs : List Char) : Prop :=
  ∃ before, RefersBehind before digits cs ∧
    ∀ before' digits', RefersBehind before' digits' cs → before'.length ≤ before.length

/-- Digits in front of an at sign are all the digits there. -/
theorem reference?_eq_some_iff : reference? cs = some digits ↔ RefersBehind [] digits cs := by
  have atSign : isDecimalDigit '@' = false := by decide
  rw [reference?, Option.bind_eq_bind, Option.bind_eq_some_iff]
  constructor
  · rintro ⟨rest, starts, h⟩
    rw [List.isPrefixOf?_eq_some_iff_append_eq] at starts
    split at h
    · next d ds after taken left =>
      cases h
      -- The digits are all there are, for an at sign is none.
      have whole := List.takeWhile_append_dropWhile (p := isDecimalDigit) (l := rest)
      rw [taken, left] at whole
      refine ⟨nofun, ?_, after, by rw [← starts, ← whole]; rfl⟩
      rw [← taken]
      exact List.all_eq_true.1 List.all_takeWhile
    · cases h
  · rintro ⟨some, decimal, after, rfl⟩
    refine ⟨_, List.isPrefixOf?_eq_some_iff_append_eq.2 rfl, ?_⟩
    rw [List.takeWhile_append_of_pos decimal, List.dropWhile_append_of_pos decimal,
      List.takeWhile_cons_of_neg (by simp [atSign]), List.dropWhile_cons_of_neg (by simp [atSign]),
      List.append_nil]
    obtain ⟨d, ds, rfl⟩ := List.exists_cons_of_ne_nil some
    rfl

/-- A reference is at the start of a text, or behind its first character. -/
theorem refersBehind_cons_iff {c : Char} :
    RefersBehind before digits (c :: cs) ↔
      before = [] ∧ RefersBehind [] digits (c :: cs) ∨
        ∃ before', before = c :: before' ∧ RefersBehind before' digits cs := by
  constructor
  · rintro ⟨some, decimal, after, h⟩
    cases before with
    | nil => exact .inl ⟨rfl, some, decimal, after, h⟩
    | cons b before =>
      obtain ⟨rfl, behind⟩ := List.cons.inj h
      exact .inr ⟨before, rfl, some, decimal, after, behind⟩
  · rintro (⟨rfl, h⟩ | ⟨before, rfl, some, decimal, after, rfl⟩)
    · exact h
    · exact ⟨some, decimal, after, rfl⟩

/-- A reference stands where what is left of the text begins with one. -/
theorem refersBehind_append_iff {rest : List Char} :
    RefersBehind before digits (before ++ rest) ↔ reference? rest = some digits := by
  rw [reference?_eq_some_iff]
  constructor
  · rintro ⟨some, decimal, after, h⟩
    exact ⟨some, decimal, after, List.append_cancel_left h⟩
  · rintro ⟨some, decimal, after, h⟩
    exact ⟨some, decimal, after, congrArg (before ++ ·) h⟩

/-- There is one right-most reference. -/
theorem RefersLast.unique {digits' : List Char} (h : RefersLast digits cs)
    (h' : RefersLast digits' cs) : digits = digits' := by
  obtain ⟨before, here, rightmost⟩ := h
  obtain ⟨before', here', rightmost'⟩ := h'
  have length := Nat.le_antisymm (rightmost' _ _ here) (rightmost _ _ here')
  obtain ⟨after, rfl⟩ := here.text
  obtain ⟨after', h⟩ := here'.text
  obtain rfl := List.append_inj_left h length
  exact Option.some.inj <|
    (refersBehind_append_iff.1 here).symm.trans (refersBehind_append_iff.1 here')

/-- What is found in a text is its right-most reference, and nothing is found if it has none. -/
theorem lastReference?_spec (cs : List Char) :
    match lastReference? cs with
    | some digits => RefersLast digits cs
    | none => ¬Refers cs := by
  induction cs with
  | nil =>
    rintro ⟨before, digits, some, decimal, after, h⟩
    have start : referenceStart ≠ [] := by decide
    simp [start] at h
  | cons c cs ih =>
    rw [lastReference?]
    cases later : lastReference? cs with
    | some digits =>
      -- A reference behind the first character is further right than one at it.
      rw [later] at ih
      obtain ⟨before, here, rightmost⟩ := ih
      refine ⟨c :: before, refersBehind_cons_iff.2 (.inr ⟨before, rfl, here⟩), ?_⟩
      intro before' digits' h
      obtain ⟨rfl, -⟩ | ⟨before', rfl, behind⟩ := refersBehind_cons_iff.1 h
      · exact Nat.zero_le _
      · exact Nat.succ_le_succ (rightmost before' digits' behind)
    | none =>
      rw [later] at ih
      rw [Option.none_or]
      cases first : reference? (c :: cs) with
      | some digits =>
        refine ⟨[], reference?_eq_some_iff.1 first, fun before' digits' h => ?_⟩
        obtain ⟨rfl, -⟩ | ⟨before', rfl, behind⟩ := refersBehind_cons_iff.1 h
        · exact Nat.le_refl _
        · exact absurd ⟨before', digits', behind⟩ ih
      | none =>
        rintro ⟨before, digits, h⟩
        obtain ⟨rfl, here⟩ | ⟨before, rfl, behind⟩ := refersBehind_cons_iff.1 h
        · rw [reference?_eq_some_iff.2 here] at first
          cases first
        · exact ih ⟨before, digits, behind⟩

/-- The search finds the right-most reference. -/
theorem lastReference?_eq_some_iff : lastReference? cs = some digits ↔ RefersLast digits cs := by
  have spec := lastReference?_spec cs
  constructor
  · intro found
    rwa [found] at spec
  · intro last
    cases found : lastReference? cs with
    | some digits' =>
      rw [found] at spec
      rw [spec.unique last]
    | none =>
      rw [found] at spec
      obtain ⟨before, here, -⟩ := last
      exact absurd ⟨before, digits, here⟩ spec

/-- Digits without an at sign are passed over, and so is a start within a start. -/
example : lastReference?
      "/branches/chromium/1@/branches/chromium//branches/chromium/22@3@4".toList =
    some ['2', '2'] := by
  decide +kernel

/-- The search finds nothing exactly if there is no reference. -/
theorem lastReference?_eq_none_iff : lastReference? cs = none ↔ ¬Refers cs := by
  have spec := lastReference?_spec cs
  constructor
  · intro found
    rwa [found] at spec
  · intro none
    cases found : lastReference? cs with
    | some digits =>
      rw [found] at spec
      obtain ⟨before, here, -⟩ := spec
      exact absurd ⟨before, digits, here⟩ none
    | none => rfl

/-! ## Lines -/

/-- A file is cut at its newlines, and a carriage return in front of a newline is left out. The last
line is what is left behind them. -/
theorem exists_linesOf (bytes : List UInt8) :
    ∃ (ended : List (List UInt8)) (last : List UInt8),
      bytes = ended.flatMap (· ++ [10]) ++ last ∧ (∀ line ∈ ended, 10 ∉ line) ∧ 10 ∉ last ∧
      linesOf bytes = ended.map dropReturn ++ [last] := by
  obtain ⟨ended, last, cut⟩ := (Text.pieces 10 bytes).eq_nil_or_concat.resolve_left
    (Text.pieces_ne_nil 10 bytes)
  rw [List.concat_eq_append] at cut
  have free (line : List UInt8) (there : line ∈ ended ++ [last]) : 10 ∉ line :=
    Text.not_mem_of_mem_pieces (cut ▸ there)
  refine ⟨ended, last, ?_, fun line there => free line (by simp [there]), free last (by simp), ?_⟩
  · rw [← Text.joined_concat, ← cut, Text.joined_pieces]
  · simp [linesOf, cut]

/-- A line of text that refers to no branch. -/
def IsPlain (line : List UInt8) : Prop :=
  ∃ s, Unicode.decode? ⟨line.toArray⟩ = some s ∧ ¬Refers s.toList

/-- What the lines of a file give: the right-most reference on the first line that has one, if all
lines up to there are text. -/
inductive Gives : List (List UInt8) → Except Refusal (Option String) → Prop where
  /-- A line refers to a branch, and none before it does. -/
  | branch {front : List (List UInt8)} {line : List UInt8} {s branch : String}
      (plain : ∀ l ∈ front, IsPlain l) (text : Unicode.decode? ⟨line.toArray⟩ = some s)
      (last : RefersLast branch.toList s.toList) (behind : List (List UInt8)) :
      Gives (front ++ line :: behind) (.ok (some branch))
  /-- A line is no text, and none before it refers to a branch. -/
  | noText {front : List (List UInt8)} {line : List UInt8} (plain : ∀ l ∈ front, IsPlain l)
      (noText : Unicode.decode? ⟨line.toArray⟩ = none) (behind : List (List UInt8)) :
      Gives (front ++ line :: behind) (.error .invalidText)
  /-- No line refers to a branch. -/
  | none {lines : List (List UInt8)} (plain : ∀ l ∈ lines, IsPlain l) : Gives lines (.ok none)

/-- A plain line in front of others makes no difference. -/
theorem Gives.cons {line : List UInt8} {lines : List (List UInt8)}
    {result : Except Refusal (Option String)} (plain : IsPlain line) (h : Gives lines result) :
    Gives (line :: lines) result := by
  cases h with
  | branch others text last behind =>
    exact .branch (List.forall_mem_cons.2 ⟨plain, others⟩) text last behind
  | noText others noText behind =>
    exact .noText (List.forall_mem_cons.2 ⟨plain, others⟩) noText behind
  | none others => exact .none (List.forall_mem_cons.2 ⟨plain, others⟩)

/-- The lines are gone through in this way. -/
theorem gives_branchInLines (lines : List (List UInt8)) : Gives lines (branchInLines lines) := by
  induction lines with
  | nil => exact .none nofun
  | cons line lines ih =>
    rw [branchInLines]
    cases text : Unicode.decode? ⟨line.toArray⟩ with
    | none => exact .noText (List.forall_mem_nil _) text lines
    | some s =>
      dsimp only
      cases found : lastReference? s.toList with
      | some digits =>
        refine .branch (List.forall_mem_nil _) text ?_ lines
        rw [String.toList_ofList]
        exact lastReference?_eq_some_iff.1 found
      | none => exact ih.cons ⟨s, text, lastReference?_eq_none_iff.1 found⟩

/-- Plain lines in front of others are passed over. -/
theorem branchInLines_append {front : List (List UInt8)} (plain : ∀ l ∈ front, IsPlain l)
    (lines : List (List UInt8)) : branchInLines (front ++ lines) = branchInLines lines := by
  induction front with
  | nil => rfl
  | cons line front ih =>
    obtain ⟨⟨s, text, none⟩, others⟩ := List.forall_mem_cons.1 plain
    rw [List.cons_append, branchInLines, text]
    dsimp only
    rw [lastReference?_eq_none_iff.2 none]
    exact ih others

/-- Nothing else comes of the lines. -/
theorem Gives.branchInLines_eq {lines : List (List UInt8)}
    {result : Except Refusal (Option String)} (h : Gives lines result) :
    branchInLines lines = result := by
  cases h with
  | branch plain text last behind =>
    rw [branchInLines_append plain, branchInLines, text]
    dsimp only
    rw [lastReference?_eq_some_iff.2 last]
    simp
  | noText plain noText behind => rw [branchInLines_append plain, branchInLines, noText]
  | none plain =>
    rw [← List.append_nil lines, branchInLines_append plain]
    rfl

/-- A file is cut into its lines, and the branch is the right-most reference on the first line that
has one, whatever follows that line. If a line that is no text comes first, this is refused; if all
lines are text without a reference, there is no branch. -/
theorem branchIn_gives_last_reference (bytes : ByteArray) :
    ∃ (ended : List (List UInt8)) (last : List UInt8),
      bytes.toList = ended.flatMap (· ++ [10]) ++ last ∧
      (∀ line ∈ ended, 10 ∉ line) ∧ 10 ∉ last ∧
      ∀ result, branchIn bytes = result ↔ Gives (ended.map dropReturn ++ [last]) result := by
  obtain ⟨ended, last, whole, free, free', cut⟩ := exists_linesOf bytes.toList
  refine ⟨ended, last, whole, free, free', fun result => ?_⟩
  rw [branchIn, cut]
  constructor
  · rintro rfl
    exact gives_branchInLines _
  · exact Gives.branchInLines_eq

end OverlaySync.Release
