import OverlaySync.Proofs.Deps.Excerpts

/-! # White space between tokens

White space, comments and joined lines can be put in front of a token or behind one without a
difference: the tokens of the source stay the same, and so do the names that it binds or the reason
why it is refused, if not its place (`parse_insert`). What is put in neither continues the token
before it nor takes in the one behind it: it starts with a character that is in no name and no
number, it is cut by itself, and a comment in front of it would have ended in a newline. -/

namespace OverlaySync.Deps

open Unicode (isBlank)

/-! ## What may stand between tokens -/

/-- White space, comments up to the end of their line, and backslashes at the end of a line. -/
inductive IsSpacing : List Char → Prop where
  /-- Nothing. -/
  | nil : IsSpacing []
  /-- White space, and what follows it. -/
  | blank {c : Char} {cs : List Char} (white : isBlank c = true) (others : IsSpacing cs) :
      IsSpacing (c :: cs)
  /-- A comment with the newline behind it, and what follows. -/
  | comment {line cs : List Char} (single : '\n' ∉ line) (others : IsSpacing cs) :
      IsSpacing ('#' :: (line ++ '\n' :: cs))
  /-- A backslash and the newline behind it, and what follows. -/
  | joined {cs : List Char} (others : IsSpacing cs) : IsSpacing ('\\' :: '\n' :: cs)

namespace IsSpacing

variable {cs : List Char}

/-- It writes no tokens. -/
theorem scan_append (h : IsSpacing cs) (rest : List Char) : scan (cs ++ rest) = scan rest := by
  induction h with
  | nil => rfl
  | blank white _ ih => rw [List.cons_append, scan_blank white, ih]
  | @comment line cs single _ ih =>
    -- The comment is taken up to its newline, which is skipped like any other white space.
    have inside : ∀ c ∈ line, decide (c ≠ '\n') = true := fun c there =>
      decide_eq_true (ne_of_mem_of_not_mem there single)
    have ends : ∀ c ∈ ('\n' :: (cs ++ rest)).head?, decide (c ≠ '\n') = false := by
      rintro c ⟨⟩
      rfl
    obtain ⟨taken, left⟩ := takeWhile_append_border inside ends
    have hnext := Lexeme.next_of_comment (show Opening.of '#' = .comment by decide)
      (line ++ '\n' :: (cs ++ rest))
    rw [taken, left] at hnext
    rw [List.cons_append, List.append_assoc, List.cons_append, scan_of_next hnext, scan_newline, ih]
    rfl
  | joined _ ih =>
    have hnext := Lexeme.next_of_skipped (show Opening.of '\\' = .skipped by decide)
    rw [List.cons_append, List.cons_append, scan_of_next (hnext _), scan_newline, ih]
    rfl

/-- It is not continued by a name or a number before it, unless there is nothing. -/
theorem border (h : IsSpacing cs) (some : cs ≠ []) (rest : List Char) : Border (cs ++ rest) := by
  cases h with
  | nil => exact absurd rfl some
  | blank white => exact .cons (isNameChar_eq_false_of_isBlank white) _
  | comment | joined => exact .cons (by decide) _

end IsSpacing

/-! ## Places next to a token -/

/-- A place directly behind a token or directly in front of one. -/
structure Gap (source : String) extends Cut source.toList where
  /-- The source is cut without a fault. -/
  faultless : (lexemes source.toList).2 = none
  /-- A token ends there, or one starts there. -/
  bordering : before.getLast?.any (·.token.isSome) = true ∨
    (lexemes rest).1.head?.any (·.token.isSome) = true

namespace Gap

variable {source : String} (gap : Gap source)

/-- The source with other characters put in. -/
def insert (cs : List Char) : String :=
  String.ofList (textOf gap.before ++ (cs ++ gap.rest))

/-- There is no comment before the place: its newline would come before the next token. -/
theorem isComment_eq_false {l : Lexeme} (last : l ∈ gap.before.getLast?) :
    l.isComment = false := by
  rcases gap.bordering with ends | starts
  · rw [Option.mem_def.1 last] at ends
    exact l.isComment_eq_false ends
  · exact isComment_eq_false_of_next gap.apart starts last

/-- What is put in makes no difference to the tokens. -/
theorem scan_insert {cs : List Char} (spacing : IsSpacing cs) :
    scan (gap.insert cs).toList = scan source.toList := by
  have same : (cs ++ gap.rest).head? = gap.rest.head? ∨
      ∀ l ∈ gap.before.getLast?, l.EndsBefore (cs ++ gap.rest) := by
    by_cases some : cs = []
    · subst some
      exact .inl rfl
    · refine .inr fun l last => ?_
      exact (Lexeme.endsBefore_iff (gap.isComment_eq_false last)).2 (spacing.border some _)
  rw [insert, String.toList_ofList, scan_of_lexemes (gap.lexemes_append same),
    spacing.scan_append, scan_of_lexemes gap.apart]

end Gap

/-- White space, comments and joined lines next to a token make no difference to the tokens of a
source, and so none to what it binds or why it is refused. -/
theorem parse_insert {source : String} (gap : Gap source) {cs : List Char}
    (spacing : IsSpacing cs) :
    (∃ ts ts', tokensOf source.toList = .ok ts ∧ tokensOf (gap.insert cs).toList = .ok ts' ∧
      ts'.map Located.token = ts.map Located.token) ∧
    (parse (gap.insert cs)).mapError SyntaxError.cause =
      (parse source).mapError SyntaxError.cause := by
  have same := gap.scan_insert spacing
  constructor
  · have faultless : scan source.toList = ((scan source.toList).1, none) :=
      Prod.ext rfl gap.faultless
    obtain ⟨ts, tokens, read⟩ := tokensOf_of_scan faultless
    obtain ⟨ts', tokens', read'⟩ := tokensOf_of_scan (same.trans faultless)
    exact ⟨ts, ts', tokens, tokens', read'.trans read.symm⟩
  · rw [mapError_parse, mapError_parse, same]

/-! ## A sum without white space -/

/-- A sum of a text and a name that is bound to nothing. -/
def tightSource : String :=
  "x='a'+b_1"

/-- The place between the plus sign and the name. -/
def tightGap : Gap tightSource where
  before := (lexemes tightSource.toList).1.take 4
  rest := "b_1".toList
  whole := by decide +kernel
  apart := by decide +kernel
  faultless := by decide +kernel
  bordering := by decide +kernel

/-- The sum is refused for the name, which is bound to nothing. -/
theorem mapError_parse_tightSource :
    (parse tightSource).mapError SyntaxError.cause = .error (.undefinedName "b_1") := by
  have tokens : scan tightSource.toList =
      ([.name "x", .mark .equals, .string "a", .mark .plus, .name "b_1"], none) := by
    decide +kernel
  have reading : (File.read [.name "x", .mark .equals, .string "a", .mark .plus,
      .name "b_1"]).eval = .error ⟨1, .undefinedName "b_1"⟩ := by
    simp only [File.read, behind?, Expr.read, Expr.readAddends, Expr.readFormatted,
      Expr.readFormats, Expr.readUnary, Expr.readOperand, Reading.andThen, Reading.weaken,
      adjacentStrings, File.cons, reduceCtorEq, if_true, if_false]
    rfl
  rw [mapError_parse, tokens, outcome, reading]
  rfl

/-- A comment and a joined line are put in front of the name. -/
theorem parse_insert_tight :
    IsSpacing (' ' :: '#' :: ([' ', 'a'] ++ ['\n', '\\', '\n'])) ∧
      tightGap.insert (' ' :: '#' :: ([' ', 'a'] ++ ['\n', '\\', '\n'])) =
        "x='a'+ # a\n\\\nb_1" ∧
      (parse "x='a'+ # a\n\\\nb_1").mapError SyntaxError.cause =
        .error (.undefinedName "b_1") := by
  have spacing : IsSpacing (' ' :: '#' :: ([' ', 'a'] ++ ['\n', '\\', '\n'])) :=
    .blank (by decide) (.comment (by decide) (.joined .nil))
  have text : tightGap.insert (' ' :: '#' :: ([' ', 'a'] ++ ['\n', '\\', '\n'])) =
      "x='a'+ # a\n\\\nb_1" := by
    decide +kernel
  have same := (parse_insert tightGap spacing).2
  rw [text, mapError_parse_tightSource] at same
  exact ⟨spacing, text, same⟩

end OverlaySync.Deps
