import Mathlib.Data.List.Induction
import OverlaySync.Proofs.Deps.Excerpts

/-! # Where tokens and faults are

A position is a line and a column: one more than the newlines before it, and one more than the
characters behind the last of these. Every token is reported at its first character. A source that
is refused is refused at the first character of a token, of a quoted text without an end or of an
integer beyond 64 bits, or at a character that starts nothing (`parse_positions`). So there is a
character where it is refused, even if the source ends too early. -/

namespace OverlaySync.Deps

namespace Position

/-- The position behind some characters: one more than the newlines among them, and one more than
the characters behind the last of these. -/
def behind (cs : List Char) : Position :=
  ⟨1 + cs.count '\n', 1 + (cs.reverse.takeWhile (· ≠ '\n')).length⟩

/-- The column of a place counts the characters behind the last newline. -/
theorem column_advance_start (cs : List Char) :
    (start.advance cs).column = 1 + (cs.reverse.takeWhile (· ≠ '\n')).length := by
  -- Only the last character decides how the column goes on.
  induction cs using List.reverseRecOn with
  | nil => rfl
  | append_singleton cs c ih =>
    rw [advance_append, advance_cons, advance_nil, step, List.reverse_append]
    by_cases newline : c = '\n'
    · simp [newline]
    · simp [newline, ih, Nat.add_assoc]

/-- Going on character by character comes to the position behind the characters. -/
theorem advance_start (cs : List Char) : start.advance cs = behind cs := by
  show Position.mk (start.advance cs).line (start.advance cs).column = behind cs
  rw [line_advance, column_advance_start]
  rfl

end Position

/-! ## What starts at a place -/

/-- Characters that start with a token. -/
def StartsToken (t : Token) (cs : List Char) : Prop :=
  ∃ c cs' l rest, cs = c :: cs' ∧ Lexeme.next c cs' = .ok (l, rest) ∧ l.token = some t

/-- Characters that start with no lexeme, and why. -/
inductive StartsFault : List Char → Cause → Prop where
  /-- A quote without another one that ends the text. -/
  | unterminatedString {c : Char} {cs : List Char} (opens : c = '\'' ∨ c = '"')
      (endless : quoted? c cs = none) : StartsFault (c :: cs) .unterminatedString
  /-- Digits that write a number beyond 64 bits. -/
  | integerOutOfRange {c : Char} {cs : List Char} (digit : c.isDigit = true)
      (large : Int64.maxValue.toInt < decimalValue (c :: cs.takeWhile Char.isDigit)) :
      StartsFault (c :: cs) .integerOutOfRange
  /-- A character that opens nothing and is no mark. -/
  | unexpectedCharacter {c : Char} {cs : List Char} (opens : Opening.of c = .other)
      (noMark : Mark.ofChar? c = none) : StartsFault (c :: cs) (.unexpectedCharacter c)

/-- Where no lexeme can be cut off, one of these is the reason. -/
theorem startsFault_of_next {c : Char} {cs : List Char} {cause : Cause}
    (h : Lexeme.next c cs = .error cause) : StartsFault (c :: cs) cause := by
  -- What opens with a letter, a blank or a hash is always cut off, so three reasons are left.
  unfold Lexeme.next at h
  split at h
  · cases h
  · cases h
  · next quote =>
    have opens : c = '\'' ∨ c = '"' := by grind [Opening.of]
    unfold Lexeme.quoted at h
    split at h
    · cases h
    · next endless =>
      cases h
      exact .unterminatedString opens endless
  · next opens =>
    have digit : c.isDigit = true := by grind [Opening.of]
    unfold Lexeme.integer at h
    split at h
    · cases h
    · next large =>
      cases h
      refine .integerOutOfRange digit (Int.not_le.1 fun small => ?_)
      rw [integer?, if_pos small] at large
      cases large
  · cases h
  · next opens =>
    unfold Lexeme.mark at h
    split at h
    · cases h
    · next noMark =>
      cases h
      exact .unexpectedCharacter opens noMark

/-- A source is cut up to a character where no lexeme starts. -/
theorem startsFault_of_lexemes {cs : List Char} {cause : Cause}
    (h : lexemes cs = ([], some cause)) : StartsFault cs cause := by
  unfold lexemes at h
  split at h
  · cases h
  · split at h
    · cases h
    · next hnext =>
      cases h
      exact startsFault_of_next hnext

/-! ## Places of tokens and faults -/

/-- The position of a place between lexemes. -/
def Cut.position {source : List Char} (place : Cut source) : Position :=
  .behind (textOf place.before)

/-- The characters of the lexemes before a place are as many as its offset counts. -/
theorem Cut.ofOffset_extent {source : List Char} (place : Cut source) :
    Position.ofOffset source (extent place.before) = place.position := by
  rw [Deps.ofOffset_extent place.whole, Position.advance_start]
  rfl

/-- A located token is one of the lexemes, and the others before it are what its offset counts. -/
theorem exists_lexeme_of_mem_locate {offset : Nat} {ls : List Lexeme} {t : Located}
    (mem : t ∈ locate offset ls) :
    ∃ before l after, ls = before ++ l :: after ∧ l.token = some t.token ∧
      t.offset = offset + extent before := by
  induction ls generalizing offset with
  | nil => cases mem
  | cons l ls ih =>
    have later : t ∈ locate (offset + l.text.length) ls →
        ∃ before m after, l :: ls = before ++ m :: after ∧ m.token = some t.token ∧
          t.offset = offset + extent before := by
      intro mem
      obtain ⟨before, m, after, rfl, token, place⟩ := ih mem
      refine ⟨l :: before, m, after, rfl, token, ?_⟩
      rw [place, extent, extent, List.flatMap_cons, List.length_append, Nat.add_assoc]
    unfold locate at mem
    cases token : l.token with
    | none =>
      rw [token] at mem
      exact later mem
    | some s =>
      rw [token] at mem
      rcases List.mem_cons.1 mem with rfl | mem
      · exact ⟨[], l, ls, rfl, token, rfl⟩
      · exact later mem

/-- Each token of a source is where it starts. -/
theorem exists_cut_of_mem_tokensOf {source : List Char} {ts : List Located} {t : Located}
    (h : tokensOf source = .ok ts) (mem : t ∈ ts) :
    ∃ place : Cut source, StartsToken t.token place.rest ∧
      Position.ofOffset source t.offset = place.position := by
  unfold tokensOf at h
  split at h
  · next ls hcut =>
    cases h
    obtain ⟨before, l, after, rfl, token, offset⟩ := exists_lexeme_of_mem_locate mem
    obtain ⟨place, rfl, hrest⟩ := exists_cut hcut
    obtain ⟨c, cs, rest, starts, hnext, -⟩ := lexemes_eq_cons hrest
    refine ⟨place, ⟨c, cs, l, rest, starts, hnext, token⟩, ?_⟩
    rw [offset, Nat.zero_add, place.ofOffset_extent]
  · cases h

/-- A source that cannot be cut any further is refused where that is. -/
theorem exists_cut_of_tokensOf {source : List Char} {e : SyntaxError}
    (h : tokensOf source = .error e) :
    ∃ place : Cut source, StartsFault place.rest e.cause ∧ e.position = place.position := by
  unfold tokensOf at h
  split at h
  · cases h
  · next ls cause hcut =>
    cases h
    rw [← List.append_nil ls] at hcut
    obtain ⟨place, rfl, hrest⟩ := exists_cut hcut
    exact ⟨place, startsFault_of_lexemes hrest, place.ofOffset_extent⟩

/-- Where there are tokens, a fault among them is at one of them. -/
theorem Fault.exists_offset {ts : List Located} (some : ts ≠ []) (f : Fault) :
    ∃ t ∈ ts, f.offset ts = t.offset := by
  unfold Fault.offset
  split
  · next there => exact ⟨_, List.mem_of_getElem? there, rfl⟩
  · next last => exact ⟨_, List.mem_of_getLast? last, rfl⟩
  · next none => exact absurd (List.getLast?_eq_none_iff.1 none) some

/-- Without tokens there is nothing to refuse. -/
theorem File.eval_read_nil : (File.read []).eval = .ok ∅ := by
  rw [File.read]
  rfl

/-- Every token of a source is reported at its first character. Every source that is refused is
refused at the first character of a token, or at a character where no lexeme starts. -/
theorem parse_positions (source : String) :
    (∀ ts, tokensOf source.toList = .ok ts → ∀ t ∈ ts, ∃ place : Cut source.toList,
      StartsToken t.token place.rest ∧
        Position.ofOffset source.toList t.offset = place.position) ∧
    ∀ e, parse source = .error e → ∃ place : Cut source.toList,
      ((∃ t, StartsToken t place.rest) ∨ StartsFault place.rest e.cause) ∧
        e.position = place.position := by
  refine ⟨fun ts tokens t mem => exists_cut_of_mem_tokensOf tokens mem, fun e refused => ?_⟩
  unfold parse at refused
  split at refused
  · next hfault =>
    cases refused
    obtain ⟨place, starts, here⟩ := exists_cut_of_tokensOf hfault
    exact ⟨place, .inr starts, here⟩
  · next ts tokens =>
    split at refused
    · cases refused
    · next f reading =>
      cases refused
      have some : ts ≠ [] := by
        rintro rfl
        rw [List.map_nil, File.eval_read_nil] at reading
        cases reading
      obtain ⟨t, mem, offset⟩ := f.exists_offset some
      obtain ⟨place, starts, here⟩ := exists_cut_of_mem_tokensOf tokens mem
      exact ⟨place, .inl ⟨_, starts⟩, by rw [← here, offset]⟩

/-! ## A sum without its second operand -/

/-- A source that ends behind a plus sign, with a text that is continued on another line and a
comment. -/
def unfinishedSource : String :=
  "x = 'a\\\nb' +  # text\n"

/-- The tokens of this source. -/
def unfinishedTokens : List Located :=
  [⟨0, .name "x"⟩, ⟨2, .mark .equals⟩, ⟨4, .string "ab"⟩, ⟨11, .mark .plus⟩]

/-- The comment and the spaces are passed over, and the text is put together from two lines. -/
theorem tokensOf_unfinishedSource : tokensOf unfinishedSource.toList = .ok unfinishedTokens := by
  have faultless : (lexemes unfinishedSource.toList).2 = none := by decide +kernel
  have places : locate 0 (lexemes unfinishedSource.toList).1 = unfinishedTokens := by
    decide +kernel
  unfold tokensOf
  rw [← places]
  split
  · next hcut => rw [hcut]
  · next hcut =>
    rw [hcut] at faultless
    cases faultless

/-- An end without a value is reported where the last token starts. -/
theorem parse_unfinishedSource :
    parse unfinishedSource = .error ⟨⟨2, 4⟩, .endReached .value⟩ := by
  have reading : (File.read (unfinishedTokens.map Located.token)).eval =
      .error ⟨0, .endReached .value⟩ := by
    simp only [unfinishedTokens, List.map_cons, List.map_nil, File.read, behind?, Expr.read,
      Expr.readAddends, Expr.readFormatted, Expr.readFormats, Expr.readUnary, Expr.readOperand,
      Reading.andThen, Reading.weaken, adjacentStrings, reduceCtorEq, if_true, if_false]
    rfl
  have here : Position.ofOffset unfinishedSource.toList 11 = ⟨2, 4⟩ := by decide +kernel
  rw [parse, tokensOf_unfinishedSource]
  dsimp only
  rw [reading, ← here]
  rfl

/-- The end of the source is reported at the plus sign, the last token. -/
theorem parse_positions_unfinished :
    tokensOf unfinishedSource.toList = .ok unfinishedTokens ∧
      (∃ place : Cut unfinishedSource.toList,
        StartsToken (.mark .plus) place.rest ∧ place.position = ⟨2, 4⟩) ∧
      parse unfinishedSource = .error ⟨⟨2, 4⟩, .endReached .value⟩ ∧
      ∃ place : Cut unfinishedSource.toList,
        ((∃ t, StartsToken t place.rest) ∨ StartsFault place.rest (.endReached .value)) ∧
          place.position = ⟨2, 4⟩ := by
  have here : Position.ofOffset unfinishedSource.toList 11 = ⟨2, 4⟩ := by decide +kernel
  obtain ⟨place, starts, plus⟩ := (parse_positions unfinishedSource).1 _ tokensOf_unfinishedSource
    ⟨11, .mark .plus⟩ (by decide)
  obtain ⟨place', starts', last⟩ := (parse_positions unfinishedSource).2 _ parse_unfinishedSource
  exact ⟨tokensOf_unfinishedSource, ⟨place, starts, plus.symm.trans here⟩, parse_unfinishedSource,
    place', starts', last.symm⟩

end OverlaySync.Deps
