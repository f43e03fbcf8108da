import OverlaySync.Proofs.Deps.RoundTrip

/-! # Excerpts of a source

Some tokens of a source can be cut out of it with the characters between them. What is left on both
sides is cut into the same tokens as before when something else is put there, as long as that
neither continues the last name or number in front of it nor is continued by what stands behind it
(`Excerpt.scan_replace`). The reason is that the end of a lexeme depends on the next character
alone. -/

namespace OverlaySync.Deps

/-! ## One lexeme in front of other characters -/

/-- A comment: what writes no token and starts with a hash. -/
def Lexeme.isComment (l : Lexeme) : Bool :=
  l.token.isNone && l.text.head? = some '#'

/-- What writes a token is no comment. -/
theorem Lexeme.isComment_eq_false {l : Lexeme} (token : l.token.isSome = true) :
    l.isComment = false := by
  rw [isComment, Option.isNone_eq_false_iff.2 token, Bool.false_and]

/-- What stands behind a lexeme does not continue it: a comment goes up to the end of its line, and
any other lexeme ends where nothing continues a name or a number. -/
def Lexeme.EndsBefore (l : Lexeme) (cs : List Char) : Prop :=
  if l.isComment then ∀ c ∈ cs.head?, c = '\n' else Border cs

/-- What is no comment ends at a border. -/
theorem Lexeme.endsBefore_iff {l : Lexeme} (noComment : l.isComment = false) {cs : List Char} :
    l.EndsBefore cs ↔ Border cs := by
  rw [EndsBefore, noComment, if_neg Bool.false_ne_true]

/-- The end of a line ends every lexeme. -/
theorem Lexeme.EndsBefore.newline (l : Lexeme) (cs : List Char) : l.EndsBefore ('\n' :: cs) := by
  unfold EndsBefore
  split
  · rintro c ⟨⟩
    rfl
  · exact .cons (by decide) cs

/-- What follows a quoted text makes no difference to it. -/
theorem quoted?_append {quote : Char} {cs : List Char} {q : Quoted} (h : quoted? quote cs = some q)
    (rest : List Char) : quoted? quote (q.text ++ rest) = some { q with rest } := by
  fun_induction quoted? quote cs generalizing q with
  | case1 => cases h
  | case2 => cases h
  | case3 cs notNewline =>
    cases h
    rw [List.singleton_append, quoted?.eq_def]
    simp [notNewline]
  | case4 => cases h
  | case5 e cs notNewline notQuote ih =>
    obtain ⟨q', hq', rfl⟩ := Option.map_eq_some_iff.1 h
    simp [Quoted.extend, quoted?, ih hq', *]
  | case6 c cs notNewline notQuote plain ih =>
    obtain ⟨q', hq', rfl⟩ := Option.map_eq_some_iff.1 h
    rw [Quoted.extend, List.singleton_append, List.cons_append, quoted?.eq_def]
    simp [Quoted.extend, ih hq', *]

/-- A lexeme is the same in front of other characters if these start in the same way, or if they do
not continue it. -/
theorem Lexeme.next_append {c : Char} {cs rest rest' : List Char} {l : Lexeme}
    (h : Lexeme.next c cs = .ok (l, rest))
    (same : rest'.head? = rest.head? ∨ l.EndsBefore rest') :
    Lexeme.next c (l.text.tail ++ rest') = .ok (l, rest') := by
  refine next_eq_ok_iff.2 ?_
  cases next_eq_ok_iff.1 h with
  | skipped opens => exact .skipped opens
  | comment opens =>
    have hash : c = '#' := by grind [Opening.of]
    obtain ⟨taken, left⟩ := takeWhile_append_rest (p := (· ≠ '\n')) <|
      same.imp_right fun ends => by simpa [EndsBefore, isComment, hash] using ends
    have cut : CutOff c (cs.takeWhile (· ≠ '\n') ++ rest') _ _ := .comment opens
    rwa [taken, left] at cut
  | quote opens ends => exact .quote opens (quoted?_append ends rest')
  | digit opens fits =>
    obtain ⟨taken, left⟩ := takeWhile_append_rest (p := Char.isDigit) <|
      same.imp_right fun ends => ((endsBefore_iff rfl).1 ends).isDigit_eq_false
    -- The digits are the same, and so is the number.
    rw [← taken] at fits
    have cut := CutOff.digit opens fits
    rwa [taken, left] at cut
  | letter opens =>
    obtain ⟨taken, left⟩ := takeWhile_append_rest (p := isNameChar) <|
      same.imp_right (endsBefore_iff rfl).1
    have cut : CutOff c (cs.takeWhile isNameChar ++ rest') _ _ := .letter opens
    rwa [taken, left] at cut
  | other opens known => exact .other opens known

/-! ## Lexemes in front of other characters -/

/-- The characters of some lexemes. -/
def textOf (ls : List Lexeme) : List Char :=
  ls.flatMap Lexeme.text

/-- The characters of lexemes stand one after another. -/
@[simp] theorem textOf_cons (l : Lexeme) (ls : List Lexeme) :
    textOf (l :: ls) = l.text ++ textOf ls :=
  List.flatMap_cons

/-- What a source is cut into is its first lexeme, and what the rest is cut into. -/
theorem lexemes_eq_cons {cs : List Char} {l : Lexeme} {ls : List Lexeme} {fault : Option Cause}
    (h : lexemes cs = (l :: ls, fault)) :
    ∃ c cs' rest, cs = c :: cs' ∧ Lexeme.next c cs' = .ok (l, rest) ∧
      lexemes rest = (ls, fault) := by
  unfold lexemes at h
  split at h
  · cases h
  · split at h
    · next l' rest hnext =>
      cases h
      exact ⟨_, _, rest, rfl, hnext, rfl⟩
    · cases h

/-- Lexemes of a source are the same in front of other characters if these start in the same way, or
if they do not continue the last one. -/
theorem lexemes_append {cs : List Char} {ls ls' : List Lexeme} {fault : Option Cause}
    (h : lexemes cs = (ls ++ ls', fault)) :
    ∃ rest, cs = textOf ls ++ rest ∧ lexemes rest = (ls', fault) ∧
      ∀ rest', rest'.head? = rest.head? ∨
          (∀ l ∈ ls.getLast?, l.EndsBefore rest') →
        lexemes (textOf ls ++ rest') = (ls ++ (lexemes rest').1, (lexemes rest').2) := by
  induction ls generalizing cs with
  | nil => exact ⟨cs, rfl, h, fun _ _ => rfl⟩
  | cons l ls ih =>
    obtain ⟨c, cs', behind, rfl, hnext, hbehind⟩ := lexemes_eq_cons h
    obtain ⟨rest, rfl, hrest, again⟩ := ih hbehind
    have whole := Lexeme.text_append_rest hnext
    refine ⟨rest, by rw [← whole, textOf_cons, List.append_assoc], hrest, fun rest' same => ?_⟩
    obtain ⟨cs'', htext⟩ := List.head?_eq_some_iff.1 (Lexeme.head?_text hnext)
    -- What follows the first lexeme is the next one, if there is another one.
    have first : (textOf ls ++ rest').head? = (textOf ls ++ rest).head? ∨
        l.EndsBefore (textOf ls ++ rest') := by
      cases ls with
      | nil => exact same.imp_right fun ends => ends l rfl
      | cons m ms =>
        obtain ⟨d, ds, rest'', -, hnext', -⟩ := lexemes_eq_cons hbehind
        obtain ⟨ds', htext'⟩ := List.head?_eq_some_iff.1 (Lexeme.head?_text hnext')
        simp [htext']
    have others : rest'.head? = rest.head? ∨ ∀ l ∈ ls.getLast?, l.EndsBefore rest' := by
      refine same.imp_right fun ends m there => ends m ?_
      rw [List.getLast?_cons, Option.mem_def.1 there]
      rfl
    have next := Lexeme.next_append hnext first
    rw [htext, List.tail_cons] at next
    rw [textOf_cons, htext, List.append_assoc, List.cons_append, lexemes_of_next next,
      again rest' others, List.cons_append]

/-- The tokens of the first lexemes come before what the rest holds. -/
theorem scan_of_lexemes {cs rest : List Char} {ls : List Lexeme}
    (h : lexemes cs = (ls ++ (lexemes rest).1, (lexemes rest).2)) :
    scan cs = behind (ls.filterMap Lexeme.token) (scan rest) := by
  rw [scan, h, List.filterMap_append]
  rfl

/-- A source without a fault is what its lexemes hold. -/
theorem eq_textOf_of_lexemes {cs : List Char} {ls : List Lexeme} (h : lexemes cs = (ls, none)) :
    cs = textOf ls := by
  rw [← List.append_nil ls] at h
  obtain ⟨rest, rfl, hrest, -⟩ := lexemes_append h
  cases rest with
  | nil => rw [List.append_nil]
  | cons c rest =>
    rw [lexemes] at hrest
    split at hrest <;> cases hrest

/-- There is no comment in front of a token: its line would end before, which writes no token. -/
theorem isComment_eq_false_of_next {ls ls' : List Lexeme} {l : Lexeme} {cs : List Char}
    {fault : Option Cause} (h : lexemes cs = (ls ++ ls', fault))
    (token : ls'.head?.any (·.token.isSome) = true) (last : l ∈ ls.getLast?) :
    l.isComment = false := by
  obtain ⟨before, rfl⟩ := List.getLast?_eq_some_iff.1 last
  obtain ⟨m, first, writes⟩ := (Option.any_eq_true _ _).1 token
  obtain ⟨others, rfl⟩ := List.head?_eq_some_iff.1 first
  rw [List.append_assoc, List.singleton_append] at h
  obtain ⟨rest, -, hrest, -⟩ := lexemes_append h
  obtain ⟨c, cs', rest, rfl, hl, hrest⟩ := lexemes_eq_cons hrest
  obtain ⟨d, ds, rest', rfl, hm, -⟩ := lexemes_eq_cons hrest
  refine Bool.eq_false_iff.2 fun comment => ?_
  rw [Lexeme.isComment, Lexeme.head?_text hl, Bool.and_eq_true, decide_eq_true_iff] at comment
  obtain rfl := Option.some.inj comment.2
  -- The comment goes up to the end of the line, which is skipped.
  have hash : Opening.of '#' = .comment := by decide
  have newline : Opening.of '\n' = .skipped := by decide
  rw [Lexeme.next_of_comment hash, Except.ok.injEq, Prod.mk.injEq] at hl
  have ends := List.head?_dropWhile_not (· ≠ '\n') cs'
  rw [hl.2] at ends
  obtain rfl : d = '\n' := by simpa using ends
  rw [Lexeme.next_of_skipped newline, Except.ok.injEq, Prod.mk.injEq] at hm
  rw [← hm.1] at writes
  cases writes

/-! ## Places between lexemes -/

/-- A place between the lexemes of a source. -/
structure Cut (source : List Char) where
  /-- The lexemes before it. -/
  before : List Lexeme
  /-- The characters behind it. -/
  rest : List Char
  /-- Together these are the source. -/
  whole : source = textOf before ++ rest
  /-- What stands behind the place is cut as it would be alone. -/
  apart : lexemes source = (before ++ (lexemes rest).1, (lexemes rest).2)

/-- There is a place between any two lexemes, and at both ends. -/
theorem exists_cut {source : List Char} {ls ls' : List Lexeme} {fault : Option Cause}
    (h : lexemes source = (ls ++ ls', fault)) :
    ∃ place : Cut source, place.before = ls ∧ lexemes place.rest = (ls', fault) := by
  obtain ⟨rest, whole, hrest, -⟩ := lexemes_append h
  refine ⟨⟨ls, rest, whole, ?_⟩, rfl, hrest⟩
  rw [h, hrest]

/-- What stands before a place is cut in the same way in front of other characters, if these start
in the same way as before, or if they do not continue the last lexeme. -/
theorem Cut.lexemes_append {source : List Char} (place : Cut source) {cs : List Char}
    (same : cs.head? = place.rest.head? ∨ ∀ l ∈ place.before.getLast?, l.EndsBefore cs) :
    lexemes (textOf place.before ++ cs) = (place.before ++ (lexemes cs).1, (lexemes cs).2) := by
  obtain ⟨rest, whole, -, again⟩ := Deps.lexemes_append place.apart
  obtain rfl := List.append_cancel_left (place.whole.symm.trans whole)
  exact again cs same

/-- The position behind some lexemes of a source depends on their characters alone. -/
theorem ofOffset_extent {source rest : List Char} {ls : List Lexeme}
    (whole : source = textOf ls ++ rest) :
    Position.ofOffset source (extent ls) = Position.start.advance (textOf ls) := by
  show Position.start.advance (source.take (textOf ls).length) = _
  rw [whole, List.take_left]

/-! ## Excerpts -/

/-- A part of a source that is cut into tokens: it begins and ends with one. -/
structure Excerpt (source : String) where
  /-- The lexemes before it. -/
  before : List Lexeme
  /-- Its lexemes. -/
  within : List Lexeme
  /-- The lexemes behind it. -/
  after : List Lexeme
  /-- The source is cut into these. -/
  cut : lexemes source.toList = (before ++ (within ++ after), none)
  /-- The first lexeme writes a token. -/
  begins : within.head?.any (·.token.isSome) = true
  /-- The last lexeme writes a token. -/
  ends : within.getLast?.any (·.token.isSome) = true

namespace Excerpt

variable {source : String} (e : Excerpt source)

/-- The tokens before the excerpt. -/
def tokensBefore : List Token :=
  e.before.filterMap Lexeme.token

/-- The tokens of the excerpt. -/
def tokens : List Token :=
  e.within.filterMap Lexeme.token

/-- The tokens behind the excerpt. -/
def tokensBehind : List Token :=
  e.after.filterMap Lexeme.token

/-- The characters of the excerpt. -/
def text : List Char :=
  textOf e.within

/-- The source with other characters in the place of the excerpt. -/
def replace (cs : List Char) : String :=
  String.ofList (textOf e.before ++ (cs ++ textOf e.after))

/-- The source has the tokens of its three parts, and no fault. -/
theorem scan_source :
    scan source.toList = (e.tokensBefore ++ (e.tokens ++ e.tokensBehind), none) := by
  rw [scan, e.cut, List.filterMap_append, List.filterMap_append]
  rfl

/-- What stands before the excerpt writes its tokens in front of other characters. -/
theorem writes_before : Writes false (· = e.tokensBefore) (textOf e.before) := by
  refine .of_scan _ rfl fun rest border => ?_
  obtain ⟨_, -, -, again⟩ := lexemes_append e.cut
  have begins : (e.within ++ e.after).head?.any (·.token.isSome) = true := by
    obtain ⟨m, first, token⟩ := (Option.any_eq_true _ _).1 e.begins
    rw [List.head?_append, first]
    exact token
  have ends : ∀ l ∈ e.before.getLast?, l.EndsBefore rest := fun l last =>
    (Lexeme.endsBefore_iff (isComment_eq_false_of_next e.cut begins last)).2 border
  exact scan_of_lexemes (again rest (.inr ends))

/-- The excerpt writes its tokens in front of other characters. -/
theorem writes_text : Writes false (· = e.tokens) e.text := by
  refine .of_scan _ rfl fun rest border => ?_
  obtain ⟨_, -, hrest, -⟩ := lexemes_append e.cut
  obtain ⟨_, -, -, again⟩ := lexemes_append hrest
  have ends : ∀ l ∈ e.within.getLast?, l.EndsBefore rest := by
    intro l there
    have token := e.ends
    rw [Option.mem_def.1 there, Option.any_some] at token
    exact (Lexeme.endsBefore_iff (Lexeme.isComment_eq_false token)).2 border
  exact scan_of_lexemes (again rest (.inr ends))

/-- What stands behind the excerpt writes its tokens. -/
theorem scan_after : scan (textOf e.after) = (e.tokensBehind, none) := by
  obtain ⟨_, -, hrest, -⟩ := lexemes_append e.cut
  obtain ⟨_, -, hafter, -⟩ := lexemes_append hrest
  rw [scan, ← eq_textOf_of_lexemes hafter, hafter]
  rfl

/-- Other characters in the place of the excerpt are cut as they are, and so is what stands around
them. -/
theorem scan_replace {cs : List Char} {ts : List Token} (border : Border (cs ++ textOf e.after))
    (h : scan (cs ++ textOf e.after) = behind ts (scan (textOf e.after))) :
    scan (e.replace cs).toList = (e.tokensBefore ++ (ts ++ e.tokensBehind), none) := by
  obtain ⟨_, rfl, before⟩ := e.writes_before _ border
  rw [replace, String.toList_ofList, before, h, e.scan_after]
  rfl

end Excerpt

/-- A source that is cut without a fault is accepted with the bindings that its tokens make as a
file. -/
theorem parse_eq_ok_iff_of_scan {source : String} {ts : List Token} {b : Bindings}
    (h : scan source.toList = (ts, none)) :
    parse source = .ok b ↔ ∃ ps final, IsFile ts ps ∧ Binds [] ps final ∧ SameScope b final := by
  obtain ⟨located, tokens, rfl⟩ := tokensOf_of_scan h
  rw [parse_eq_ok_iff, tokens]
  simp only [Except.ok.injEq, exists_eq_left', File.eval_read_eq_ok_iff]

end OverlaySync.Deps
