import OverlaySync.Proofs.Deps.Excerpts
import OverlaySync.Proofs.LineEnds

/-! # Other ends of lines in a source

A carriage return is white space, so a source whose lines end in a carriage return and a newline is
read as one whose lines end in newlines, down to the lines and columns of faults. There is one
exception. A backslash at the end of a line continues a quoted text on the next line; in front of a
carriage return it does not, and the line ends within the quotes. So a source is read in the same
way if none of its quoted texts is continued, and is refused at the first one that is
(`parse_withReturns`). -/

namespace OverlaySync.Deps

/-! ## Tokens and faults at their positions -/

/-- The tokens of lexemes with the positions where they start; the first lexeme starts at `p`. -/
def placed (p : Position) : List Lexeme → List (Position × Token)
  | [] => []
  | l :: ls => (l.token.map (p, ·)).toList ++ placed (p.advance l.text) ls

/-- What a source that starts at `p` holds for the reader: tokens up to a first fault, and all of
them with their positions. -/
def survey (p : Position) (cs : List Char) : List (Position × Token) × Option SyntaxError :=
  (placed p (lexemes cs).1,
    (lexemes cs).2.map fun cause => ⟨p.advance (textOf (lexemes cs).1), cause⟩)

/-- The first lexeme of a source comes before what the rest holds. -/
theorem survey_of_next {c : Char} {cs rest : List Char} {l : Lexeme}
    (h : Lexeme.next c cs = .ok (l, rest)) (p : Position) :
    survey p (c :: cs) = ((l.token.map (p, ·)).toList ++ (survey (p.advance l.text) rest).1,
      (survey (p.advance l.text) rest).2) := by
  simp [survey, lexemes_of_next h, placed, Position.advance_append]

/-- Nothing of a source is a token from its first fault on. -/
theorem survey_of_fault {c : Char} {cs : List Char} {cause : Cause}
    (h : Lexeme.next c cs = .error cause) (p : Position) :
    survey p (c :: cs) = ([], some ⟨p, cause⟩) := by
  simp [survey, lexemes_of_fault h, placed, textOf]

/-- White space moves what follows it. -/
theorem survey_blank {c : Char} (h : Unicode.isBlank c = true) (p : Position) (rest : List Char) :
    survey p (c :: rest) = survey (p.step c) rest :=
  survey_of_next (Lexeme.next_of_skipped (Opening.of_eq_skipped h) rest) p

/-- The position of a fault among tokens with theirs. -/
def Fault.positionIn (ps : List Position) (f : Fault) : Position :=
  (ps[ps.length - f.remaining]?.or ps.getLast?).getD .start

/-- What a source comes to that holds these tokens and this fault. -/
def verdict : List (Position × Token) × Option SyntaxError → Except SyntaxError Bindings
  | (_, some e) => .error e
  | (ts, none) =>
    match (File.read (ts.map Prod.snd)).eval with
    | .ok b => .ok b
    | .error f => .error ⟨f.positionIn (ts.map Prod.fst), f.cause⟩

/-- Lexemes of a source stand where the characters before them end. -/
theorem placed_eq_map_locate {source before after : List Char} {ls : List Lexeme}
    (h : source = before ++ (textOf ls ++ after)) :
    placed (Position.start.advance before) ls = (locate before.length ls).map fun t =>
      (Position.ofOffset source t.offset, t.token) := by
  induction ls generalizing before with
  | nil => rfl
  | cons l ls ih =>
    have here : Position.ofOffset source before.length = Position.start.advance before := by
      rw [Position.ofOffset, h, List.take_left]
    have whole : source = (before ++ l.text) ++ (textOf ls ++ after) := by
      rw [h, textOf_cons]
      simp
    have later := ih whole
    rw [Position.advance_append, List.length_append] at later
    rw [placed, locate, later]
    cases l.token with
    | none => rfl
    | some t => rw [List.map_cons, here]; rfl

/-- The position of a fault can be told from those of the tokens, without the offsets. -/
theorem Fault.ofOffset_offset (source : List Char) (f : Fault) (ts : List Located) :
    Position.ofOffset source (f.offset ts) =
      f.positionIn (ts.map fun t => Position.ofOffset source t.offset) := by
  rw [positionIn, offset, List.length_map, List.getElem?_map, List.getLast?_map]
  cases ts[ts.length - f.remaining]? <;> cases ts.getLast? <;> rfl

/-- Reading a source depends on what it holds for the reader alone. -/
theorem parse_eq_verdict (source : String) :
    parse source = verdict (survey .start source.toList) := by
  rw [parse, tokensOf, survey]
  rcases hcut : lexemes source.toList with ⟨ls, _ | cause⟩
  · have whole : source.toList = [] ++ (textOf ls ++ []) := by
      rw [eq_textOf_of_lexemes hcut]
      simp
    have places := placed_eq_map_locate whole
    dsimp only [Option.map_none]
    rw [show placed .start ls = _ from places, verdict, List.map_map, List.map_map]
    simp only [Function.comp_def, Fault.ofOffset_offset]
    rfl
  · rw [← List.append_nil ls] at hcut
    obtain ⟨rest, whole, -, -⟩ := lexemes_append hcut
    dsimp only [Option.map_some]
    rw [ofOffset_extent whole, verdict]

/-! ## Lexemes with returns -/

/-- What becomes of a quoted text when returns are written: it stays the same in front of the rest,
or, if it is continued on another line, it ends with its first line and is none. -/
def Quoted.withReturns? (q : Quoted) : Option Quoted :=
  if '\n' ∈ q.text then none else some { q with rest := withReturns q.rest }

/-- Characters before a quoted text that end no line make no difference to this. -/
theorem Quoted.withReturns?_extend {value text : List Char} (line : '\n' ∉ text)
    (q : Option Quoted) :
    (q.map (Quoted.extend value text)).bind withReturns? =
      (q.bind withReturns?).map (Quoted.extend value text) := by
  cases q with
  | none => rfl
  | some q =>
    simp only [Option.map_some, Option.bind_some, withReturns?, extend, List.mem_append, line,
      false_or]
    split <;> rfl

/-- A quoted text with returns is read as before, unless it is continued on another line; then there
is none, because the backslash in front of the line's end is now in front of a return. -/
theorem quoted?_withReturns {quote : Char} (marks : quote = '\'' ∨ quote = '"') {cs : List Char}
    (free : '\r' ∉ cs) :
    quoted? quote (withReturns cs) = (quoted? quote cs).bind Quoted.withReturns? := by
  have newline (rest : List Char) : quoted? quote ('\n' :: rest) = none := by
    rw [quoted?.eq_def]
    simp
  obtain ⟨notReturn, notNewline⟩ : '\r' ≠ quote ∧ '\n' ≠ quote := by
    rcases marks with rfl | rfl <;> decide
  -- On the reading of the text: a return comes before every newline, and only behind a backslash
  -- does it change what the newline is.
  fun_induction quoted? quote cs with
  | case1 => rfl
  | case2 cs =>
    rw [withReturns_newline, quoted?.eq_def]
    simp [newline, notReturn]
  | case3 cs line =>
    rw [withReturns_cons line, quoted?.eq_def]
    simp [line, notNewline, Quoted.withReturns?]
  | case4 line notQuote =>
    rw [withReturns_cons line, quoted?.eq_def]
    simp [line, notQuote]
  | case5 e cs line notQuote ih =>
    rw [withReturns_cons line, quoted?.eq_def]
    by_cases continued : e = '\n'
    · -- The backslash is in front of the return, and the line ends behind it.
      subst continued
      have none (q : Option Quoted) :
          (q.map (Quoted.extend (unescape '\n') ['\\', '\n'])).bind Quoted.withReturns? = none := by
        cases q <;> simp [Quoted.withReturns?, Quoted.extend]
      simp [line, notQuote, newline, none]
    · have behind : '\n' ∉ ['\\', e] := by simp [Ne.symm continued]
      rw [withReturns_cons continued]
      simp [line, notQuote, ih (by simp_all), Quoted.withReturns?_extend behind]
  | case6 c cs line notQuote plain ih =>
    have behind : '\n' ∉ [c] := by simp [Ne.symm line]
    rw [withReturns_cons line, quoted?.eq_def]
    simp [line, notQuote, plain, ih (by simp_all), Quoted.withReturns?_extend behind]

/-- A quoted text that is continued on another line. -/
def Lexeme.isContinued (l : Lexeme) : Bool :=
  match l.token with
  | some (.string _) => '\n' ∈ l.text
  | _ => false

/-- No end of a line goes on with a name. -/
theorem isNameChar_lineEnd : isNameChar '\n' = false ∧ isNameChar '\r' = false := by
  decide

/-- A lexeme that is neither a comment nor an end of a line is the same in front of a rest that is
written with returns, unless it is a quoted text that is continued. -/
theorem Lexeme.next_withReturns {c : Char} {cs : List Char} (free : '\r' ∉ cs)
    (noComment : Opening.of c ≠ .comment) :
    Lexeme.next c (withReturns cs) =
      match Lexeme.next c cs with
      | .ok (l, rest) =>
        if l.isContinued then .error .unterminatedString else .ok (l, withReturns rest)
      | .error cause => .error cause := by
  -- Only a quoted text can take a newline with it; whatever else is cut off ends in front of one.
  unfold Lexeme.next
  split
  · rfl
  · next opens => exact absurd opens noComment
  · next opens =>
    have marks : c = '\'' ∨ c = '"' := by grind [Opening.of]
    unfold Lexeme.quoted
    rw [quoted?_withReturns marks free]
    have notNewline : '\n' ≠ c := by rcases marks with rfl | rfl <;> decide
    cases quoted? c cs with
    | none => rfl
    | some q =>
      by_cases continued : '\n' ∈ q.text <;>
        simp [Quoted.withReturns?, isContinued, notNewline, continued]
  · obtain ⟨digits, behind⟩ := takeWhile_withReturns (p := Char.isDigit) (by decide) (by decide) cs
    unfold Lexeme.integer
    rw [digits, behind]
    cases integer? (decimalValue (c :: cs.takeWhile Char.isDigit)) <;> rfl
  · obtain ⟨letters, behind⟩ :=
      takeWhile_withReturns isNameChar_lineEnd.1 isNameChar_lineEnd.2 cs
    simp [Lexeme.name, letters, behind, isContinued]
  · unfold Lexeme.mark
    cases Mark.ofChar? c <;> rfl

/-- A return in front of a newline moves nothing behind them. -/
theorem survey_lineEnd (p : Position) (rest : List Char) :
    survey p ('\r' :: '\n' :: rest) = survey (p.step '\n') rest := by
  rw [survey_blank (by decide), survey_blank (by decide)]
  rfl

/-- A comment holds the return at its end. -/
theorem survey_withReturns_of_comment {c : Char} {cs rest : List Char} {l : Lexeme}
    (opens : Opening.of c = .comment) (h : Lexeme.next c cs = .ok (l, rest)) (p : Position) :
    survey p (c :: withReturns cs) = survey (p.advance l.text) (withReturns rest) := by
  rw [Lexeme.next_of_comment opens, Except.ok.injEq, Prod.mk.injEq] at h
  obtain ⟨rfl, rfl⟩ := h
  rw [survey_of_next (Lexeme.next_of_comment opens (withReturns cs))]
  obtain ⟨stops, same⟩ | ⟨rest, stops, line, behind⟩ := takeWhile_line_withReturns cs
  · rw [same, stops]
    rfl
  · rw [line, behind, stops, withReturns_newline, survey_lineEnd, survey_blank (by decide),
      ← List.cons_append, Position.advance_append]
    rfl

/-- A lexeme in front of a rest that is written with returns leaves the tokens that it leaves in
front of any rest, or ends them if it is a quoted text that is continued. -/
theorem survey_withReturns_of_next {c : Char} {cs rest : List Char} {l : Lexeme}
    (free : '\r' ∉ cs) (h : Lexeme.next c cs = .ok (l, rest)) (p : Position) :
    survey p (withReturns (c :: cs)) =
      if l.isContinued then ([], some ⟨p, .unterminatedString⟩)
      else ((l.token.map (p, ·)).toList ++ (survey (p.advance l.text) (withReturns rest)).1,
        (survey (p.advance l.text) (withReturns rest)).2) := by
  by_cases newline : c = '\n'
  · subst newline
    rw [Lexeme.next_of_skipped (by decide), Except.ok.injEq, Prod.mk.injEq] at h
    obtain ⟨rfl, rfl⟩ := h
    rw [withReturns_newline, survey_lineEnd]
    rfl
  rw [withReturns_cons newline]
  by_cases comment : Opening.of c = .comment
  · have noToken : l.token = none := by
      rw [Lexeme.next_of_comment comment, Except.ok.injEq, Prod.mk.injEq] at h
      rw [← h.1]
    rw [survey_withReturns_of_comment comment h, Lexeme.isContinued, noToken]
    rfl
  · have next := Lexeme.next_withReturns free comment
    rw [h] at next
    dsimp only at next
    split at next
    · rw [survey_of_fault next, if_pos ‹_›]
    · rw [survey_of_next next, if_neg ‹_›]

/-- The first fault is the same. -/
theorem survey_withReturns_of_fault {c : Char} {cs : List Char} {cause : Cause}
    (free : '\r' ∉ cs) (h : Lexeme.next c cs = .error cause) (p : Position) :
    survey p (withReturns (c :: cs)) = ([], some ⟨p, cause⟩) := by
  have newline : c ≠ '\n' := by
    rintro rfl
    rw [Lexeme.next_of_skipped (by decide)] at h
    cases h
  have comment : Opening.of c ≠ .comment := by
    intro opens
    rw [Lexeme.next_of_comment opens] at h
    cases h
  have next := Lexeme.next_withReturns free comment
  rw [h] at next
  rw [withReturns_cons newline, survey_of_fault next]

/-! ## Sources with returns -/

/-- What is left behind a lexeme is free of returns. -/
theorem Lexeme.not_mem_rest {c r : Char} {cs rest : List Char} {l : Lexeme} (free : r ∉ c :: cs)
    (h : Lexeme.next c cs = .ok (l, rest)) : r ∉ rest := by
  rw [← Lexeme.text_append_rest h, List.mem_append, not_or] at free
  exact free.2

/-- A source in which no quoted text is continued holds the same with returns. -/
theorem survey_withReturns {cs : List Char} (free : '\r' ∉ cs)
    (plain : ∀ l ∈ (lexemes cs).1, l.isContinued = false) (p : Position) :
    survey p (withReturns cs) = survey p cs := by
  fun_induction lexemes cs generalizing p with
  | case1 => rfl
  | case2 c cs l rest hnext shorter later ih =>
    obtain ⟨first, others⟩ := List.forall_mem_cons.1 plain
    rw [survey_withReturns_of_next (List.not_mem_of_not_mem_cons free) hnext, first,
      if_neg Bool.false_ne_true, ih (Lexeme.not_mem_rest free hnext) others, survey_of_next hnext]
  | case3 c cs cause hnext =>
    rw [survey_withReturns_of_fault (List.not_mem_of_not_mem_cons free) hnext,
      survey_of_fault hnext]

/-- With returns, a source is refused at its first quoted text that is continued. -/
theorem survey_withReturns_of_continued {cs : List Char} {before after : List Lexeme} {l : Lexeme}
    (free : '\r' ∉ cs) (cut : (lexemes cs).1 = before ++ l :: after)
    (plain : ∀ m ∈ before, m.isContinued = false) (continued : l.isContinued = true)
    (p : Position) :
    survey p (withReturns cs) =
      (placed p before, some ⟨p.advance (textOf before), .unterminatedString⟩) := by
  induction before generalizing cs p with
  | nil =>
    have all : lexemes cs = (l :: after, (lexemes cs).2) := Prod.ext cut rfl
    obtain ⟨c, cs, rest, rfl, hnext, -⟩ := lexemes_eq_cons all
    rw [survey_withReturns_of_next (List.not_mem_of_not_mem_cons free) hnext, if_pos continued]
    rfl
  | cons m before ih =>
    have all : lexemes cs = (m :: (before ++ l :: after), (lexemes cs).2) := Prod.ext cut rfl
    obtain ⟨c, cs, rest, rfl, hnext, hrest⟩ := lexemes_eq_cons all
    obtain ⟨first, others⟩ := List.forall_mem_cons.1 plain
    rw [survey_withReturns_of_next (List.not_mem_of_not_mem_cons free) hnext, first,
      if_neg Bool.false_ne_true, ih (Lexeme.not_mem_rest free hnext) (by rw [hrest]) others,
      textOf_cons, Position.advance_append]
    rfl

/-- A source without returns is read in the same way when they are put in front of its newlines,
if none of its quoted texts is continued on another line. Otherwise it is refused, as if the first
of these had no end. -/
theorem parse_withReturns {source : String} (free : '\r' ∉ source.toList) :
    ((∀ l ∈ (lexemes source.toList).1, l.isContinued = false) →
      parse (String.ofList (withReturns source.toList)) = parse source) ∧
    ∀ before l after, (lexemes source.toList).1 = before ++ l :: after →
      (∀ m ∈ before, m.isContinued = false) → l.isContinued = true →
        parse (String.ofList (withReturns source.toList)) =
          .error ⟨Position.ofOffset source.toList (extent before), .unterminatedString⟩ := by
  rw [parse_eq_verdict, String.toList_ofList]
  constructor
  · intro plain
    rw [survey_withReturns free plain, ← parse_eq_verdict]
  · intro before l after cut plain continued
    have all : lexemes source.toList =
        (before ++ l :: after, (lexemes source.toList).2) := Prod.ext cut rfl
    obtain ⟨rest, whole, -, -⟩ := lexemes_append all
    rw [survey_withReturns_of_continued free cut plain continued, ofOffset_extent whole]
    rfl

/-! ## Texts on two lines -/

/-- Two texts that stand on two lines, which a backslash between them joins. -/
def joinedSource : String :=
  "# a\nx = 'a' \\\n 'b'\n"

/-- A text that a backslash within it continues on another line. -/
def continuedSource : String :=
  "x = 'a\\\nb'\n"

/-- A source of one binding to texts next to each other binds them put together. -/
theorem parse_of_scan_texts {source x s : String} {ss : List String}
    (h : scan source.toList =
      (.name x :: .mark .equals :: .string s :: ss.map .string, none)) :
    parse source = .ok (.insert ∅ x (.str (String.join (s :: ss)))) := by
  have file : IsFile (.name x :: .mark .equals :: (.string s :: ss.map .string ++ [])) _ :=
    .cons x (IsUnary.primary (.text s ss)).isExpr .nil
  rw [List.append_nil] at file
  refine (parse_eq_ok_iff_of_scan h).2 ⟨_, _, file, .cons (.text _) .nil, ?_⟩
  exact sameScope_empty.insert x _

/-- A backslash outside of the texts joins two lines, and both texts belong to the binding. -/
theorem parse_joinedSource : parse joinedSource = .ok (.insert ∅ "x" (.str "ab")) := by
  have tokens : scan joinedSource.toList =
      (.name "x" :: .mark .equals :: .string "a" :: ["b"].map .string, none) := by
    decide +kernel
  exact parse_of_scan_texts tokens

/-- With returns a text that is continued has no end. -/
theorem continued_text_refused :
    '\r' ∉ continuedSource.toList ∧
      parse continuedSource = .ok (.insert ∅ "x" (.str "ab")) ∧
      ∃ e, parse (String.ofList (withReturns continuedSource.toList)) = .error e := by
  have tokens : scan continuedSource.toList =
      (.name "x" :: .mark .equals :: .string "ab" :: [].map .string, none) := by
    decide +kernel
  have faulty : (scan (String.ofList (withReturns continuedSource.toList)).toList).2 =
      some .unterminatedString := by
    decide +kernel
  obtain ⟨e, refused, -⟩ := parse_of_scan faulty
  exact ⟨by decide, parse_of_scan_texts tokens, e, refused⟩

/-- With returns the texts on two lines are read as before, and the text that is continued has no
end. -/
theorem parse_withReturns_joined :
    '\r' ∉ joinedSource.toList ∧ '\r' ∉ continuedSource.toList ∧
      parse "# a\r\nx = 'a' \\\r\n 'b'\r\n" = .ok (.insert ∅ "x" (.str "ab")) ∧
      parse "x = 'a\\\r\nb'\r\n" = .error ⟨⟨1, 5⟩, .unterminatedString⟩ := by
  have free : '\r' ∉ joinedSource.toList := by decide
  have free' : '\r' ∉ continuedSource.toList := by decide
  have joined := (parse_withReturns free).1 (by decide +kernel)
  have continued := (parse_withReturns free').2 ((lexemes continuedSource.toList).1.take 4)
    ⟨"'a\\\nb'".toList, some (.string "ab")⟩ [⟨['\n'], none⟩] (by decide +kernel)
    (by decide +kernel) (by decide +kernel)
  have text : String.ofList (withReturns joinedSource.toList) =
      "# a\r\nx = 'a' \\\r\n 'b'\r\n" := by
    decide +kernel
  have place : Position.ofOffset continuedSource.toList
      (extent ((lexemes continuedSource.toList).1.take 4)) = ⟨1, 5⟩ := by
    decide +kernel
  rw [place] at continued
  exact ⟨free, free', text ▸ joined.trans parse_joinedSource, continued⟩

end OverlaySync.Deps
