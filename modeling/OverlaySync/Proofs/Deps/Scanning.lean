import OverlaySync.Deps.File
import OverlaySync.Deps.Printer
import OverlaySync.Proofs.Lists

/-! # How written tokens are cut

What is written of names, numbers, quoted texts and marks is cut into these tokens again. A name or
a number has to end at a border, where neither can go on; the other tokens end by themselves. `scan`
is what a source holds for the reader, tokens up to a first fault, without the places. -/

namespace OverlaySync.Deps

open Unicode (isBlank isLetter isNumber isLetterOrNumber)

/-! ## Character classes -/

/-- A class of characters apart from white space holds none. -/
theorem covers_eq_false_of_isBlank {r : Unicode.Ranges}
    (apart : ∀ a ∈ Unicode.blankRanges, ∀ i < a.2 + 1 - a.1, r.covers (a.1 + i) = false) {c : Char}
    (h : isBlank c = true) : r.covers c.toNat = false := by
  obtain ⟨a, ha, low, high⟩ := (Unicode.Ranges.covers_iff Unicode.blankRanges_isAscending).1 h
  have hc := apart a ha (c.toNat - a.1) (by omega)
  rwa [Nat.add_sub_cancel' low] at hc

/-- No white space is a letter. -/
theorem isLetter_eq_false_of_isBlank {c : Char} (h : isBlank c = true) : isLetter c = false :=
  -- White space is a few characters, so they are looked up one by one.
  covers_eq_false_of_isBlank (by decide +kernel) h

/-- No white space continues a name. -/
theorem isNameChar_eq_false_of_isBlank {c : Char} (h : isBlank c = true) :
    isNameChar c = false := by
  have number : isNumber c = false := covers_eq_false_of_isBlank (by decide +kernel) h
  have underscore : c ≠ '_' := by
    rintro rfl
    exact absurd h (by decide)
  rw [isNameChar, isLetterOrNumber, isLetter_eq_false_of_isBlank h, number,
    decide_eq_false underscore]
  rfl

/-- The code points of ASCII digits. -/
theorem toNat_of_isDigit {c : Char} (h : c.isDigit = true) : 0x30 ≤ c.toNat ∧ c.toNat ≤ 0x39 := by
  simp only [Char.isDigit, ge_iff_le, Bool.and_eq_true, decide_eq_true_eq,
    UInt32.le_iff_toNat_le] at h
  exact h

/-- A class of characters without the ten digits holds no digit. -/
theorem covers_eq_false_of_isDigit {r : Unicode.Ranges}
    (apart : ∀ i < 10, r.covers (0x30 + i) = false) {c : Char} (h : c.isDigit = true) :
    r.covers c.toNat = false := by
  obtain ⟨low, high⟩ := toNat_of_isDigit h
  have hc := apart (c.toNat - 0x30) (by omega)
  rwa [Nat.add_sub_cancel' low] at hc

/-- A digit is no letter. -/
theorem isLetter_eq_false_of_isDigit {c : Char} (h : c.isDigit = true) : isLetter c = false :=
  covers_eq_false_of_isDigit (by decide) h

/-- A digit is no white space. -/
theorem isBlank_eq_false_of_isDigit {c : Char} (h : c.isDigit = true) : isBlank c = false :=
  covers_eq_false_of_isDigit (by decide) h

/-- A digit continues a name. -/
theorem isNameChar_of_isDigit {c : Char} (h : c.isDigit = true) : isNameChar c = true := by
  have hnum : isNumber c = true :=
    (Unicode.Ranges.covers_iff Unicode.numberRanges_isAscending).2
      ⟨(0x0030, 0x0039), List.mem_cons_self, toNat_of_isDigit h⟩
  simp [isNameChar, isLetterOrNumber, hnum]

/-- The characters with a meaning of their own at the border between lexemes: comments, line
joining, quotes. -/
def specials : List Char := ['#', '\\', '\'', '"']

/-- What starts a name starts nothing else. -/
theorem Opening.of_eq_letter {c : Char} (h : isNameStart c = true) : Opening.of c = .letter := by
  by_cases hu : c = '_'
  · subst hu
    decide
  have hl : isLetter c = true := by simpa [isNameStart, hu] using h
  have blank : isBlank c = false := by
    refine Bool.eq_false_iff.2 fun hb => ?_
    simp [isLetter_eq_false_of_isBlank hb] at hl
  have digit : c.isDigit = false := by
    refine Bool.eq_false_iff.2 fun hd => ?_
    simp [isLetter_eq_false_of_isDigit hd] at hl
  have other : ∀ d ∈ specials, c ≠ d := by
    rintro d hd rfl
    have apart : specials.all (!isLetter ·) = true := by decide
    have hletter := List.all_eq_true.1 apart c hd
    simp [hl] at hletter
  simp only [specials, List.mem_cons, List.not_mem_nil, or_false, forall_eq_or_imp, forall_eq]
    at other
  simp [Opening.of, blank, digit, other, h]

/-- A digit starts an integer literal. -/
theorem Opening.of_eq_digit {c : Char} (h : c.isDigit = true) : Opening.of c = .digit := by
  have other : ∀ d ∈ specials, c ≠ d := by
    rintro d hd rfl
    have apart : specials.all (!·.isDigit) = true := by decide
    have hdigit := List.all_eq_true.1 apart c hd
    simp [h] at hdigit
  simp only [specials, List.mem_cons, List.not_mem_nil, or_false, forall_eq_or_imp, forall_eq]
    at other
  simp [Opening.of, isBlank_eq_false_of_isDigit h, other, h]

/-- White space is skipped. -/
theorem Opening.of_eq_skipped {c : Char} (h : isBlank c = true) : Opening.of c = .skipped := by
  simp [Opening.of, h]

/-- A mark starts no longer token. -/
theorem Opening.of_toChar (m : Mark) : Opening.of m.toChar = .other := by
  cases m <;> decide

/-! ## The first lexeme -/

namespace Lexeme

/-- The lexeme that is cut off at a character, with what is in front of it and behind it: one rule
for each thing that the character can open. -/
inductive CutOff : Char → List Char → Lexeme → List Char → Prop where
  /-- A skipped character is a lexeme by itself. -/
  | skipped {c : Char} {cs : List Char} (opens : Opening.of c = .skipped) :
      CutOff c cs ⟨[c], none⟩ cs
  /-- A comment goes up to the end of its line. -/
  | comment {c : Char} {cs : List Char} (opens : Opening.of c = .comment) :
      CutOff c cs ⟨c :: cs.takeWhile (· ≠ '\n'), none⟩ (cs.dropWhile (· ≠ '\n'))
  /-- A quoted text goes up to its other quote. -/
  | quote {c : Char} {cs : List Char} {q : Quoted} (opens : Opening.of c = .quote)
      (ends : quoted? c cs = some q) :
      CutOff c cs ⟨c :: q.text, some (.string (String.ofList q.value))⟩ q.rest
  /-- An integer literal is all digits, if 64 bits hold the number. -/
  | digit {c : Char} {cs : List Char} {n : Int64} (opens : Opening.of c = .digit)
      (fits : integer? (decimalValue (c :: cs.takeWhile Char.isDigit)) = some n) :
      CutOff c cs ⟨c :: cs.takeWhile Char.isDigit, some (.integer n)⟩ (cs.dropWhile Char.isDigit)
  /-- A name goes on with letters, numbers and underscores. -/
  | letter {c : Char} {cs : List Char} (opens : Opening.of c = .letter) :
      CutOff c cs ⟨c :: cs.takeWhile isNameChar,
        some (.name (String.ofList (c :: cs.takeWhile isNameChar)))⟩ (cs.dropWhile isNameChar)
  /-- A mark is a lexeme by itself. -/
  | other {c : Char} {cs : List Char} {m : Mark} (opens : Opening.of c = .other)
      (known : Mark.ofChar? c = some m) : CutOff c cs ⟨[c], some (.mark m)⟩ cs

/-- The first lexeme is the one that the rules cut off. -/
theorem next_eq_ok_iff {c : Char} {cs rest : List Char} {l : Lexeme} :
    next c cs = .ok (l, rest) ↔ CutOff c cs l rest := by
  constructor
  · intro h
    unfold next at h
    -- One rule for each kind of character that a lexeme opens with.
    split at h
    · next opens =>
      cases h
      exact .skipped opens
    · next opens =>
      cases h
      exact .comment opens
    · next opens =>
      unfold quoted at h
      split at h
      · next ends =>
        cases h
        exact .quote opens ends
      · cases h
    · next opens =>
      unfold integer at h
      split at h
      · next fits =>
        cases h
        exact .digit opens fits
      · cases h
    · next opens =>
      cases h
      exact .letter opens
    · next opens =>
      unfold mark at h
      split at h
      · next known =>
        cases h
        exact .other opens known
      · cases h
  · intro h
    cases h with
    | skipped opens => rw [next, opens]
    | comment opens => rw [next, opens]
    | quote opens ends => simp only [next, opens, quoted, ends]
    | digit opens fits => simp only [next, opens, integer, fits]
    | letter opens => simp only [next, opens, name]
    | other opens known => simp only [next, opens, mark, known]

/-- What is skipped is cut off alone. -/
theorem next_of_skipped {c : Char} (h : Opening.of c = .skipped) (cs : List Char) :
    next c cs = .ok (⟨[c], none⟩, cs) :=
  next_eq_ok_iff.2 (.skipped h)

/-- A comment is cut off up to the end of its line. -/
theorem next_of_comment {c : Char} (h : Opening.of c = .comment) (cs : List Char) :
    next c cs = .ok (⟨c :: cs.takeWhile (· ≠ '\n'), none⟩, cs.dropWhile (· ≠ '\n')) :=
  next_eq_ok_iff.2 (.comment h)

end Lexeme

/-! ## Tokens up to the first fault -/

/-- The tokens of a source up to its first fault, and that fault. -/
def scan (source : List Char) : List Token × Option Cause :=
  ((lexemes source).1.filterMap Lexeme.token, (lexemes source).2)

/-- What a source holds behind some tokens. -/
def behind (ts : List Token) (later : List Token × Option Cause) : List Token × Option Cause :=
  (ts ++ later.1, later.2)

/-- Tokens behind tokens are all of them in a row. -/
theorem behind_behind (ts us : List Token) (later : List Token × Option Cause) :
    behind ts (behind us later) = behind (ts ++ us) later := by
  simp [behind]

/-- An empty source has no tokens and no fault. -/
@[simp] theorem scan_nil : scan [] = ([], none) := by
  simp [scan, lexemes]

/-- The first lexeme of a source comes before what the rest is cut into. -/
theorem lexemes_of_next {c : Char} {cs rest : List Char} {l : Lexeme}
    (h : Lexeme.next c cs = .ok (l, rest)) :
    lexemes (c :: cs) = (l :: (lexemes rest).1, (lexemes rest).2) := by
  rw [lexemes]
  split
  · next l' rest' h' =>
    rw [h] at h'
    cases h'
    rfl
  · next h' =>
    rw [h] at h'
    cases h'

/-- The first lexeme of a source comes before what the rest holds. -/
theorem scan_of_next {c : Char} {cs rest : List Char} {l : Lexeme}
    (h : Lexeme.next c cs = .ok (l, rest)) :
    scan (c :: cs) = behind l.token.toList (scan rest) := by
  cases ht : l.token <;> simp [scan, behind, lexemes_of_next h, ht]

/-- A source is cut into nothing from its first fault on. -/
theorem lexemes_of_fault {c : Char} {cs : List Char} {cause : Cause}
    (h : Lexeme.next c cs = .error cause) : lexemes (c :: cs) = ([], some cause) := by
  rw [lexemes]
  split
  · next h' =>
    rw [h] at h'
    cases h'
  · next cause' h' =>
    rw [h] at h'
    cases h'
    rfl

/-- Nothing of a source is a token from its first fault on. -/
theorem scan_of_fault {c : Char} {cs : List Char} {cause : Cause}
    (h : Lexeme.next c cs = .error cause) : scan (c :: cs) = ([], some cause) := by
  simp [scan, lexemes_of_fault h]

/-! ## What each kind of token is cut into -/

/-- White space is skipped. -/
theorem scan_blank {c : Char} (h : isBlank c = true) (rest : List Char) :
    scan (c :: rest) = scan rest :=
  scan_of_next (Lexeme.next_of_skipped (Opening.of_eq_skipped h) rest)

/-- A space is skipped. -/
theorem scan_space (rest : List Char) : scan (' ' :: rest) = scan rest :=
  scan_blank (by decide) rest

/-- The end of a line is skipped. -/
theorem scan_newline (rest : List Char) : scan ('\n' :: rest) = scan rest :=
  scan_blank (by decide) rest

/-- Indentation is skipped. -/
theorem scan_indent (depth : Nat) (rest : List Char) : scan (indent depth ++ rest) = scan rest := by
  unfold indent
  -- On the number of spaces.
  induction 2 * depth with
  | zero => rfl
  | succ n ih => rw [List.replicate_succ, List.cons_append, scan_space, ih]

/-- A mark is a token by itself. -/
theorem scan_mark (m : Mark) (rest : List Char) :
    scan (m.toChar :: rest) = behind [.mark m] (scan rest) :=
  scan_of_next (Lexeme.next_eq_ok_iff.2 (.other (Opening.of_toChar m) (Mark.ofChar?_toChar m)))

/-- Nothing at the head of the characters continues a name or a number. -/
def Border (cs : List Char) : Prop :=
  ∀ c ∈ cs.head?, isNameChar c = false

/-- Nothing continues at the end of a source. -/
theorem Border.nil : Border [] := nofun

/-- A character that is in no name continues none. -/
theorem Border.cons {c : Char} (h : isNameChar c = false) (cs : List Char) : Border (c :: cs) := by
  rintro d ⟨⟩
  exact h

/-- A border ends digits, which would continue a name. -/
theorem Border.isDigit_eq_false {cs : List Char} (h : Border cs) :
    ∀ c ∈ cs.head?, c.isDigit = false := by
  intro c hc
  refine Bool.eq_false_iff.2 fun hd => ?_
  have hb := h c hc
  rw [isNameChar_of_isDigit hd] at hb
  cases hb

/-- A name: a letter or an underscore, then letters, numbers and underscores. -/
def IsName (x : String) : Prop :=
  ∃ c cs, x.toList = c :: cs ∧ isNameStart c = true ∧ ∀ d ∈ cs, isNameChar d = true

/-- Whether a text is a name can be computed from its first character and the others. -/
theorem isName_iff {x : String} :
    (x.toList.head?.any isNameStart && x.toList.tail.all isNameChar) = true ↔ IsName x := by
  rw [IsName, Bool.and_eq_true]
  cases x.toList with
  | nil => simp
  | cons c cs =>
    rw [List.head?_cons, Option.any_some, List.tail_cons, List.all_eq_true]
    constructor
    · rintro ⟨start, all⟩
      exact ⟨c, cs, rfl, start, all⟩
    · rintro ⟨_, _, ⟨⟩, start, all⟩
      exact ⟨start, all⟩

instance (x : String) : Decidable (IsName x) :=
  decidable_of_iff _ isName_iff

/-- A name in front of a border is a token. -/
theorem scan_name {x : String} (h : IsName x) {rest : List Char} (border : Border rest) :
    scan (x.toList ++ rest) = behind [.name x] (scan rest) := by
  obtain ⟨c, cs, hx, start, all⟩ := h
  obtain ⟨htake, hdrop⟩ := takeWhile_append_border all border
  have hname : String.ofList (c :: cs) = x := by rw [← hx, String.ofList_toList]
  have cut : Lexeme.CutOff c (cs ++ rest) _ _ := .letter (Opening.of_eq_letter start)
  rw [htake, hdrop, hname] at cut
  rw [hx, List.cons_append]
  exact scan_of_next (Lexeme.next_eq_ok_iff.2 cut)

/-- Digits in front of a border are an integer literal if 64 bits hold the number, and a fault
otherwise. -/
theorem scan_toDigits (n : Nat) {rest : List Char} (border : Border rest) :
    scan (Nat.toDigits 10 n ++ rest) =
      match integer? n with
      | some m => behind [.integer m] (scan rest)
      | none => ([], some .integerOutOfRange) := by
  have isDigit : ∀ c ∈ Nat.toDigits 10 n, c.isDigit = true := fun c hc =>
    Nat.isDigit_of_mem_toDigits (by decide) (by decide) hc
  have hvalue : decimalValue (Nat.toDigits 10 n) = n := Nat.ofDigitChars_ten_toDigits
  cases hdigits : Nat.toDigits 10 n with
  | nil => exact absurd hdigits Nat.toDigits_ne_nil
  | cons c cs =>
    rw [hdigits] at isDigit hvalue
    obtain ⟨htake, hdrop⟩ :=
      takeWhile_append_border (fun d hd => isDigit d (List.mem_cons_of_mem _ hd))
        border.isDigit_eq_false
    have hnext : Lexeme.next c (cs ++ rest) = Lexeme.integer c (cs ++ rest) := by
      simp [Lexeme.next, Opening.of_eq_digit (isDigit c List.mem_cons_self)]
    -- All digits and no more are taken, and they write `n`.
    unfold Lexeme.integer at hnext
    rw [htake, hdrop, hvalue] at hnext
    rw [List.cons_append]
    cases hm : integer? n with
    | some m =>
      rw [hm] at hnext
      exact scan_of_next hnext
    | none =>
      rw [hm] at hnext
      exact scan_of_fault hnext

/-- What is written of a character between quotes is read as that character. -/
theorem quoted?_escape (c : Char) (cs : List Char) :
    quoted? '\'' (escape c ++ cs) = (quoted? '\'' cs).map (Quoted.extend [c] (escape c)) := by
  unfold escape
  split
  · simp [quoted?, unescape]
  · simp [quoted?, unescape]
  · simp [quoted?, unescape]
  · simp [quoted?, unescape]
  · simp [quoted?, unescape]
  · -- Any other character stands for itself.
    next hbackslash hquote hnewline _ _ =>
    rw [List.singleton_append, quoted?.eq_def]
    dsimp only
    rw [if_neg hnewline, if_neg hquote, if_neg hbackslash]

/-- What is written of a text between quotes is read as that text. -/
theorem quoted?_flatMap_escape (cs rest : List Char) :
    quoted? '\'' (cs.flatMap escape ++ '\'' :: rest) =
      some ⟨cs, cs.flatMap escape ++ ['\''], rest⟩ := by
  induction cs with
  | nil =>
    rw [quoted?.eq_def]
    simp
  | cons c cs ih =>
    rw [List.flatMap_cons, List.append_assoc, quoted?_escape, ih]
    simp [Quoted.extend]

/-- A quoted text is a token by itself. -/
theorem scan_quote (s : String) (rest : List Char) :
    scan (quote s ++ rest) = behind [.string s] (scan rest) := by
  have cut : Lexeme.CutOff '\'' (s.toList.flatMap escape ++ '\'' :: rest) _ _ :=
    .quote (by decide) (quoted?_flatMap_escape s.toList rest)
  rw [String.ofList_toList] at cut
  rw [quote, List.cons_append, List.append_assoc, List.singleton_append]
  exact scan_of_next (Lexeme.next_eq_ok_iff.2 cut)

end OverlaySync.Deps
