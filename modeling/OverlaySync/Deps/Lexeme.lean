import OverlaySync.Deps.SyntaxError
import OverlaySync.Deps.Token
import OverlaySync.Unicode.Blank
import OverlaySync.Unicode.Number

/-! # Lexemes: the source cut into tokens

A source is cut, from its start on, into lexemes: runs of characters that write one token, or that
write none (white space, a comment, a lone backslash). `Lexeme.next` cuts off the first one,
`lexemes` all of them up to the first fault, and `tokensOf` keeps the tokens with their offsets.
Nothing of the source is lost: what a lexeme holds and what is left add up to what was there
(`Lexeme.text_append_rest`). -/

namespace OverlaySync.Deps

open Unicode (isBlank isLetter isLetterOrNumber)

/-- A run of characters that writes one token, or none. -/
structure Lexeme where
  /-- The characters. -/
  text : List Char
  /-- The token that they write; none for white space, comments and lone backslashes. -/
  token : Option Token
  deriving DecidableEq, Repr

/-! ## Quoted texts -/

/-- What a backslash and the character behind it stand for in a quoted text. A backslash before the
end of a line continues the text on the next line; before any other character that needs no escape
it stands for itself. -/
def unescape : Char → List Char
  | 'n' => ['\n']
  | 't' => ['\t']
  | 'r' => ['\r']
  | '\\' => ['\\']
  | '\'' => ['\'']
  | '"' => ['"']
  | '\n' => []
  | c => ['\\', c]

/-- The rest of a quoted text, behind its opening quote. -/
structure Quoted where
  /-- The text that is meant. -/
  value : List Char
  /-- The characters that write it, with the closing quote. -/
  text : List Char
  /-- The characters behind it. -/
  rest : List Char

/-- The quoted text with more characters before it. -/
def Quoted.extend (value text : List Char) (q : Quoted) : Quoted :=
  ⟨value ++ q.value, text ++ q.text, q.rest⟩

/-- Read a quoted text up to its closing quote. There is none if the line or the source ends first.
-/
def quoted? (quote : Char) : List Char → Option Quoted
  | [] => none
  | c :: cs =>
    if c = '\n' then none
    else if c = quote then some ⟨[], [c], cs⟩
    else if c = '\\' then
      match cs with
      | [] => none
      | e :: cs => (quoted? quote cs).map (Quoted.extend (unescape e) [c, e])
    else (quoted? quote cs).map (Quoted.extend [c] [c])

/-- A literal is cut off without loss: its source text, backslashes and closing quote included, and
what stands behind it are all there was. -/
theorem Quoted.text_append_rest {quote : Char} {cs : List Char} {q : Quoted}
    (h : quoted? quote cs = some q) : q.text ++ q.rest = cs := by
  fun_induction quoted? quote cs generalizing q with
  | case1 => cases h
  | case2 => cases h
  | case3 => cases h; rfl
  | case4 => cases h
  | case5 _ _ _ _ ih =>
    obtain ⟨q', hq', rfl⟩ := Option.map_eq_some_iff.1 h
    simp [Quoted.extend, ih hq']
  | case6 _ _ _ _ _ ih =>
    obtain ⟨q', hq', rfl⟩ := Option.map_eq_some_iff.1 h
    simp [Quoted.extend, ih hq']

/-! ## Integers -/

/-- The number that ASCII digits write. -/
def decimalValue (digits : List Char) : Nat :=
  digits.foldl (fun n d => 10 * n + (d.toNat - '0'.toNat)) 0

/-- The integer of a number that is not negative, if 64 bits hold it. -/
def integer? (n : Nat) : Option Int64 :=
  if (n : Int) ≤ Int64.maxValue.toInt then some (Int64.ofNat n) else none

/-! ## Lexemes -/

/-- The characters that continue a name. -/
def isNameChar (c : Char) : Bool :=
  isLetterOrNumber c || c = '_'

/-- The characters that start a name. -/
def isNameStart (c : Char) : Bool :=
  isLetter c || c = '_'

/-- What a character starts at the border between lexemes. -/
inductive Opening where
  /-- White space, or a backslash that joins lines. -/
  | skipped
  /-- A comment, up to the end of the line. -/
  | comment
  /-- A quoted text. -/
  | quote
  /-- An integer literal. -/
  | digit
  /-- A name. -/
  | letter
  /-- A mark, if anything. -/
  | other
  deriving DecidableEq, Repr

/-- What a character starts. -/
def Opening.of (c : Char) : Opening :=
  if isBlank c then skipped
  else if c = '#' then comment
  else if c = '\\' then skipped
  else if c = '\'' ∨ c = '"' then quote
  else if c.isDigit then digit
  else if isNameStart c then letter
  else other

/-- A quoted text that opens with `c`. -/
def Lexeme.quoted (c : Char) (cs : List Char) : Except Cause (Lexeme × List Char) :=
  match quoted? c cs with
  | some q => .ok (⟨c :: q.text, some (.string (String.ofList q.value))⟩, q.rest)
  | none => .error .unterminatedString

/-- The integer literal that starts with the digit `c`. -/
def Lexeme.integer (c : Char) (cs : List Char) : Except Cause (Lexeme × List Char) :=
  match integer? (decimalValue (c :: cs.takeWhile Char.isDigit)) with
  | some n => .ok (⟨c :: cs.takeWhile Char.isDigit, some (.integer n)⟩, cs.dropWhile Char.isDigit)
  | none => .error .integerOutOfRange

/-- The name that starts with the letter or underscore `c`. -/
def Lexeme.name (c : Char) (cs : List Char) : Lexeme × List Char :=
  (⟨c :: cs.takeWhile isNameChar, some (.name (String.ofList (c :: cs.takeWhile isNameChar)))⟩,
    cs.dropWhile isNameChar)

/-- The mark `c`. -/
def Lexeme.mark (c : Char) (cs : List Char) : Except Cause (Lexeme × List Char) :=
  match Mark.ofChar? c with
  | some m => .ok (⟨[c], some (.mark m)⟩, cs)
  | none => .error (.unexpectedCharacter c)

/-- Cut the first lexeme off a source that starts with `c`. -/
def Lexeme.next (c : Char) (cs : List Char) : Except Cause (Lexeme × List Char) :=
  match Opening.of c with
  | .skipped => .ok (⟨[c], none⟩, cs)
  | .comment => .ok (⟨c :: cs.takeWhile (· ≠ '\n'), none⟩, cs.dropWhile (· ≠ '\n'))
  | .quote => Lexeme.quoted c cs
  | .digit => Lexeme.integer c cs
  | .letter => .ok (Lexeme.name c cs)
  | .other => Lexeme.mark c cs

/-- The first lexeme and what is left are the source. -/
theorem Lexeme.text_append_rest {c : Char} {cs rest : List Char} {l : Lexeme}
    (h : Lexeme.next c cs = .ok (l, rest)) : l.text ++ rest = c :: cs := by
  unfold Lexeme.next at h
  split at h
  · cases h; rfl
  · cases h; simp [List.takeWhile_append_dropWhile]
  · unfold Lexeme.quoted at h
    split at h
    · next q hq => cases h; simp [Quoted.text_append_rest hq]
    · cases h
  · unfold Lexeme.integer at h
    split at h
    · cases h; simp [List.takeWhile_append_dropWhile]
    · cases h
  · cases h; simp [List.takeWhile_append_dropWhile]
  · unfold Lexeme.mark at h
    split at h
    · cases h; rfl
    · cases h

/-- A lexeme starts with the character that it is cut off at. -/
theorem Lexeme.head?_text {c : Char} {cs rest : List Char} {l : Lexeme}
    (h : Lexeme.next c cs = .ok (l, rest)) : l.text.head? = some c := by
  unfold Lexeme.next Lexeme.quoted Lexeme.integer Lexeme.mark at h
  split at h <;> try split at h
  all_goals cases h
  all_goals rfl

/-- Every lexeme takes at least the character it begins with; this is why the scan of a text ends.
-/
theorem Lexeme.length_rest_lt {c : Char} {cs rest : List Char} {l : Lexeme}
    (h : Lexeme.next c cs = .ok (l, rest)) : rest.length < (c :: cs).length := by
  have := congrArg List.length (Lexeme.text_append_rest h)
  have : 0 < l.text.length := by
    cases hl : l.text with
    | nil => simpa [hl] using Lexeme.head?_text h
    | cons => simp
  simp only [List.length_append, List.length_cons] at *
  omega

/-- Cut a source into lexemes, up to the first fault. -/
def lexemes : List Char → List Lexeme × Option Cause
  | [] => ([], none)
  | c :: cs =>
    match h : Lexeme.next c cs with
    | .ok (l, rest) =>
      have : rest.length ≤ cs.length := Nat.le_of_lt_succ (Lexeme.length_rest_lt h)
      let later := lexemes rest
      (l :: later.1, later.2)
    | .error cause => ([], some cause)
  termination_by cs => cs.length

/-! ## Tokens and their places -/

/-- A token and the number of characters before it. -/
structure Located where
  /-- The number of characters before the token. -/
  offset : Nat
  /-- The token. -/
  token : Token
  deriving DecidableEq, Repr

/-- The tokens of lexemes that start at `offset`. -/
def locate (offset : Nat) : List Lexeme → List Located
  | [] => []
  | l :: ls =>
    let later := locate (offset + l.text.length) ls
    match l.token with
    | some t => ⟨offset, t⟩ :: later
    | none => later

/-- The number of characters that lexemes hold. -/
def extent (ls : List Lexeme) : Nat :=
  (ls.flatMap Lexeme.text).length

/-- The tokens of a source, or its first fault. -/
def tokensOf (source : List Char) : Except SyntaxError (List Located) :=
  match lexemes source with
  | (ls, none) => .ok (locate 0 ls)
  | (ls, some cause) => .error ⟨Position.ofOffset source (extent ls), cause⟩

end OverlaySync.Deps
