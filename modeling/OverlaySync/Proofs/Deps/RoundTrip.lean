import OverlaySync.Proofs.Deps.Recognition
import OverlaySync.Proofs.Deps.Scanning

/-! # Written values are read back

Both ways of writing a value, on one line and laid out over lines, are undone by parsing. The one
exception is the least integer: its digits are beyond what a literal can hold, so a value that holds
it somewhere is refused, wherever it stands and whatever else is written.

The statement is carried by `Writes`, which says of characters what they are cut into, if anything,
and has one rule for each way in which the printer puts characters together. -/

namespace OverlaySync.Deps

open Unicode (isBlank)

/-! ## Values with the least integer -/

namespace Value

mutual

/-- Some integer of the value is the least of 64 bits. -/
def hasLeast : Value → Bool
  | .int n => n = Int64.minValue
  | .list items => hasLeastItem items
  | .dict es => hasLeastEntry es
  | _ => false

/-- Some item has the least integer. -/
def hasLeastItem : List Value → Bool
  | [] => false
  | v :: vs => v.hasLeast || hasLeastItem vs

/-- The value of some entry has the least integer. -/
def hasLeastEntry : List (String × Value) → Bool
  | [] => false
  | (_, v) :: es => v.hasLeast || hasLeastEntry es

end

/-- The least integer is in a list if it is in one of its items. -/
theorem hasLeastItem_eq_any (vs : List Value) : hasLeastItem vs = vs.any hasLeast := by
  induction vs with
  | nil => rfl
  | cons v vs ih => rw [hasLeastItem, ih, List.any_cons]

/-- The least integer is in a dict if it is in the value of one of its entries. -/
theorem hasLeastEntry_eq_any (es : List (String × Value)) :
    hasLeastEntry es = es.any fun e => e.2.hasLeast := by
  induction es with
  | nil => rfl
  | cons e es ih => rw [hasLeastEntry, ih, List.any_cons]

end Value

/-! ## What tokens denote -/

/-- The tokens derive an operand whose value is `v` in every scope. -/
def Denotes (v : Value) (ts : List Token) : Prop :=
  ∃ p, IsUnary ts p ∧ ∀ scope, Means scope p v

/-- The tokens derive items with the values `vs` in every scope. -/
def DenotesItems (vs : List Value) (ts : List Token) : Prop :=
  ∃ ps, IsItems ts ps ∧ ∀ scope, MeansItems scope ps vs

/-- The tokens derive entries with the keys and values `es` in every scope. -/
def DenotesEntries (es : List (String × Value)) (ts : List Token) : Prop :=
  ∃ ps, IsEntries ts ps ∧ ∀ scope, MeansEntries scope ps es

/-- No tokens are no items. -/
theorem DenotesItems.nil : DenotesItems [] [] :=
  ⟨[], .nil, fun _ => .nil⟩

/-- The last item needs no comma. -/
theorem DenotesItems.last {v : Value} {ts : List Token} (h : Denotes v ts) :
    DenotesItems [v] ts := by
  obtain ⟨p, hp, hv⟩ := h
  exact ⟨[p], .last hp.isExpr, fun scope => .cons (hv scope) .nil⟩

/-- A comma stands between an item and the others. -/
theorem DenotesItems.cons {v : Value} {vs : List Value} {ts us : List Token} (h : Denotes v ts)
    (hs : DenotesItems vs us) : DenotesItems (v :: vs) (ts ++ .mark .comma :: us) := by
  obtain ⟨p, hp, hv⟩ := h
  obtain ⟨ps, hps, hvs⟩ := hs
  exact ⟨p :: ps, .cons hp.isExpr hps, fun scope => .cons (hv scope) (hvs scope)⟩

/-- A quoted key is an expression. -/
theorem isExpr_string (k : String) : IsExpr [.string k] (.text k) := by
  have hk : IsPrimary [.string k] (.text k) := by simpa using IsPrimary.text k []
  exact (IsUnary.primary hk).isExpr

/-- No tokens are no entries. -/
theorem DenotesEntries.nil : DenotesEntries [] [] :=
  ⟨[], .nil, fun _ => .nil⟩

/-- The last entry needs no comma. -/
theorem DenotesEntries.last {k : String} {v : Value} {ts : List Token} (h : Denotes v ts) :
    DenotesEntries [(k, v)] (.string k :: .mark .colon :: ts) := by
  obtain ⟨p, hp, hv⟩ := h
  exact ⟨[(.text k, p)], .last (isExpr_string k) hp.isExpr,
    fun scope => .cons (.text k) (hv scope) .nil⟩

/-- A comma stands between an entry and the others. -/
theorem DenotesEntries.cons {k : String} {v : Value} {es : List (String × Value)}
    {ts us : List Token} (h : Denotes v ts) (hs : DenotesEntries es us) :
    DenotesEntries ((k, v) :: es) (.string k :: .mark .colon :: (ts ++ .mark .comma :: us)) := by
  obtain ⟨p, hp, hv⟩ := h
  obtain ⟨ps, hps, hes⟩ := hs
  exact ⟨(.text k, p) :: ps, .cons (isExpr_string k) hp.isExpr hps,
    fun scope => .cons (.text k) (hv scope) (hes scope)⟩

/-- Items in brackets are the list of their values. -/
theorem Denotes.list {vs : List Value} {ts : List Token} (h : DenotesItems vs ts) :
    Denotes (.list vs) (.mark .openBracket :: (ts ++ [.mark .closeBracket])) := by
  obtain ⟨ps, hps, hvs⟩ := h
  exact ⟨.list ps, .primary (.list hps), fun scope => .list (hvs scope)⟩

/-- Entries in key order are the dict that they write. -/
theorem Denotes.dict {es : List (String × Value)} (ascending : Entries.Ascending es)
    {ts : List Token} (h : DenotesEntries es ts) :
    Denotes (.dict es) (.mark .openBrace :: (ts ++ [.mark .closeBrace])) := by
  obtain ⟨ps, hps, hes⟩ := h
  have latest := holdsLatest_self ascending
  exact ⟨.dict ps, .primary (.dict hps), fun scope => .dict (hes scope) latest⟩

/-! ## What characters write -/

/-- In front of a border the characters are cut into tokens of which `P` holds; if they hold the
least integer, they are refused instead. -/
def Writes (least : Bool) (P : List Token → Prop) (cs : List Char) : Prop :=
  ∀ rest, Border rest →
    match least with
    | true => (scan (cs ++ rest)).2 = some .integerOutOfRange
    | false => ∃ ts, P ts ∧ scan (cs ++ rest) = behind ts (scan rest)

namespace Writes

variable {l l' : Bool} {P Q R : List Token → Prop} {cs ds : List Char}

/-- What is written can be said less exactly. -/
theorem mono (h : Writes l P cs) (hPQ : ∀ ts, P ts → Q ts) : Writes l Q cs := by
  intro rest border
  have hcs := h rest border
  cases l with
  | true => exact hcs
  | false =>
    obtain ⟨ts, hP, hts⟩ := hcs
    exact ⟨ts, hPQ ts hP, hts⟩

/-- Characters that are cut into known tokens write these. -/
theorem of_scan (ts : List Token) (hP : P ts)
    (h : ∀ rest, Border rest → scan (cs ++ rest) = behind ts (scan rest)) : Writes false P cs :=
  fun rest border => ⟨ts, hP, h rest border⟩

/-- Characters that are cut into known tokens, whatever follows, may come first. -/
theorem behind (us : List Token) (pre : List Char)
    (hpre : ∀ rest, scan (pre ++ rest) = Deps.behind us (scan rest))
    (h : Writes l (fun ts => P (us ++ ts)) cs) : Writes l P (pre ++ cs) := by
  intro rest border
  have hcs := h rest border
  rw [List.append_assoc, hpre]
  cases l with
  | true => exact hcs
  | false =>
    obtain ⟨ts, hP, hts⟩ := hcs
    exact ⟨us ++ ts, hP, by rw [hts, behind_behind]⟩

/-- Two texts next to each other, with a border between them. The least integer in either of them
is enough to have both refused. -/
theorem append (h : Writes l P cs) (hs : Writes l' Q ds)
    (border : ∀ rest, Border rest → Border (ds ++ rest))
    (both : ∀ ts us, P ts → Q us → R (ts ++ us)) : Writes (l || l') R (cs ++ ds) := by
  intro rest hrest
  have first := h (ds ++ rest) (border rest hrest)
  have second := hs rest hrest
  rw [List.append_assoc]
  cases l with
  | true => exact first
  | false =>
    -- The first text is cut into its tokens, and the second one stands behind them.
    obtain ⟨ts, hP, hts⟩ := first
    rw [hts]
    cases l' with
    | true => exact second
    | false =>
      obtain ⟨us, hQ, hus⟩ := second
      exact ⟨ts ++ us, both ts us hP hQ, by rw [hus, behind_behind]⟩

/-- White space may come first. -/
theorem blank {c : Char} (hc : isBlank c = true) (h : Writes l P cs) : Writes l P (c :: cs) :=
  behind [] [c] (fun rest => scan_blank hc rest) h

/-- Indentation may come first. -/
theorem indented (depth : Nat) (h : Writes l P cs) : Writes l P (indent depth ++ cs) :=
  behind [] _ (fun rest => scan_indent depth rest) h

/-- A mark may come first. -/
theorem mark (m : Mark) (h : Writes l (fun ts => P (.mark m :: ts)) cs) :
    Writes l P (m.toChar :: cs) :=
  behind [.mark m] [m.toChar] (fun rest => scan_mark m rest) h

/-- A quoted text may come first. -/
theorem quoted (s : String) (h : Writes l (fun ts => P (.string s :: ts)) cs) :
    Writes l P (quote s ++ cs) :=
  behind [.string s] _ (fun rest => scan_quote s rest) h

/-- A comma and white space between two texts. -/
theorem separated {c : Char} (hc : isBlank c = true) (h : Writes l P cs) (hs : Writes l' Q ds)
    (both : ∀ ts us, P ts → Q us → R (ts ++ .mark .comma :: us)) :
    Writes (l || l') R (cs ++ ',' :: c :: ds) := by
  refine h.append (mark .comma (blank hc (hs.mono fun us hQ => ⟨us, rfl, hQ⟩)))
    (Q := fun ts => ∃ us, ts = .mark .comma :: us ∧ Q us) (fun rest _ => .cons (by decide) _) ?_
  rintro ts _ hP ⟨us, rfl, hQ⟩
  exact both ts us hP hQ

/-- A key, a colon and a space come before a value. -/
theorem keyed (k : String) (h : Writes l (fun ts => P (.string k :: .mark .colon :: ts)) cs) :
    Writes l P (quote k ++ ':' :: ' ' :: cs) :=
  quoted k (mark .colon (blank (by decide) h))

/-- Brackets around a text, the closing one behind some indentation. -/
theorem bracketed {o c : Mark} (hc : isNameChar c.toChar = false) (depth : Nat) (h : Writes l P cs)
    (inside : ∀ ts, P ts → Q (.mark o :: (ts ++ [.mark c]))) :
    Writes l Q (o.toChar :: (cs ++ (indent depth ++ [c.toChar]))) := by
  -- The closing bracket ends what is written between the brackets, with indentation or without.
  have closing : Writes false (· = [.mark c]) (indent depth ++ [c.toChar]) :=
    indented depth (mark c (of_scan [] rfl fun rest _ => rfl))
  have border : ∀ rest, Border ((indent depth ++ [c.toChar]) ++ rest) := by
    intro rest
    unfold indent
    cases 2 * depth with
    | zero => exact .cons hc _
    | succ n => exact .cons (by decide) _
  have all : Writes (l || false) (fun ts => Q (.mark o :: ts))
      (cs ++ (indent depth ++ [c.toChar])) :=
    h.append closing (fun rest _ => border rest) fun ts us hP hus => hus ▸ inside ts hP
  rw [Bool.or_false] at all
  exact mark o all

/-- A constant is written by its name. -/
theorem constant {c : Char} {cs : List Char} {v : Value} (start : isNameStart c = true)
    (all : cs.all isNameChar = true)
    (means : ∀ scope, Means scope (.name (String.ofList (c :: cs))) v) :
    Writes false (Denotes v) (c :: cs) := by
  have hname : IsName (String.ofList (c :: cs)) :=
    ⟨c, cs, String.toList_ofList, start, List.all_eq_true.1 all⟩
  refine of_scan _ ⟨_, .primary (.name _), means⟩ fun rest border => ?_
  have hscan := scan_name hname border
  rwa [String.toList_ofList] at hscan

/-- A quoted text writes its token. -/
theorem string (s : String) (hP : P [.string s]) : Writes false P (quote s) :=
  of_scan _ hP fun rest _ => scan_quote s rest

/-- Digits write an integer literal if 64 bits hold the number. -/
theorem digits {n : Nat} (h : (n : Int) ≤ Int64.maxValue.toInt)
    (hP : P [.integer (Int64.ofNat n)]) : Writes false P (Nat.toDigits 10 n) := by
  have hn : integer? n = some (Int64.ofNat n) := if_pos h
  refine of_scan _ hP fun rest border => ?_
  rw [scan_toDigits n border, hn]

/-- The digits of the least integer are refused. -/
theorem digits_least : Writes true P (Nat.toDigits 10 Int64.minValue.toInt.natAbs) := by
  have hn : integer? Int64.minValue.toInt.natAbs = none := by decide
  intro rest border
  rw [scan_toDigits _ border, hn]

end Writes

/-! ## What the printer writes -/

/-- A written integer is read as it is, the least one excepted: its minus sign is not part of a
literal, and what is behind it is one more than a literal can hold. -/
theorem writes_decimal (n : Int64) :
    Writes (decide (n = Int64.minValue)) (Denotes (.int n)) (decimal n.toInt) := by
  have low := Int64.le_toInt n
  have high := Int64.toInt_lt n
  by_cases least : n = Int64.minValue
  · rw [decide_eq_true least, least, decimal, if_pos (by decide)]
    exact .mark .minus .digits_least
  have ne : n.toInt ≠ -2 ^ 63 := fun h => least (Int64.toInt_inj.1 h)
  rw [decide_eq_false least]
  unfold decimal
  split
  · next negative =>
    -- A minus sign and a literal: the value is that of the negation.
    have bound : n.toInt.natAbs < 2 ^ 63 := by omega
    have result : n.toInt = -(Int64.ofNat n.toInt.natAbs).toInt := by
      rw [Int64.toInt_ofNat_of_lt bound]
      omega
    exact .mark .minus <| .digits (by rw [Int64.toInt_maxValue]; omega)
      ⟨_, .negation (.primary (.integer _)), fun _ => .negation (.integer _) result⟩
  · next nonnegative =>
    have bound : n.toInt.toNat < 2 ^ 63 := by omega
    have same : Int64.ofNat n.toInt.toNat = n := by
      rw [← Int64.toInt_inj, Int64.toInt_ofNat_of_lt bound]
      omega
    refine .digits (by rw [Int64.toInt_maxValue]; omega) ?_
    rw [same]
    exact ⟨_, .primary (.integer n), fun _ => .integer n⟩

/-- A written text is read as it is, whatever characters it has. -/
theorem writes_quote (s : String) : Writes false (Denotes (.str s)) (quote s) := by
  have primary : IsPrimary [.string s] (.text s) := by simpa using IsPrimary.text s []
  exact .string s ⟨_, .primary primary, fun _ => .text s⟩

namespace Value

mutual

/-- A value written on one line is read as it is, if it does not hold the least integer. -/
theorem writes_inline (v : Value) (canonical : v.Canonical) :
    Writes v.hasLeast (Denotes v) v.inline := by
  match v with
  | .none => exact .constant (by decide) (by decide) fun _ => .none
  | .bool true => exact .constant (by decide) (by decide) fun _ => .true
  | .bool false => exact .constant (by decide) (by decide) fun _ => .false
  | .int n =>
    rw [hasLeast, inline]
    exact writes_decimal n
  | .str s => exact writes_quote s
  | .list items =>
    rw [hasLeast, inline]
    exact (writes_inlineItems items canonical).bracketed (o := .openBracket) (c := .closeBracket)
      (by decide) 0 fun ts h => .list h
  | .dict es =>
    rw [hasLeast, inline]
    exact (writes_inlineEntries es canonical.2).bracketed (o := .openBrace) (c := .closeBrace)
      (by decide) 0 fun ts h => .dict canonical.1 h

/-- Items written on one line are read as they are. -/
theorem writes_inlineItems (vs : List Value) (canonical : CanonicalItems vs) :
    Writes (hasLeastItem vs) (DenotesItems vs) (inlineItems vs) := by
  match vs with
  | [] => exact .of_scan [] DenotesItems.nil fun _ _ => rfl
  | [v] =>
    rw [hasLeastItem, hasLeastItem, Bool.or_false, inlineItems]
    exact (v.writes_inline canonical.1).mono fun ts h => .last h
  | v :: w :: vs =>
    rw [hasLeastItem, inlineItems]
    exact (v.writes_inline canonical.1).separated (by decide)
      (writes_inlineItems (w :: vs) canonical.2) fun ts us h hs => .cons h hs

/-- Entries written on one line are read as they are. -/
theorem writes_inlineEntries (es : List (String × Value)) (canonical : CanonicalEntries es) :
    Writes (hasLeastEntry es) (DenotesEntries es) (inlineEntries es) := by
  match es with
  | [] => exact .of_scan [] DenotesEntries.nil fun _ _ => rfl
  | [(k, v)] =>
    rw [hasLeastEntry, hasLeastEntry, Bool.or_false, inlineEntries]
    exact .keyed k ((v.writes_inline canonical.1).mono fun ts h => .last h)
  | (k, v) :: e :: es =>
    rw [hasLeastEntry, inlineEntries]
    exact .keyed k <| (v.writes_inline canonical.1).separated (by decide)
      (writes_inlineEntries (e :: es) canonical.2) fun ts us h hs => .cons h hs

end

mutual

/-- A value laid out over lines is read as it is, if it does not hold the least integer. -/
theorem writes_layout (depth : Nat) (v : Value) (canonical : v.Canonical) :
    Writes v.hasLeast (Denotes v) (v.layout depth) := by
  match v with
  | .none | .bool _ | .int _ | .str _ => exact writes_inline _ canonical
  | .list items =>
    rw [layout]
    split
    · -- Lists of scalars stay on their line.
      exact writes_inline (.list items) canonical
    · rw [hasLeast, List.append_assoc]
      exact (Writes.blank (by decide) (writes_layoutItems (depth + 1) items canonical)).bracketed
        (o := .openBracket) (c := .closeBracket) (by decide) depth fun ts h => .list h
  -- A dict without entries stays on its line, too.
  | .dict [] => exact writes_inline (.dict []) canonical
  | .dict (e :: es) =>
    rw [layout, hasLeast, List.append_assoc]
    exact (Writes.blank (by decide)
      (writes_layoutEntries (depth + 1) (e :: es) canonical.2)).bracketed
        (o := .openBrace) (c := .closeBrace) (by decide) depth fun ts h => .dict canonical.1 h

/-- Items laid out over lines are read as they are. -/
theorem writes_layoutItems (depth : Nat) (vs : List Value) (canonical : CanonicalItems vs) :
    Writes (hasLeastItem vs) (DenotesItems vs) (layoutItems depth vs) := by
  match vs with
  | [] => exact .of_scan [] DenotesItems.nil fun _ _ => rfl
  | v :: vs =>
    rw [hasLeastItem, layoutItems, List.append_assoc]
    exact .indented depth <| (v.writes_layout depth canonical.1).separated (by decide)
      (writes_layoutItems depth vs canonical.2) fun ts us h hs => .cons h hs

/-- Entries laid out over lines are read as they are. -/
theorem writes_layoutEntries (depth : Nat) (es : List (String × Value))
    (canonical : CanonicalEntries es) :
    Writes (hasLeastEntry es) (DenotesEntries es) (layoutEntries depth es) := by
  match es with
  | [] => exact .of_scan [] DenotesEntries.nil fun _ _ => rfl
  | (k, v) :: es =>
    rw [hasLeastEntry, layoutEntries, List.append_assoc]
    exact .indented depth <| .keyed k <| (v.writes_layout depth canonical.1).separated (by decide)
      (writes_layoutEntries depth es canonical.2) fun ts us h hs => .cons h hs

end

end Value

/-! ## Parsing undoes writing -/

/-- Locating lexemes keeps their tokens. -/
theorem map_token_locate (offset : Nat) (ls : List Lexeme) :
    (locate offset ls).map Located.token = ls.filterMap Lexeme.token := by
  induction ls generalizing offset with
  | nil => rfl
  | cons l ls ih =>
    rw [locate]
    cases h : l.token with
    | none => simp [h, ih]
    | some t => simp [h, ih]

/-- A source without a fault is cut into the tokens that it holds. -/
theorem tokensOf_of_scan {source : List Char} {ts : List Token} (h : scan source = (ts, none)) :
    ∃ located, tokensOf source = .ok located ∧ located.map Located.token = ts := by
  obtain ⟨htokens, hfault⟩ := Prod.mk.inj h
  refine ⟨locate 0 (lexemes source).1, ?_, (map_token_locate _ _).trans htokens⟩
  unfold tokensOf
  split
  · next ls hls => rw [hls]
  · next ls cause hls =>
    rw [hls] at hfault
    cases hfault

/-- What a source with these tokens and this fault comes to, wherever they are. -/
def outcome : List Token × Option Cause → Except Cause Bindings
  | (ts, none) => (File.read ts).eval.mapError Fault.cause
  | (_, some cause) => .error cause

/-- What a source binds, or why it is refused, depends on the tokens that it holds. -/
theorem mapError_parse (source : String) :
    (parse source).mapError SyntaxError.cause = outcome (scan source.toList) := by
  unfold parse tokensOf scan
  rcases lexemes source.toList with ⟨ls, _ | cause⟩
  · dsimp only
    rw [map_token_locate, outcome]
    cases (File.read (ls.filterMap Lexeme.token)).eval <;> rfl
  · rfl

/-- A source with a fault among its characters is refused for it, whatever comes before. -/
theorem parse_of_scan {source : String} {cause : Cause}
    (h : (scan source.toList).2 = some cause) : ∃ e, parse source = .error e ∧ e.cause = cause := by
  have all := mapError_parse source
  rw [show scan source.toList = (_, some cause) from Prod.ext rfl h, outcome] at all
  cases refused : parse source with
  | ok b =>
    rw [refused] at all
    cases all
  | error e =>
    rw [refused] at all
    exact ⟨e, rfl, Except.error.inj all⟩

/-- A source that is accepted is cut without a fault. -/
theorem exists_scan_of_parse {source : String} {b : Bindings} (h : parse source = .ok b) :
    ∃ ts, scan source.toList = (ts, none) := by
  rcases hscan : scan source.toList with ⟨ts, _ | cause⟩
  · exact ⟨ts, rfl⟩
  · obtain ⟨e, refused, -⟩ := parse_of_scan (congrArg Prod.snd hscan)
    cases h.symm.trans refused

/-- The tokens of one binding bind its name, and nothing else. -/
theorem eval_binding (name : String) {v : Value} {ts : List Token} (h : Denotes v ts) :
    (File.read (.name name :: .mark .equals :: ts)).eval = .ok (OrderedMap.insert ∅ name v) := by
  obtain ⟨p, hp, hv⟩ := h
  have file : IsFile (.name name :: .mark .equals :: ts) [(name, p)] := by
    simpa using IsFile.cons name hp.isExpr .nil
  exact File.eval_read_eq_ok_iff.2
    ⟨_, _, file, .cons (hv _) .nil, sameScope_empty.insert name v⟩

/-- What stands behind a written value in a binding: nothing, or the end of the line. -/
def EndsBinding (tail : List Char) : Prop :=
  Border tail ∧ scan tail = ([], none)

/-- The value may be the last thing in a source. -/
theorem EndsBinding.nil : EndsBinding [] :=
  ⟨Border.nil, scan_nil⟩

/-- A newline may follow it. -/
theorem EndsBinding.newline : EndsBinding ['\n'] :=
  ⟨.cons (by decide) _, by rw [scan_newline, scan_nil]⟩

section

variable {name : String} {v : Value} {text tail : List Char} {source : String}

/-- A binding starts with the tokens of its name and of `=`. -/
theorem scan_binding (hname : IsName name)
    (hsource : source.toList = name.toList ++ ' ' :: '=' :: ' ' :: (text ++ tail)) :
    scan source.toList = behind [.name name, .mark .equals] (scan (text ++ tail)) := by
  rw [hsource, scan_name hname (.cons (by decide) _), scan_space]
  show behind _ (scan (Mark.equals.toChar :: _)) = _
  rw [scan_mark, scan_space, behind_behind]
  rfl

/-- Parsing a binding of a written value gives the binding. -/
theorem parse_binding (hname : IsName name) (h : Writes false (Denotes v) text)
    (ends : EndsBinding tail)
    (hsource : source.toList = name.toList ++ ' ' :: '=' :: ' ' :: (text ++ tail)) :
    parse source = .ok (OrderedMap.insert ∅ name v) := by
  obtain ⟨ts, denotes, hts⟩ := h tail ends.1
  -- The source is the tokens of the name, of `=` and of the value, and nothing else.
  have all := scan_binding hname hsource
  rw [hts, ends.2, behind_behind] at all
  obtain ⟨located, hlocated, htokens⟩ := tokensOf_of_scan all
  refine parse_eq_ok_iff.2 ⟨located, hlocated, ?_⟩
  rw [htokens, List.append_nil]
  exact eval_binding name denotes

/-- Parsing a binding of a value with the least integer fails at the digits of that integer. -/
theorem parse_binding_least (hname : IsName name) (h : Writes true (Denotes v) text)
    (ends : EndsBinding tail)
    (hsource : source.toList = name.toList ++ ' ' :: '=' :: ' ' :: (text ++ tail)) :
    ∃ e, parse source = .error e ∧ e.cause = .integerOutOfRange := by
  refine parse_of_scan ?_
  rw [scan_binding hname hsource]
  exact h tail ends.1

end

/-- Parsing undoes writing, in both layouts: what binds a name to a written value is read as this
one binding. A value with the least integer in it is refused, for a literal out of range. The keys
of every dict ascend, as in all values that are ever held. -/
theorem parse_written {name : String} (hname : IsName name) {v : Value}
    (canonical : v.Canonical) :
    (v.hasLeast = false →
      parse (renderAssignment name v) = .ok (OrderedMap.insert ∅ name v) ∧
        parse (name ++ " = " ++ v.renderInline) = .ok (OrderedMap.insert ∅ name v)) ∧
    (v.hasLeast = true →
      ∀ source ∈ [renderAssignment name v, name ++ " = " ++ v.renderInline],
        ∃ e, parse source = .error e ∧ e.cause = .integerOutOfRange ∧
          e.cause.message = "integer literal out of range") := by
  have lines := v.writes_layout 0 canonical
  have inline := v.writes_inline canonical
  have hlines : (renderAssignment name v).toList =
      name.toList ++ ' ' :: '=' :: ' ' :: (v.layout 0 ++ ['\n']) := by
    simp [renderAssignment]
  have hinline : (name ++ " = " ++ v.renderInline).toList =
      name.toList ++ ' ' :: '=' :: ' ' :: (v.inline ++ []) := by
    simp [Value.renderInline]
  constructor
  · intro least
    rw [least] at lines inline
    exact ⟨parse_binding hname lines .newline hlines, parse_binding hname inline .nil hinline⟩
  · intro least source hsource
    rw [least] at lines inline
    have refused : ∃ e, parse source = .error e ∧ e.cause = .integerOutOfRange := by
      simp only [List.mem_cons, List.not_mem_nil, or_false] at hsource
      rcases hsource with rfl | rfl
      · exact parse_binding_least hname lines .newline hlines
      · exact parse_binding_least hname inline .nil hinline
    obtain ⟨e, he, hcause⟩ := refused
    exact ⟨e, he, hcause, by rw [hcause]; rfl⟩

/-- Escapes, letters beyond ASCII, empty containers and negative integers are read back; next to
the least integer the same text is refused. -/
theorem parse_written_nested :
    IsName "ключ_1" ∧
    (∃ v, v = Value.dict [("'\n", .list [.int (-9223372036854775807), .dict [], .none]),
        ("é\\", .str "\t")] ∧
      v.Canonical ∧ v.hasLeast = false ∧
      parse (renderAssignment "ключ_1" v) = .ok (OrderedMap.insert ∅ "ключ_1" v)) ∧
    ∃ v e, v = Value.dict [("'\n", .list [.int Int64.minValue]), ("é\\", .str "\t")] ∧
      v.Canonical ∧ v.hasLeast = true ∧
      parse ("ключ_1" ++ " = " ++ v.renderInline) = .error e ∧ e.cause = .integerOutOfRange := by
  have hname : IsName "ключ_1" :=
    ⟨'к', _, rfl, by decide +kernel, List.all_eq_true.1 (by decide +kernel)⟩
  have ascending : compare "'\n" "é\\" = .lt := by decide +kernel
  have canonical : ∀ items, Value.CanonicalItems items →
      (Value.dict [("'\n", .list items), ("é\\", .str "\t")]).Canonical := by
    intro items hitems
    simp [Value.Canonical, Value.CanonicalEntries, Entries.Ascending, ascending, hitems]
  refine ⟨hname, ?_, ?_⟩
  · have hcanonical := canonical [.int (-9223372036854775807), .dict [], .none]
      ⟨trivial, ⟨List.Pairwise.nil, trivial⟩, trivial, trivial⟩
    exact ⟨_, rfl, hcanonical, by decide, ((parse_written hname hcanonical).1 (by decide)).1⟩
  · have hcanonical := canonical [.int Int64.minValue] ⟨trivial, trivial⟩
    obtain ⟨e, he, hcause, -⟩ := (parse_written hname hcanonical).2 (by decide) _
      (List.mem_cons_of_mem _ List.mem_cons_self)
    exact ⟨_, e, rfl, hcanonical, by decide, he, hcause⟩

end OverlaySync.Deps
