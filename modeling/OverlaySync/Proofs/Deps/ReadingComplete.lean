import OverlaySync.Deps.File
import OverlaySync.Proofs.Deps.Grammar

/-! # Every derivation is read

Tokens that derive a phrase are read as an expression with that phrase, to their end and no further,
in front of any tokens that cannot continue them: behind a text no other text may follow, behind a
term no `%`, and behind an expression no `+`. The proof follows the derivation, rule by rule. -/

namespace OverlaySync.Deps

namespace Reading

variable {n m : Nat} {α β : Type}

/-- The reading was completed with a value, up to `rest`. -/
def Completes (r : Reading n α) (a : α) (rest : List Token) : Prop :=
  ∃ shorter, r = .complete a rest shorter

variable {r : Reading n α} {a : α} {b : β} {rest rest' : List Token}

/-- A looser bound on the rest leaves a reading complete. -/
theorem Completes.weaken (h : r.Completes a rest) (le : n ≤ m) :
    (r.weaken le).Completes a rest := by
  obtain ⟨shorter, rfl⟩ := h
  exact ⟨_, rfl⟩

/-- What is made of its value leaves a reading complete. -/
theorem Completes.map (h : r.Completes a rest) (f : α → β) : (r.map f).Completes (f a) rest := by
  obtain ⟨shorter, rfl⟩ := h
  exact ⟨_, rfl⟩

/-- A second reading that is completed from the rest completes both. -/
theorem Completes.andThen {wrap : α → β}
    {next : (a : α) → (rest : List Token) → rest.length < n → Reading m β}
    (h : r.Completes a rest) (later : ∀ shorter, (next a rest shorter).Completes b rest') :
    (r.andThen wrap next).Completes b rest' := by
  obtain ⟨shorter, rfl⟩ := h
  exact later shorter

end Reading

/-! ## Where something ends -/

/-- No text stands at the head of the tokens. -/
structure EndsText (rest : List Token) : Prop where
  /-- No text would be adjacent. -/
  no_string : ∀ s us, rest ≠ .string s :: us

/-- Nothing at the head of the tokens continues a term. -/
structure EndsTerm (rest : List Token) : Prop extends EndsText rest where
  /-- Nothing would be formatted. -/
  no_percent : ∀ us, rest ≠ .mark .percent :: us

/-- Nothing at the head of the tokens continues an expression. -/
structure EndsExpr (rest : List Token) : Prop extends EndsTerm rest where
  /-- Nothing would be added. -/
  no_plus : ∀ us, rest ≠ .mark .plus :: us

/-- The end of the tokens ends an expression. -/
theorem EndsExpr.nil : EndsExpr [] :=
  { no_string := nofun, no_percent := nofun, no_plus := nofun }

/-- Marks other than operators end an expression. -/
theorem EndsExpr.mark {m : Mark} (rest : List Token) (plus : m ≠ .plus) (percent : m ≠ .percent) :
    EndsExpr (.mark m :: rest) where
  no_string := nofun
  no_percent := by
    rintro us ⟨⟩
    exact percent rfl
  no_plus := by
    rintro us ⟨⟩
    exact plus rfl

/-- The name of the next binding ends an expression. -/
theorem EndsExpr.name (x : String) (rest : List Token) : EndsExpr (.name x :: rest) :=
  { no_string := nofun, no_percent := nofun, no_plus := nofun }

/-- Marks other than a percent sign end a term. -/
theorem EndsTerm.mark {m : Mark} (rest : List Token) (percent : m ≠ .percent) :
    EndsTerm (.mark m :: rest) where
  no_string := nofun
  no_percent := by
    rintro us ⟨⟩
    exact percent rfl

/-- Every mark ends a text. -/
theorem EndsText.mark (m : Mark) (rest : List Token) : EndsText (.mark m :: rest) :=
  ⟨nofun⟩

/-- What is added to a term ends it. -/
theorem IsAddends.endsTerm {l p : Phrase} {ts rest : List Token} (h : IsAddends l ts p)
    (ends : EndsExpr rest) : EndsTerm (ts ++ rest) := by
  cases h with
  | nil => exact ends.toEndsTerm
  | cons head tail => exact .mark _ (by decide)

/-- What a unary expression is formatted with ends it. -/
theorem IsFormats.endsText {l p : Phrase} {ts rest : List Token} (h : IsFormats l ts p)
    (ends : EndsTerm rest) : EndsText (ts ++ rest) := by
  cases h with
  | nil => exact ends.toEndsText
  | tuple head tail => exact .mark _ _
  | unary head tail => exact .mark _ _

/-! ## Where something starts -/

/-- The marks that an expression can start with. -/
def Mark.opensExpr : Mark → Bool
  | minus | openBracket | openParen | openBrace => true
  | _ => false

/-- The marks behind the last item of a list or a tuple. -/
def Mark.closes : Mark → Bool
  | closeBracket | closeParen => true
  | _ => false

/-- A mark that closes opens nothing. -/
theorem Mark.not_opensExpr_of_closes {m : Mark} (h : m.closes = true) : m.opensExpr = false := by
  cases m <;> simp_all [closes, opensExpr]

/-- A comma closes nothing. -/
theorem Mark.ne_comma_of_closes {m : Mark} (h : m.closes = true) : m ≠ .comma := by
  rintro rfl
  cases h

/-- The tokens start as an expression can: with something other than a mark, or with one of the
opening marks. -/
def StartsExpr (ts : List Token) : Prop :=
  ∃ t us, ts = t :: us ∧ ∀ m, t = .mark m → m.opensExpr = true

/-- What stands behind makes no difference to a start. -/
theorem StartsExpr.append {ts : List Token} (h : StartsExpr ts) (us : List Token) :
    StartsExpr (ts ++ us) := by
  obtain ⟨t, vs, rfl, ht⟩ := h
  exact ⟨t, vs ++ us, rfl, ht⟩

/-- A tuple starts with its parenthesis. -/
theorem IsTuple.startsExpr {ts : List Token} {p : Phrase} (h : IsTuple ts p) : StartsExpr ts := by
  cases h with
  | empty => exact ⟨_, _, rfl, by rintro m ⟨⟩; rfl⟩
  | items head tail => exact ⟨_, _, rfl, by rintro m ⟨⟩; rfl⟩

/-- An operand starts with an opening mark, or is no mark. -/
theorem IsPrimary.startsExpr {ts : List Token} {p : Phrase} (h : IsPrimary ts p) :
    StartsExpr ts := by
  cases h with
  | tuple inner => exact inner.startsExpr
  | _ => exact ⟨_, _, rfl, by rintro m ⟨⟩ <;> rfl⟩

/-- A unary expression starts with a minus sign, or as its operand does. -/
theorem IsUnary.startsExpr {ts : List Token} {p : Phrase} (h : IsUnary ts p) : StartsExpr ts := by
  cases h with
  | negation operand => exact ⟨_, _, rfl, by rintro m ⟨⟩; rfl⟩
  | primary operand => exact operand.startsExpr

/-- A term starts as what is formatted does. -/
theorem IsTerm.startsExpr {ts : List Token} {p : Phrase} (h : IsTerm ts p) : StartsExpr ts := by
  cases h with
  | intro head tail => exact head.startsExpr.append _

/-- An expression starts as its first term does. -/
theorem IsExpr.startsExpr {ts : List Token} {p : Phrase} (h : IsExpr ts p) : StartsExpr ts := by
  cases h with
  | intro head tail => exact head.startsExpr.append _

/-! ## Tokens that are looked for -/

/-- A mark is found at the head, and the rest is behind it. -/
@[simp] theorem behind?_mark_self (m : Mark) (rest : List Token) :
    behind? m (.mark m :: rest) = some ⟨rest, Nat.lt_succ_self _⟩ := by
  simp [behind?]

/-- A mark that is not at the head is not found. -/
theorem behind?_eq_none {m : Mark} {ts : List Token} (h : ∀ us, ts ≠ .mark m :: us) :
    behind? m ts = none := by
  unfold behind?
  split
  · next m' rest =>
    have hm : m' ≠ m := by
      rintro rfl
      exact h rest rfl
    rw [if_neg hm]
  · rfl

/-- A mark is not found where another one is at the head. -/
theorem behind?_mark_of_ne {m m' : Mark} (h : m' ≠ m) {rest : List Token} :
    behind? m (.mark m' :: rest) = none :=
  behind?_eq_none (by rintro us ⟨⟩; exact h rfl)

/-- An expression does not start with a mark that only closes or separates. -/
theorem StartsExpr.behind?_eq_none {m : Mark} {ts : List Token} (h : StartsExpr ts)
    (hm : m.opensExpr = false) : behind? m ts = none := by
  obtain ⟨t, us, rfl, ht⟩ := h
  refine Deps.behind?_eq_none ?_
  rintro vs ⟨⟩
  exact absurd (ht m rfl) (by simp [hm])

/-- Adjacent texts are read together if no other text follows. -/
theorem adjacentStrings_append (ss : List String) {rest : List Token} (ends : EndsText rest) :
    adjacentStrings (ss.map .string ++ rest) = (String.join ss, rest) := by
  induction ss with
  | nil =>
    cases rest with
    | nil => rfl
    | cons t us =>
      cases t with
      | string s => exact absurd rfl (ends.no_string s us)
      | _ => rfl
  | cons s ss ih => simp [adjacentStrings, ih]

/-! ## The readers -/

namespace Expr

/-- Without a minus sign at the head, a unary expression is an operand. -/
theorem readUnary_of_startsPrimary {ts : List Token} (h : ∀ us, ts ≠ .mark .minus :: us) :
    readUnary ts = (readOperand ts) := by
  rw [readUnary, behind?_eq_none h]

/-- Behind a bracket, the items of a list are read. -/
theorem readUnary_of_openBracket {ts rest : List Token} {es : List Expr}
    (h : (readItems .closeBracket .commaOrBracket ts).Completes es rest) :
    (readUnary (.mark .openBracket :: ts)).Completes (.list es) rest := by
  rw [readUnary_of_startsPrimary (by rintro us ⟨⟩), readOperand]
  exact (h.weaken _).map _

/-- Behind a brace, the entries of a dict are read. -/
theorem readUnary_of_openBrace {ts rest : List Token} {es : List (Nat × Expr × Expr)}
    (h : (readEntries ts).Completes es rest) :
    (readUnary (.mark .openBrace :: ts)).Completes (.dict es) rest := by
  rw [readUnary_of_startsPrimary (by rintro us ⟨⟩), readOperand]
  exact (h.weaken _).map _

/-- Behind a parenthesis, a group or a tuple is read. -/
theorem readUnary_of_openParen {ts rest : List Token} {e : Expr}
    (h : (readParenthesized ts).Completes e rest) :
    (readUnary (.mark .openParen :: ts)).Completes e rest := by
  rw [readUnary_of_startsPrimary (by rintro us ⟨⟩), readOperand]
  exact h.weaken _

/-- Behind a `+`, a term and what is added to the sum are read. -/
theorem readAddends_of_plus {left right e : Expr} {ts rest rest' : List Token}
    (hright : (readFormatted ts).Completes right rest)
    (hsum : (readAddends (.sum (Token.mark .plus :: ts).length left right) rest).Completes
      e rest') :
    (readAddends left (.mark .plus :: ts)).Completes e rest' := by
  rw [readAddends, behind?_mark_self]
  exact hright.andThen fun _ => hsum.weaken _

/-- Behind a `%`, an operand and what the format is formatted with are read. -/
theorem readFormats_of_percent {left right e : Expr} {ts rest rest' : List Token}
    (hright : (readUnary ts).Completes right rest)
    (hformat : (readFormats (.format (Token.mark .percent :: ts).length left right) rest).Completes
      e rest') :
    (readFormats left (.mark .percent :: ts)).Completes e rest' := by
  rw [readFormats, behind?_mark_self]
  exact hright.andThen fun _ => hformat.weaken _

end Expr

open OverlaySync.Deps.Expr

mutual

/-- A derived expression is read to its end. -/
theorem IsExpr.read_complete {ts : List Token} {p : Phrase} (h : IsExpr ts p) {rest : List Token}
    (ends : EndsExpr rest) : ∃ e, e.phrase? = some p ∧ (read (ts ++ rest)).Completes e rest := by
  cases h with
  | @intro us vs l p head tail =>
    -- The term ends where the addends start, or where the expression ends.
    obtain ⟨left, hleft, hterm⟩ := head.read_complete (tail.endsTerm ends)
    obtain ⟨e, he, hadd⟩ := tail.read_complete left hleft ends
    refine ⟨e, he, ?_⟩
    rw [Expr.read, List.append_assoc]
    exact hterm.andThen fun _ => hadd.weaken _
  termination_by 8 * ts.length + 5

/-- Derived addends are read to their end. -/
theorem IsAddends.read_complete {ts : List Token} {l p : Phrase} (h : IsAddends l ts p) :
    ∀ (left : Expr), left.phrase? = some l → ∀ {rest : List Token}, EndsExpr rest →
    ∃ e, e.phrase? = some p ∧ (readAddends left (ts ++ rest)).Completes e rest := by
  cases h with
  | nil =>
    intro left hleft rest ends
    refine ⟨left, hleft, ?_⟩
    rw [List.nil_append, readAddends, behind?_eq_none ends.no_plus]
    exact ⟨_, rfl⟩
  | @cons us vs l r p head tail =>
    intro left hleft rest ends
    obtain ⟨right, hright, hterm⟩ := head.read_complete (tail.endsTerm ends)
    obtain ⟨e, he, hsum⟩ := tail.read_complete (.sum _ left right)
      (by simp [phrase?, hleft, hright]) ends
    refine ⟨e, he, ?_⟩
    rw [List.cons_append, List.append_assoc]
    exact readAddends_of_plus hterm hsum
  termination_by 8 * ts.length + 4

/-- A derived term is read to its end. -/
theorem IsTerm.read_complete {ts : List Token} {p : Phrase} (h : IsTerm ts p) {rest : List Token}
    (ends : EndsTerm rest) :
    ∃ e, e.phrase? = some p ∧ (readFormatted (ts ++ rest)).Completes e rest := by
  cases h with
  | @intro us vs l p head tail =>
    obtain ⟨left, hleft, hunary⟩ := head.read_complete (tail.endsText ends)
    obtain ⟨e, he, hformat⟩ := tail.read_complete left hleft ends
    refine ⟨e, he, ?_⟩
    rw [readFormatted, List.append_assoc]
    exact hunary.andThen fun _ => hformat.weaken _
  termination_by 8 * ts.length + 3

/-- Derived formats are read to their end. -/
theorem IsFormats.read_complete {ts : List Token} {l p : Phrase} (h : IsFormats l ts p) :
    ∀ (left : Expr), left.phrase? = some l → ∀ {rest : List Token}, EndsTerm rest →
    ∃ e, e.phrase? = some p ∧ (readFormats left (ts ++ rest)).Completes e rest := by
  cases h with
  | nil =>
    intro left hleft rest ends
    refine ⟨left, hleft, ?_⟩
    rw [List.nil_append, readFormats, behind?_eq_none ends.no_percent]
    exact ⟨_, rfl⟩
  | @tuple us vs l r p head tail =>
    intro left hleft rest ends
    -- A tuple ends with its parenthesis, so anything may follow it.
    obtain ⟨right, hright, htuple⟩ := head.read_complete (vs ++ rest)
    obtain ⟨e, he, hformat⟩ := tail.read_complete (.format _ left right)
      (by simp [phrase?, hleft, hright]) ends
    refine ⟨e, he, ?_⟩
    rw [List.cons_append, List.append_assoc]
    exact readFormats_of_percent htuple hformat
  | @unary us vs l r p head tail =>
    intro left hleft rest ends
    obtain ⟨right, hright, hunary⟩ := head.read_complete (tail.endsText ends)
    obtain ⟨e, he, hformat⟩ := tail.read_complete (.format _ left right)
      (by simp [phrase?, hleft, hright]) ends
    refine ⟨e, he, ?_⟩
    rw [List.cons_append, List.append_assoc]
    exact readFormats_of_percent hunary hformat
  termination_by 8 * ts.length + 2

/-- A derived unary expression is read to its end. -/
theorem IsUnary.read_complete {ts : List Token} {p : Phrase} (h : IsUnary ts p) {rest : List Token}
    (ends : EndsText rest) :
    ∃ e, e.phrase? = some p ∧ (readUnary (ts ++ rest)).Completes e rest := by
  cases h with
  | @negation us p operand =>
    obtain ⟨e, he, hunary⟩ := operand.read_complete ends
    refine ⟨.negation (.mark .minus :: (us ++ rest)).length e, by simp [phrase?, he], ?_⟩
    rw [List.cons_append, readUnary, behind?_mark_self]
    exact (hunary.weaken _).map _
  | primary operand =>
    exact operand.read_complete ends
  termination_by 8 * ts.length + 2

/-- A derived primary is read to its end. -/
theorem IsPrimary.read_complete {ts : List Token} {p : Phrase} (h : IsPrimary ts p)
    {rest : List Token} (ends : EndsText rest) :
    ∃ e, e.phrase? = some p ∧ (readUnary (ts ++ rest)).Completes e rest := by
  cases h with
  | text s ss =>
    refine ⟨.string (s ++ String.join ss), by rw [phrase?, String.join_cons], ?_⟩
    rw [readUnary_of_startsPrimary (by rintro us ⟨⟩), List.cons_append, readOperand]
    simp only [adjacentStrings_append ss ends]
    exact ⟨_, rfl⟩
  | integer n =>
    refine ⟨.integer n, rfl, ?_⟩
    rw [readUnary_of_startsPrimary (by rintro us ⟨⟩), List.singleton_append, readOperand]
    exact ⟨_, rfl⟩
  | name x =>
    refine ⟨.name (rest.length + 1) x, rfl, ?_⟩
    rw [readUnary_of_startsPrimary (by rintro us ⟨⟩), List.singleton_append, readOperand]
    exact ⟨_, rfl⟩
  | @list us ps items =>
    have closes : Mark.closeBracket.closes = true := rfl
    obtain ⟨es, hes, hitems⟩ := items.read_complete closes .commaOrBracket rest
    refine ⟨.list es, by simp [phrase?, hes], ?_⟩
    rw [List.cons_append, List.append_assoc, List.singleton_append]
    exact readUnary_of_openBracket hitems
  | @dict us es entries =>
    obtain ⟨es, hes, hentries⟩ := entries.read_complete rest
    refine ⟨.dict es, by simp [phrase?, hes], ?_⟩
    rw [List.cons_append, List.append_assoc, List.singleton_append]
    exact readUnary_of_openBrace hentries
  | @group us p inner =>
    obtain ⟨e, he, hread⟩ := inner.read_complete (EndsExpr.mark (m := .closeParen) rest
      (by decide) (by decide))
    refine ⟨.group e, by simp [phrase?, he], ?_⟩
    rw [List.cons_append, List.append_assoc, List.singleton_append]
    refine readUnary_of_openParen ?_
    -- No tuple is closed at once, and behind the expression there is no comma.
    rw [readParenthesized, (inner.startsExpr.append _).behind?_eq_none rfl]
    refine hread.andThen fun _ => ?_
    simp only [behind?_mark_self]
    exact ⟨_, rfl⟩
  | tuple inner => exact inner.read_complete rest
  termination_by 8 * ts.length + 1

/-- A derived tuple is read to its end. -/
theorem IsTuple.read_complete {ts : List Token} {p : Phrase} (h : IsTuple ts p)
    (rest : List Token) : ∃ e, e.phrase? = some p ∧ (readUnary (ts ++ rest)).Completes e rest := by
  cases h with
  | empty =>
    refine ⟨.tuple [], rfl, ?_⟩
    rw [List.cons_append, List.singleton_append]
    refine readUnary_of_openParen ?_
    rw [readParenthesized, behind?_mark_self]
    exact ⟨_, rfl⟩
  | @items us vs p ps head tail =>
    obtain ⟨e, he, hread⟩ := head.read_complete (EndsExpr.mark (m := .comma)
      (vs ++ .mark .closeParen :: rest) (by decide) (by decide))
    have closes : Mark.closeParen.closes = true := rfl
    obtain ⟨es, hes, hitems⟩ := tail.read_complete closes .commaOrParen rest
    refine ⟨.tuple (e :: es), by simp [phrase?, phraseItems?, he, hes], ?_⟩
    rw [List.cons_append, List.append_assoc, List.cons_append, List.append_assoc,
      List.singleton_append]
    refine readUnary_of_openParen ?_
    -- The comma tells the tuple from a group.
    rw [readParenthesized, (head.startsExpr.append _).behind?_eq_none rfl]
    refine hread.andThen fun _ => ?_
    simp only [behind?_mark_self, behind?_mark_of_ne (show Mark.comma ≠ .closeParen by decide)]
    exact (hitems.weaken _).map _
  termination_by 8 * ts.length + 0

/-- Derived items are read to the mark that closes them. -/
theorem IsItems.read_complete {ts : List Token} {ps : List Phrase} (h : IsItems ts ps)
    {close : Mark} (closes : close.closes = true) (what : Expectation) (rest : List Token) :
    ∃ es, phraseItems? es = some ps ∧
      (readItems close what (ts ++ .mark close :: rest)).Completes es rest := by
  cases h with
  | nil =>
    refine ⟨[], rfl, ?_⟩
    rw [List.nil_append, readItems, behind?_mark_self]
    exact ⟨_, rfl⟩
  | @last us p item =>
    -- Without a comma behind it, this item is the last one.
    obtain ⟨e, he, hread⟩ := item.read_complete (EndsExpr.mark (m := close) rest
      (by rintro rfl; cases closes) (by rintro rfl; cases closes))
    refine ⟨[e], by simp [phraseItems?, he], ?_⟩
    rw [readItems, (item.startsExpr.append _).behind?_eq_none (Mark.not_opensExpr_of_closes closes)]
    refine hread.andThen fun _ => ?_
    simp only [behind?_mark_self, behind?_mark_of_ne (Mark.ne_comma_of_closes closes)]
    exact ⟨_, rfl⟩
  | @cons us vs p ps head tail =>
    obtain ⟨e, he, hread⟩ := head.read_complete (EndsExpr.mark (m := .comma)
      (vs ++ .mark close :: rest) (by decide) (by decide))
    obtain ⟨es, hes, hitems⟩ := tail.read_complete closes what rest
    refine ⟨e :: es, by simp [phraseItems?, he, hes], ?_⟩
    rw [List.append_assoc, List.cons_append, readItems,
      (head.startsExpr.append _).behind?_eq_none (Mark.not_opensExpr_of_closes closes)]
    refine hread.andThen fun _ => ?_
    simp only [behind?_mark_self]
    exact (hitems.weaken _).map _
  termination_by 8 * ts.length + 6

/-- Derived entries are read to the brace that closes them. -/
theorem IsEntries.read_complete {ts : List Token} {ps : List (Phrase × Phrase)}
    (h : IsEntries ts ps) (rest : List Token) :
    ∃ es, phraseEntries? es = some ps ∧
      (readEntries (ts ++ .mark .closeBrace :: rest)).Completes es rest := by
  cases h with
  | nil =>
    refine ⟨[], rfl, ?_⟩
    rw [List.nil_append, readEntries, behind?_mark_self]
    exact ⟨_, rfl⟩
  | @last us vs q p key value =>
    obtain ⟨k, hk, hkey⟩ := key.read_complete (EndsExpr.mark (m := .colon)
      (vs ++ .mark .closeBrace :: rest) (by decide) (by decide))
    obtain ⟨e, he, hvalue⟩ := value.read_complete (EndsExpr.mark (m := .closeBrace) rest
      (by decide) (by decide))
    refine ⟨[((us ++ .mark .colon :: (vs ++ .mark .closeBrace :: rest)).length, k, e)],
      by simp [phraseEntries?, hk, he], ?_⟩
    rw [List.append_assoc, List.cons_append, readEntries,
      (key.startsExpr.append _).behind?_eq_none rfl]
    refine hkey.andThen fun _ => ?_
    simp only [behind?_mark_self]
    refine hvalue.andThen fun _ => ?_
    simp only [behind?_mark_self, behind?_mark_of_ne (show Mark.closeBrace ≠ .comma by decide)]
    exact ⟨_, rfl⟩
  | @cons us vs ws q p es key value tail =>
    obtain ⟨k, hk, hkey⟩ := key.read_complete (EndsExpr.mark (m := .colon)
      (vs ++ .mark .comma :: (ws ++ .mark .closeBrace :: rest)) (by decide) (by decide))
    obtain ⟨e, he, hvalue⟩ := value.read_complete (EndsExpr.mark (m := .comma)
      (ws ++ .mark .closeBrace :: rest) (by decide) (by decide))
    obtain ⟨es, hes, hentries⟩ := tail.read_complete rest
    -- The place of an entry is the number of tokens from its key on.
    refine ⟨((us ++ .mark .colon :: (vs ++ .mark .comma ::
      (ws ++ .mark .closeBrace :: rest))).length, k, e) :: es,
      by simp [phraseEntries?, hk, he, hes], ?_⟩
    rw [List.append_assoc, List.cons_append, List.append_assoc, List.cons_append, readEntries,
      (key.startsExpr.append _).behind?_eq_none rfl]
    refine hkey.andThen fun _ => ?_
    simp only [behind?_mark_self]
    refine hvalue.andThen fun _ => ?_
    simp only [behind?_mark_self]
    exact (hentries.weaken _).map _
  termination_by 8 * ts.length + 6

end

end OverlaySync.Deps
