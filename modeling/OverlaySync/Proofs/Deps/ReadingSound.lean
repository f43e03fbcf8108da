import OverlaySync.Deps.File
import OverlaySync.Proofs.Deps.Grammar

/-! # What is read is a derivation

Every reader stops in front of what it leaves, and what it has read until then derives, by the
grammar, the phrase of the expression that it returns. If it breaks off instead, the expression that
it returns has no phrase, so such an expression never passes for a complete one.

The proof follows the readers: one lemma for each of them, by the same well-founded recursion on the
number of tokens and the rank of the reader. -/

namespace OverlaySync.Deps

namespace Reading

variable {n m : Nat} {α β : Type}

/-- What an outcome ensures: `P` of the value and the rest if the reading was completed, and `Q` of
the value if it broke off. -/
def Ensures (r : Reading n α) (P : α → List Token → Prop) (Q : α → Prop) : Prop :=
  match r with
  | complete a rest _ => P a rest
  | broken a => Q a

variable {P P' : α → List Token → Prop} {Q Q' : α → Prop}

/-- An outcome ensures all that follows from what it ensures. -/
theorem Ensures.imp {r : Reading n α} (h : r.Ensures P Q) (hP : ∀ a rest, P a rest → P' a rest)
    (hQ : ∀ a, Q a → Q' a) : r.Ensures P' Q' := by
  cases r with
  | complete a rest shorter => exact hP a rest h
  | broken a => exact hQ a h

/-- A looser bound on the rest does not change what is ensured. -/
theorem Ensures.weaken {r : Reading n α} (h : r.Ensures P Q) (le : n ≤ m) :
    (r.weaken le).Ensures P Q := by
  cases r with
  | complete a rest shorter => exact h
  | broken a => exact h

/-- What is made of the value has what follows for it. -/
theorem Ensures.map {r : Reading n α} {f : α → β} {R : β → List Token → Prop} {S : β → Prop}
    (h : r.Ensures P Q) (hP : ∀ a rest, P a rest → R (f a) rest) (hQ : ∀ a, Q a → S (f a)) :
    (r.map f).Ensures R S := by
  cases r with
  | complete a rest shorter => exact hP a rest h
  | broken a => exact hQ a h

/-- Two readings in a row: the second one starts from what the first one ensures, and a value that
broke off is wrapped. -/
theorem Ensures.andThen {r : Reading n α} {wrap : α → β}
    {next : (a : α) → (rest : List Token) → rest.length < n → Reading m β}
    {R : β → List Token → Prop} {S : β → Prop} (h : r.Ensures P Q)
    (hP : ∀ a rest shorter, P a rest → (next a rest shorter).Ensures R S)
    (hQ : ∀ a, Q a → S (wrap a)) : (r.andThen wrap next).Ensures R S := by
  cases r with
  | complete a rest shorter => exact hP a rest shorter h
  | broken a => exact hQ a h

end Reading

/-! ## Tokens that are looked for -/

/-- The tokens behind a mark are those that follow it. -/
theorem eq_cons_of_behind? {m : Mark} {ts rest : List Token} {shorter : rest.length < ts.length}
    (h : behind? m ts = some ⟨rest, shorter⟩) : ts = .mark m :: rest := by
  unfold behind? at h
  split at h
  · split at h
    · next hm =>
      cases h
      rw [hm]
    · cases h
  · cases h

/-- Adjacent texts are read up to the first token that is none. -/
theorem eq_append_adjacentStrings (ts : List Token) :
    ∃ ss : List String, ts = ss.map .string ++ (adjacentStrings ts).2 ∧
      (adjacentStrings ts).1 = String.join ss := by
  fun_induction adjacentStrings ts with
  | case1 s ts more ih =>
    obtain ⟨ss, hts, hjoin⟩ := ih
    refine ⟨s :: ss, ?_, ?_⟩
    · rw [List.map_cons, List.cons_append, ← hts]
    · rw [String.join_cons, ← hjoin]
  | case2 ts => exact ⟨[], rfl, rfl⟩

/-! ## The readers -/

namespace Expr

/-- The expression `e` was read from the head of `ts`, as something of the form `G`, up to
`rest`. -/
def ReadAs (G : List Token → Phrase → Prop) (ts : List Token) (e : Expr) (rest : List Token) :
    Prop :=
  ∃ us p, ts = us ++ rest ∧ e.phrase? = some p ∧ G us p

mutual

/-- An expression is derived from the tokens that it takes. -/
theorem read_sound (ts : List Token) :
    (read ts).Ensures (ReadAs IsExpr ts) (·.phrase? = none) := by
  rw [read]
  -- A term first, and then what is added to it; a broken term breaks the expression off.
  refine (readFormatted_sound ts).andThen ?_ fun e he => he
  rintro e rest shorter ⟨us, l, hts, hl, term⟩
  refine ((readAddends_sound e rest l hl).weaken _).imp ?_ fun e he => he
  rintro e' rest' ⟨vs, p, hrest, hp, tail⟩
  exact ⟨us ++ vs, p, by rw [hts, hrest, List.append_assoc], hp, .intro term tail⟩
  termination_by (ts.length, 5)

/-- What is added to a term makes it the left operand of all sums. -/
theorem readAddends_sound (left : Expr) (ts : List Token) (l : Phrase)
    (hl : left.phrase? = some l) :
    (readAddends left ts).Ensures (ReadAs (IsAddends l) ts) (·.phrase? = none) := by
  rw [readAddends]
  split
  · exact ⟨[], l, rfl, hl, .nil⟩
  · next operand h hb =>
    have hts := eq_cons_of_behind? hb
    refine (readFormatted_sound operand).andThen ?_ fun e he => by simp [phrase?, he]
    rintro e rest shorter ⟨us, r, hop, hr, term⟩
    -- The sum so far is the left operand of the addends that follow.
    have hsum : (Expr.sum ts.length left e).phrase? = some (.sum l r) := by simp [phrase?, hl, hr]
    refine ((readAddends_sound _ rest _ hsum).weaken _).imp ?_ fun e he => he
    rintro e' rest' ⟨vs, p, hrest, hp, tail⟩
    refine ⟨.mark .plus :: (us ++ vs), p, ?_, hp, .cons term tail⟩
    rw [hts, hop, hrest, List.cons_append, List.append_assoc]
  termination_by (ts.length, 4)

/-- A term is derived from the tokens that it takes. -/
theorem readFormatted_sound (ts : List Token) :
    (readFormatted ts).Ensures (ReadAs IsTerm ts) (·.phrase? = none) := by
  rw [readFormatted]
  refine (readUnary_sound ts).andThen ?_ fun e he => he
  rintro e rest shorter ⟨us, l, hts, hl, unary⟩
  refine ((readFormats_sound e rest l hl).weaken _).imp ?_ fun e he => he
  rintro e' rest' ⟨vs, p, hrest, hp, tail⟩
  exact ⟨us ++ vs, p, by rw [hts, hrest, List.append_assoc], hp, .intro unary tail⟩
  termination_by (ts.length, 3)

/-- What is formatted becomes the left operand of all formats. -/
theorem readFormats_sound (left : Expr) (ts : List Token) (l : Phrase)
    (hl : left.phrase? = some l) :
    (readFormats left ts).Ensures (ReadAs (IsFormats l) ts) (·.phrase? = none) := by
  rw [readFormats]
  split
  · exact ⟨[], l, rfl, hl, .nil⟩
  · next operand h hb =>
    have hts := eq_cons_of_behind? hb
    -- A tuple is read as any other operand: a primary derives it.
    refine (readUnary_sound operand).andThen ?_ fun e he => by simp [phrase?, he]
    rintro e rest shorter ⟨us, r, hop, hr, unary⟩
    have hformat : (Expr.format ts.length left e).phrase? = some (.format l r) := by
      simp [phrase?, hl, hr]
    refine ((readFormats_sound _ rest _ hformat).weaken _).imp ?_ fun e he => he
    rintro e' rest' ⟨vs, p, hrest, hp, tail⟩
    refine ⟨.mark .percent :: (us ++ vs), p, ?_, hp, .unary unary tail⟩
    rw [hts, hop, hrest, List.cons_append, List.append_assoc]
  termination_by (ts.length, 2)

/-- A negation takes the minus sign and its operand; all else is an operand. -/
theorem readUnary_sound (ts : List Token) :
    (readUnary ts).Ensures (ReadAs IsUnary ts) (·.phrase? = none) := by
  rw [readUnary]
  split
  · refine (readOperand_sound ts).imp ?_ fun e he => he
    rintro e rest ⟨us, p, hts, hp, primary⟩
    exact ⟨us, p, hts, hp, .primary primary⟩
  · next operand h hb =>
    have hts := eq_cons_of_behind? hb
    refine ((readUnary_sound operand).weaken _).map ?_ fun e he => by simp [phrase?, he]
    rintro e rest ⟨us, p, hop, hp, unary⟩
    refine ⟨.mark .minus :: us, .negation p, ?_, by simp [phrase?, hp], .negation unary⟩
    rw [hts, hop, List.cons_append]
  termination_by (ts.length, 1)

/-- An operand is derived from the tokens that it takes, whichever token it starts with. -/
theorem readOperand_sound (ts : List Token) :
    (readOperand ts).Ensures (ReadAs IsPrimary ts) (·.phrase? = none) := by
  unfold readOperand
  split
  · next s rest =>
    -- Texts: all adjacent ones belong to the operand.
    obtain ⟨ss, hrest, hjoin⟩ := eq_append_adjacentStrings rest
    refine ⟨.string s :: ss.map .string, .text (String.join (s :: ss)), ?_, ?_, .text s ss⟩
    · rw [List.cons_append, ← hrest]
    · rw [phrase?, hjoin, String.join_cons]
  · next n rest => exact ⟨[.integer n], .integer n, rfl, rfl, .integer n⟩
  · next x rest => exact ⟨[.name x], .name x, rfl, rfl, .name x⟩
  · next rest =>
    refine ((readItems_sound .closeBracket .commaOrBracket rest).weaken _).map ?_
      fun es hes => by simp [phrase?, hes]
    rintro es rest' ⟨us, ps, hrest, hps, items⟩
    refine ⟨_, .list ps, ?_, by simp [phrase?, hps], .list items⟩
    simp [hrest]
  · next rest =>
    -- Whether this is a group or a tuple is decided behind the parenthesis.
    refine ((readParenthesized_sound rest).weaken _).imp ?_ fun e he => he
    rintro e rest' ⟨us, p, hrest, hp, primary⟩
    exact ⟨_, p, by rw [hrest, List.cons_append], hp, primary⟩
  · next rest =>
    refine ((readEntries_sound rest).weaken _).map ?_ fun es hes => by simp [phrase?, hes]
    rintro es rest' ⟨us, ps, hrest, hps, entries⟩
    refine ⟨_, .dict ps, ?_, by simp [phrase?, hps], .dict entries⟩
    simp [hrest]
  · rfl
  termination_by (ts.length, 0)

/-- A group or a tuple, behind the opening parenthesis. -/
theorem readParenthesized_sound (ts : List Token) :
    (readParenthesized ts).Ensures (ReadAs (fun us p => IsPrimary (.mark .openParen :: us) p) ts)
      (·.phrase? = none) := by
  rw [readParenthesized]
  split
  · next rest h hb =>
    have hts := eq_cons_of_behind? hb
    exact ⟨[.mark .closeParen], .tuple [], hts, rfl, .tuple .empty⟩
  · refine (read_sound ts).andThen ?_ fun e he => by simp [phrase?, he]
    rintro e rest shorter ⟨us, p, hts, hp, inner⟩
    -- Behind the first expression: the end of a group, the comma of a tuple, or a fault.
    split
    · next rest' h' hb =>
      have hrest := eq_cons_of_behind? hb
      refine ⟨us ++ [.mark .closeParen], .group p, ?_, by simp [phrase?, hp], .group inner⟩
      rw [hts, hrest, List.append_assoc, List.singleton_append]
    · split
      · next rest' h' hb =>
        have hrest := eq_cons_of_behind? hb
        refine ((readItems_sound .closeParen .commaOrParen rest').weaken _).map ?_
          fun es hes => by simp [phrase?, phraseItems?, hes]
        rintro es rest'' ⟨vs, ps, hrest', hps, items⟩
        refine ⟨us ++ .mark .comma :: (vs ++ [.mark .closeParen]), .tuple (p :: ps), ?_,
          by simp [phrase?, phraseItems?, hp, hps], .tuple (.items inner items)⟩
        simp [hts, hrest, hrest']
      · simp [Reading.Ensures, phrase?, phraseItems?]
  termination_by (ts.length, 6)

/-- Items, and the mark that closes them. -/
theorem readItems_sound (close : Mark) (what : Expectation) (ts : List Token) :
    (readItems close what ts).Ensures
      (fun es rest => ∃ us ps, ts = us ++ .mark close :: rest ∧ phraseItems? es = some ps ∧
        IsItems us ps)
      (phraseItems? · = none) := by
  rw [readItems]
  split
  · next rest h hb => exact ⟨[], [], eq_cons_of_behind? hb, rfl, .nil⟩
  · refine (read_sound ts).andThen ?_ fun e he => by simp [phraseItems?, he]
    rintro e rest shorter ⟨us, p, hts, hp, item⟩
    split
    · next rest' h' hb =>
      have hrest := eq_cons_of_behind? hb
      refine ((readItems_sound close what rest').weaken _).map ?_
        fun es hes => by simp [phraseItems?, hes]
      rintro es rest'' ⟨vs, ps, hrest', hps, items⟩
      refine ⟨us ++ .mark .comma :: vs, p :: ps, ?_, by simp [phraseItems?, hp, hps],
        .cons item items⟩
      simp [hts, hrest, hrest']
    · split
      · next rest' h' hb =>
        have hrest := eq_cons_of_behind? hb
        exact ⟨us, [p], by rw [hts, hrest], by simp [phraseItems?, hp], .last item⟩
      · simp [Reading.Ensures, phraseItems?, phrase?]
  termination_by (ts.length, 6)

/-- Entries, and the brace that closes them. -/
theorem readEntries_sound (ts : List Token) :
    (readEntries ts).Ensures
      (fun es rest => ∃ us ps, ts = us ++ .mark .closeBrace :: rest ∧
        phraseEntries? es = some ps ∧ IsEntries us ps)
      (phraseEntries? · = none) := by
  rw [readEntries]
  split
  · next rest h hb => exact ⟨[], [], eq_cons_of_behind? hb, rfl, .nil⟩
  · -- A key, a colon and a value, and then the end or a comma; a fault leaves no phrase.
    refine (read_sound ts).andThen ?_ fun k hk => by simp [phraseEntries?, hk]
    rintro k rest shorter ⟨us, q, hts, hq, key⟩
    split
    · simp [Reading.Ensures, phraseEntries?, phrase?]
    · next rest₁ h₁ hb =>
      have hrest := eq_cons_of_behind? hb
      refine (read_sound rest₁).andThen ?_ fun e he => by simp [phraseEntries?, he]
      rintro e rest₂ shorter₂ ⟨vs, p, hrest₁, hp, value⟩
      split
      -- A comma behind the value, and the other entries behind that.
      · next rest₃ h₃ hb =>
        have hrest₂ := eq_cons_of_behind? hb
        refine ((readEntries_sound rest₃).weaken _).map ?_
          fun es hes => by simp [phraseEntries?, hes]
        rintro es rest₄ ⟨ws, ps, hrest₃, hps, entries⟩
        refine ⟨us ++ .mark .colon :: (vs ++ .mark .comma :: ws), (q, p) :: ps, ?_,
          by simp [phraseEntries?, hq, hp, hps], .cons key value entries⟩
        simp [hts, hrest, hrest₁, hrest₂, hrest₃]
      · split
        · next rest₃ h₃ hb =>
          have hrest₂ := eq_cons_of_behind? hb
          refine ⟨us ++ .mark .colon :: vs, [(q, p)], ?_, by simp [phraseEntries?, hq, hp],
            .last key value⟩
          simp [hts, hrest, hrest₁, hrest₂]
        · simp [Reading.Ensures, phraseEntries?, phrase?]
  termination_by (ts.length, 6)

end

end Expr

end OverlaySync.Deps
