import OverlaySync.Proofs.Deps.Assignments
import OverlaySync.Proofs.Deps.Canonical

/-! # What a file binds can be written down

The bindings that any source comes to can be written, and what is written is read as the same
bindings. This is not about the source but about all that can be computed in it, by references,
sums, formats and negations. Of the values that can be computed one cannot be written as a literal,
the least integer: there the sum of two literals reaches further than any literal
(`refused_after_rendering`).

Main statement: `parse_render_bindings`. -/

namespace OverlaySync.Deps

/-! ## Names -/

/-- A token that is a name has the form of one. -/
def Token.NamedWell (t : Token) : Prop :=
  ∀ x, t = .name x → IsName x

/-- Only what starts like a name is cut off as one. -/
theorem isNameStart_of_letter {c : Char} (h : Opening.of c = .letter) : isNameStart c = true := by
  unfold Opening.of at h
  repeat' split at h
  all_goals first | assumption | cases h

/-- A lexeme that writes a name has the form of one. -/
theorem Lexeme.namedWell_of_next {c : Char} {cs rest : List Char} {l : Lexeme}
    (h : Lexeme.next c cs = .ok (l, rest)) : ∀ t ∈ l.token, t.NamedWell := by
  rintro t ht x rfl
  cases Lexeme.next_eq_ok_iff.1 h with
  | letter opens =>
    cases ht
    exact ⟨c, _, String.toList_ofList, isNameStart_of_letter opens,
      List.all_eq_true.1 List.all_takeWhile⟩
  | _ => cases ht

/-- The names among the lexemes of a source have the form of names. -/
theorem namedWell_of_mem_lexemes (cs : List Char) :
    ∀ l ∈ (lexemes cs).1, ∀ t ∈ l.token, t.NamedWell := by
  fun_induction lexemes cs with
  | case1 => exact nofun
  | case2 c cs l rest hnext shorter later ih =>
    exact List.forall_mem_cons.2 ⟨Lexeme.namedWell_of_next hnext, ih⟩
  | case3 => exact nofun

/-- The names among the tokens of a source have the form of names. -/
theorem namedWell_of_tokensOf {cs : List Char} {ts : List Located} (h : tokensOf cs = .ok ts) :
    ∀ t ∈ ts.map Located.token, t.NamedWell := by
  have all := namedWell_of_mem_lexemes cs
  unfold tokensOf at h
  split at h
  · next ls hls =>
    cases h
    rw [hls] at all
    intro t ht
    rw [map_token_locate] at ht
    obtain ⟨l, hl, hlt⟩ := List.mem_filterMap.1 ht
    exact all l hl t hlt
  · cases h

/-- The names that a file binds are names among its tokens. -/
theorem IsFile.isName {ts : List Token} {ps : List (String × Phrase)} (h : IsFile ts ps)
    (named : ∀ t ∈ ts, t.NamedWell) : ∀ b ∈ ps, IsName b.1 := by
  induction h with
  | nil => exact nofun
  | cons x value tail ih =>
    refine List.forall_mem_cons.2 ⟨named _ List.mem_cons_self x rfl, ih fun t ht => ?_⟩
    exact named t (by simp [ht])

/-- What a source binds: names to canonical values. -/
theorem mem_entries_of_parse {source : String} {b : Bindings} (h : parse source = .ok b) :
    ∀ e ∈ b.entries, IsName e.1 ∧ e.2.Canonical := by
  obtain ⟨ts, htokens, hfile⟩ := parse_eq_ok_iff.1 h
  obtain ⟨ps, final, file, binds, same⟩ := File.eval_read_eq_ok_iff.1 hfile
  have all := binds.forall_mem (N := IsName) (file.isName (namedWell_of_tokensOf htokens))
    (List.forall_mem_nil _)
  intro e he
  -- An entry is what its name finds, in the map and so in the history.
  have found : b.get? e.1 = some e.2 := Entries.find?_of_mem b.ascending he
  rw [same] at found
  exact all e (mem_of_lookup found)

/-- What a source binds is canonical. -/
theorem canonicalScope_of_parse {source : String} {b : Bindings} (h : parse source = .ok b) :
    CanonicalScope b.get? :=
  fun _ _ found => (mem_entries_of_parse h _ (Entries.mem_of_find? found)).2

/-! ## Rendering and parsing -/

/-- Bindings are rendered in the order of their names. -/
theorem toList_render (b : Bindings) : b.render.toList = assignments b.entries := by
  rw [Bindings.render, String.toList_join, List.flatMap_map, assignments]

/-- Bindings that a source comes to are written and read back as they are, and writing them once
more gives the same text; only if the least integer is somewhere in a value, what is written is
refused, for a literal out of range. -/
theorem parse_render_bindings {source : String} {b : Bindings} (parsed : parse source = .ok b) :
    (Value.hasLeastEntry b.entries = false →
      parse b.render = .ok b ∧ (parse b.render).map Bindings.render = .ok b.render) ∧
    (Value.hasLeastEntry b.entries = true →
      ∃ e, parse b.render = .error e ∧ e.cause = .integerOutOfRange) := by
  have entries := mem_entries_of_parse parsed
  have written := writes_assignments (fun e he => (entries e he).1)
    (Value.canonicalEntries_iff.2 fun e he => (entries e he).2)
  rw [← toList_render] at written
  constructor
  · intro least
    rw [least] at written
    have same : parse b.render = .ok b := by
      rw [parse_of_writesFile written, ofList_entries]
    exact ⟨same, by rw [same]; rfl⟩
  · intro least
    rw [least] at written
    exact parse_of_writesFile_least written

/-- A source that is cut into some tokens comes to what these do. -/
theorem parse_of_tokens {source : String} {ts : List Token} {b : Bindings}
    (tokens : (tokensOf source.toList).toOption.map (·.map Located.token) = some ts)
    (read : (File.read ts).eval = .ok b) : parse source = .ok b := by
  obtain ⟨located, h, rfl⟩ := Option.map_eq_some_iff.1 tokens
  exact parse_eq_ok_iff.2 ⟨located, Outcome.eq_ok_of_toOption h, read⟩

/-- References, sums, formats and negations: what they come to is written and read back. -/
theorem parse_render_bindings_computed :
    ∃ b, parse "b = 'x%s' % (-3,)\na = [b] + [\x7b'k': -(1 + 2), 'j': ()\x7d]\n" = .ok b ∧
      Value.hasLeastEntry b.entries = false ∧
      b.render =
        "a = [\n  'x-3',\n  \x7b\n    'j': [],\n    'k': -3,\n  \x7d,\n]\nb = 'x-3'\n" ∧
      parse b.render = .ok b := by
  let b : Bindings := OrderedMap.ofList
    [("a", .list [.str "x-3", .dict [("j", .list []), ("k", .int (-3))]]), ("b", .str "x-3")]
  have parsed :
      parse "b = 'x%s' % (-3,)\na = [b] + [\x7b'k': -(1 + 2), 'j': ()\x7d]\n" = .ok b := by
    let ts : List Token :=
      [.name "b", .mark .equals, .string "x%s", .mark .percent,
        .mark .openParen, .mark .minus, .integer 3, .mark .comma, .mark .closeParen,
        .name "a", .mark .equals, .mark .openBracket, .name "b", .mark .closeBracket,
        .mark .plus, .mark .openBracket, .mark .openBrace,
        .string "k", .mark .colon,
        .mark .minus, .mark .openParen, .integer 1, .mark .plus, .integer 2, .mark .closeParen,
        .mark .comma, .string "j", .mark .colon, .mark .openParen, .mark .closeParen,
        .mark .closeBrace, .mark .closeBracket]
    refine parse_of_tokens (show _ = some ts by decide +kernel) ?_
    simp only [ts, File.read, behind?, Expr.read, Expr.readAddends, Expr.readFormatted,
      Expr.readFormats, Expr.readUnary, Expr.readOperand, Expr.readParenthesized, Expr.readItems,
      Expr.readEntries, Reading.andThen, Reading.map, Reading.weaken, adjacentStrings, File.cons,
      reduceCtorEq, if_true, if_false]
    exact Outcome.eq_ok_of_toOption (by decide +kernel)
  have least : Value.hasLeastEntry b.entries = false := by decide +kernel
  exact ⟨b, parsed, least, by decide +kernel, ((parse_render_bindings parsed).1 least).1⟩

/-- A sum can be the least integer, which no literal writes: what is written of it is refused. -/
theorem refused_after_rendering :
    ∃ b, parse "x = -9223372036854775807 + -1\n" = .ok b ∧
      b.render = "x = -9223372036854775808\n" ∧ ∀ b', parse b.render ≠ .ok b' := by
  let b : Bindings := OrderedMap.ofList [("x", .int Int64.minValue)]
  have parsed : parse "x = -9223372036854775807 + -1\n" = .ok b := by
    let ts : List Token :=
      [.name "x", .mark .equals, .mark .minus, .integer 9223372036854775807,
        .mark .plus, .mark .minus, .integer 1]
    refine parse_of_tokens (show _ = some ts by decide +kernel) ?_
    simp only [ts, File.read, behind?, Expr.read, Expr.readAddends, Expr.readFormatted,
      Expr.readFormats, Expr.readUnary, Expr.readOperand, Reading.andThen, Reading.map,
      Reading.weaken, File.cons, reduceCtorEq, if_true, if_false]
    exact Outcome.eq_ok_of_toOption (by decide +kernel)
  have written : b.render = "x = -9223372036854775808\n" := by decide +kernel
  have refused : (parse "x = -9223372036854775808\n").toOption = none := by decide +kernel
  refine ⟨b, parsed, written, fun b' hb' => ?_⟩
  rw [written] at hb'
  rw [hb'] at refused
  cases refused

end OverlaySync.Deps
