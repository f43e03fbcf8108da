import OverlaySync.Proofs.Deps.Meaning
import OverlaySync.Proofs.Deps.ReadingComplete
import OverlaySync.Proofs.Deps.ReadingSound

/-! # Files are recognised by the grammar and bind what the rules say

Reading and evaluating tokens succeeds exactly on the files of the grammar whose bindings have
values by the rules, and the names are bound to those values. Reading is deterministic, so a file
has at most one derivation that matters. -/

namespace OverlaySync.Deps

/-- What follows an expression in a file ends it. -/
theorem IsFile.endsExpr {ts : List Token} {ps : List (String × Phrase)} (h : IsFile ts ps) :
    EndsExpr ts := by
  cases h with
  | nil => exact .nil
  | cons x value tail => exact .name x _

namespace File

/-- What is read without a fault and without a broken expression is a file of the grammar. -/
theorem isFile_of_read {ts : List Token} {ps : List (String × Phrase)}
    (fault : (read ts).fault = none) (hps : phraseBindings? (read ts).bindings = some ps) :
    IsFile ts ps := by
  fun_induction read ts generalizing ps with
  | case1 =>
    cases hps
    exact .nil
  | case2 x rest hb => cases fault
  | case3 x rest rest' shorter hb e later shorter' hread ih =>
    have hrest := eq_cons_of_behind? hb
    have sound := Expr.read_sound rest'
    rw [hread] at sound
    obtain ⟨us, p, hrest', hp, value⟩ := sound
    simp only [cons, phraseBindings?, Option.bind_eq_bind, Option.bind_eq_some_iff,
      Option.pure_def, Option.some.injEq] at hps
    obtain ⟨p', hp', qs, hqs, rfl⟩ := hps
    obtain rfl : p = p' := Option.some.inj (hp.symm.trans hp')
    rw [hrest, hrest']
    exact .cons x value (ih fault hqs)
  | case4 x rest rest' shorter hb e hread =>
    -- The only binding breaks off, so it has no phrase.
    have sound := Expr.read_sound rest'
    rw [hread] at sound
    have hnone : e.phrase? = none := sound
    simp [phraseBindings?, hnone] at hps
  | case5 => cases fault

/-- A file of the grammar is read without a fault, and as the same phrases. -/
theorem read_of_isFile {ts : List Token} {ps : List (String × Phrase)} (h : IsFile ts ps) :
    (read ts).fault = none ∧ phraseBindings? (read ts).bindings = some ps := by
  induction h with
  | nil => simp [read, phraseBindings?]
  | @cons us vs p bs x value tail ih =>
    -- The next binding starts with a name, which ends the expression before it.
    obtain ⟨e, he, shorter, hread⟩ := value.read_complete tail.endsExpr
    have step : read (.name x :: .mark .equals :: (us ++ vs)) = (read vs).cons x e := by
      rw [read]
      simp [hread]
    rw [step]
    exact ⟨ih.1, by simp [cons, phraseBindings?, he, ih.2]⟩

/-- Tokens that are read and evaluated are a file of the grammar, bound by the rules, and the other
way round. -/
theorem eval_read_eq_ok_iff {ts : List Token} {b : Bindings} :
    (read ts).eval = .ok b ↔
      ∃ ps final, IsFile ts ps ∧ Binds [] ps final ∧ SameScope b final := by
  rw [eval_eq_ok_iff]
  constructor
  · rintro ⟨fault, ps, final, hps, binds, same⟩
    exact ⟨ps, final, isFile_of_read fault hps, binds, same⟩
  · rintro ⟨ps, final, file, binds, same⟩
    obtain ⟨fault, hps⟩ := read_of_isFile file
    exact ⟨fault, ps, final, hps, binds, same⟩

end File

/-- A source is accepted if it is cut into tokens and these are read and evaluated. -/
theorem parse_eq_ok_iff {source : String} {b : Bindings} :
    parse source = .ok b ↔ ∃ ts, tokensOf source.toList = .ok ts ∧
      (File.read (ts.map Located.token)).eval = .ok b := by
  unfold parse
  cases tokensOf source.toList with
  | error e => simp
  | ok ts =>
    simp only [Except.ok.injEq, exists_eq_left']
    split <;> simp_all

/-- Reading and evaluating tokens succeeds with bindings exactly if the tokens derive from the
grammar a file whose bindings the rules bind in this way, and parsing accepts exactly the sources
that are cut into such tokens. -/
theorem parse_accepts_grammar :
    (∀ (ts : List Token) (b : Bindings), (File.read ts).eval = .ok b ↔
      ∃ ps final, IsFile ts ps ∧ Binds [] ps final ∧ SameScope b final) ∧
    ∀ (source : String) (b : Bindings), parse source = .ok b ↔
      ∃ ts, tokensOf source.toList = .ok ts ∧
        ∃ ps final, IsFile (ts.map Located.token) ps ∧ Binds [] ps final ∧ SameScope b final := by
  refine ⟨fun ts b => File.eval_read_eq_ok_iff, fun source b => ?_⟩
  simp only [parse_eq_ok_iff, File.eval_read_eq_ok_iff]

end OverlaySync.Deps
