import OverlaySync.Proofs.Deps.Recognition
import OverlaySync.Proofs.Lists

/-! # Operands in their places

An operand of a file can be put in the place of another one: if an operand can stand between some
tokens, then any operand can, and the phrases that are derived differ in the place alone
(`OperandBetween.exists_context`). A name is an operand unless it is bound where it stands
(`IsFile.operandBetween`).

A `Context` is a phrase with a hole in the place of an operand. What it means depends on what the
hole is filled with only through the value, except that the right operand of `%` supplies the items
of a list unless it is in parentheses (`Context.means_plug`). -/

namespace OverlaySync.Deps

/-! ## Contexts -/

/-- A phrase with a hole in the place of one of its parts. -/
inductive Context where
  /-- Nothing but the hole. -/
  | hole
  /-- A list, with the hole in one of its items. -/
  | list (before : List Phrase) (inner : Context) (after : List Phrase)
  /-- A tuple, with the hole in one of its items. -/
  | tuple (before : List Phrase) (inner : Context) (after : List Phrase)
  /-- Parentheses around the hole. -/
  | group (inner : Context)
  /-- A dict, with the hole in one of its keys. -/
  | dictKey (before : List (Phrase × Phrase)) (inner : Context) (value : Phrase)
    (after : List (Phrase × Phrase))
  /-- A dict, with the hole in one of its values. -/
  | dictValue (before : List (Phrase × Phrase)) (key : Phrase) (inner : Context)
    (after : List (Phrase × Phrase))
  /-- A negation of the hole. -/
  | negation (inner : Context)
  /-- The hole is formatted. -/
  | formatLeft (inner : Context) (right : Phrase)
  /-- The hole supplies the arguments of a format. -/
  | formatRight (left : Phrase) (inner : Context)
  /-- Something is added to the hole. -/
  | sumLeft (inner : Context) (right : Phrase)
  /-- The hole is added to something. -/
  | sumRight (left : Phrase) (inner : Context)

namespace Context

/-- The phrase with the hole filled. -/
def plug : Context → Phrase → Phrase
  | hole, p => p
  | list before inner after, p => .list (before ++ inner.plug p :: after)
  | tuple before inner after, p => .tuple (before ++ inner.plug p :: after)
  | group inner, p => .group (inner.plug p)
  | dictKey before inner value after, p => .dict (before ++ (inner.plug p, value) :: after)
  | dictValue before key inner after, p => .dict (before ++ (key, inner.plug p) :: after)
  | negation inner, p => .negation (inner.plug p)
  | formatLeft inner right, p => .format (inner.plug p) right
  | formatRight left inner, p => .format left (inner.plug p)
  | sumLeft inner right, p => .sum (inner.plug p) right
  | sumRight left inner, p => .sum left (inner.plug p)

/-- The hole itself is the right operand of a format. -/
def Supplies : Context → Prop
  | hole => False
  | list _ inner _ | tuple _ inner _ | group inner | dictKey _ inner _ _ | dictValue _ _ inner _ |
    negation inner | formatLeft inner _ | sumLeft inner _ | sumRight _ inner => inner.Supplies
  | formatRight _ inner => inner = hole ∨ inner.Supplies

end Context

/-! ## What a phrase in a context means -/

section Means

variable {scope : String → Option Value} {p q : Phrase}

/-- An item can be replaced by one that means the same. -/
theorem meansItems_replace (same : ∀ v, Means scope p v → Means scope q v)
    {before after : List Phrase} {vs : List Value}
    (h : MeansItems scope (before ++ p :: after) vs) :
    MeansItems scope (before ++ q :: after) vs := by
  induction before generalizing vs with
  | nil =>
    cases h with
    | cons head tail => exact .cons (same _ head) tail
  | cons r before ih =>
    cases h with
    | cons head tail => exact .cons head (ih tail)

/-- An entry can be replaced by one whose key and value mean the same. -/
theorem meansEntries_replace {k k' : Phrase} (sameKey : ∀ v, Means scope k v → Means scope k' v)
    (same : ∀ v, Means scope p v → Means scope q v) {before after : List (Phrase × Phrase)}
    {kvs : List (String × Value)} (h : MeansEntries scope (before ++ (k, p) :: after) kvs) :
    MeansEntries scope (before ++ (k', q) :: after) kvs := by
  induction before generalizing kvs with
  | nil =>
    cases h with
    | cons key value tail => exact .cons (sameKey _ key) (same _ value) tail
  | cons r before ih =>
    cases h with
    | cons key value tail => exact .cons key value (ih tail)

/-- Only parentheses make a difference to what an operand of `%` supplies. -/
theorem Supplies.congr {v : Value} {args : List Value}
    (same : (∃ r, p = .group r) ↔ ∃ r, q = .group r) (h : Supplies p v args) :
    Supplies q v args := by
  cases h with
  | items bare => exact .items fun r hr => (same.2 ⟨r, hr⟩).elim bare
  | group =>
    obtain ⟨r, rfl⟩ := same.1 ⟨_, rfl⟩
    exact .group
  | single atom => exact .single atom

/-- The outermost part of a context stays whatever is filled in. -/
theorem Context.plug_isGroup_iff {K : Context} (proper : K ≠ .hole) :
    (∃ r, K.plug p = .group r) ↔ ∃ r, K.plug q = .group r := by
  cases K <;> simp_all [plug]

/-- A phrase can take the place of another one if it has its value, and supplies the same arguments
where the place is the right operand of a format. -/
theorem Context.means_plug {K : Context} (same : ∀ v, Means scope p v → Means scope q v)
    (supplies : K.Supplies → ∀ v args, Means scope p v → Deps.Supplies p v args →
      Deps.Supplies q v args) {v : Value} (h : Means scope (K.plug p) v) :
    Means scope (K.plug q) v := by
  induction K generalizing v with
  | hole => exact same v h
  | list before inner after ih =>
    cases h with
    | list items => exact .list (meansItems_replace (fun _ => ih supplies) items)
  | tuple before inner after ih =>
    cases h with
    | tuple items => exact .tuple (meansItems_replace (fun _ => ih supplies) items)
  | group inner ih =>
    cases h with
    | group inner => exact .group (ih supplies inner)
  | dictKey before inner value after ih =>
    cases h with
    | dict entries latest =>
      exact .dict (meansEntries_replace (fun _ => ih supplies) (fun _ h => h) entries) latest
  | dictValue before key inner after ih =>
    cases h with
    | dict entries latest =>
      exact .dict (meansEntries_replace (fun _ h => h) (fun _ => ih supplies) entries) latest
  | negation inner ih =>
    cases h with
    | negation operand result => exact .negation (ih supplies operand) result
  | formatLeft inner right ih =>
    cases h with
    | format left right supplied filled => exact .format (ih supplies left) right supplied filled
  -- What the right operand supplies can depend on whether it is in parentheses, which only the
  -- innermost step can change.
  | formatRight left inner ih =>
    cases h with
    | format left right supplied filled =>
      refine .format left (ih (fun h => supplies (.inr h)) right) ?_ filled
      by_cases proper : inner = .hole
      · subst proper
        exact supplies (.inl rfl) _ _ right supplied
      · exact supplied.congr (Context.plug_isGroup_iff proper)
  | sumLeft inner right ih =>
    cases h with
    | sumTexts left right => exact .sumTexts (ih supplies left) right
    | sumLists left right => exact .sumLists (ih supplies left) right
    | sumIntegers left right result => exact .sumIntegers (ih supplies left) right result
  | sumRight left inner ih =>
    cases h with
    | sumTexts left right => exact .sumTexts left (ih supplies right)
    | sumLists left right => exact .sumLists left (ih supplies right)
    | sumIntegers left right result => exact .sumIntegers left (ih supplies right) result

/-- Each of the items of a list that has a value has one. -/
theorem exists_means_of_items {before after : List Phrase} {vs : List Value}
    (h : MeansItems scope (before ++ p :: after) vs) : ∃ v, Means scope p v := by
  induction before generalizing vs with
  | nil =>
    cases h with
    | cons head tail => exact ⟨_, head⟩
  | cons r before ih =>
    cases h with
    | cons head tail => exact ih tail

/-- Each of the entries of a dict that has a value has a key and a value. -/
theorem exists_means_of_entries {k : Phrase} {before after : List (Phrase × Phrase)}
    {kvs : List (String × Value)} (h : MeansEntries scope (before ++ (k, p) :: after) kvs) :
    (∃ v, Means scope k v) ∧ ∃ v, Means scope p v := by
  induction before generalizing kvs with
  | nil =>
    cases h with
    | cons key value tail => exact ⟨⟨_, key⟩, _, value⟩
  | cons r before ih =>
    cases h with
    | cons key value tail => exact ih tail

/-- Every part of a phrase with a value has one. -/
theorem Context.exists_means {K : Context} {v : Value} (h : Means scope (K.plug p) v) :
    ∃ w, Means scope p w := by
  -- On the context: each of its steps is a rule of `Means`, whose premise for the hole is the one
  -- wanted.
  induction K generalizing v with
  | hole => exact ⟨v, h⟩
  | list before inner after ih =>
    cases h with
    | list items => exact (exists_means_of_items items).elim fun _ => ih
  | tuple before inner after ih =>
    cases h with
    | tuple items => exact (exists_means_of_items items).elim fun _ => ih
  | group inner ih =>
    cases h with
    | group inner => exact ih inner
  | dictKey before inner value after ih =>
    cases h with
    | dict entries latest => exact (exists_means_of_entries entries).1.elim fun _ => ih
  | dictValue before key inner after ih =>
    cases h with
    | dict entries latest => exact (exists_means_of_entries entries).2.elim fun _ => ih
  | negation inner ih =>
    cases h with
    | negation operand result => exact ih operand
  | formatLeft inner right ih =>
    cases h with
    | format left right supplied filled => exact ih left
  | formatRight left inner ih =>
    cases h with
    | format left right supplied filled => exact ih right
  | sumLeft inner right ih =>
    cases h with
    | sumTexts left right | sumLists left right | sumIntegers left right => exact ih left
  | sumRight left inner ih =>
    cases h with
    | sumTexts left right | sumLists left right | sumIntegers left right => exact ih right

end Means

/-! ## Derivations with an operand in the middle -/

/-- Between the tokens `us` and `ws` stands an operand, in the hole of `K`. -/
structure Fits (G : List Token → Phrase → Prop) (us ws : List Token) (K : Context) : Prop where
  fill {vs : List Token} {q : Phrase} (operand : IsUnary vs q) : G (us ++ (vs ++ ws)) (K.plug q)
  supplies : K.Supplies ↔ us.getLast? = some (.mark .percent)

/-- What is put around an operand and its context. -/
theorem Fits.around {G G' : List Token → Phrase → Prop} {us ws us' ws' : List Token}
    {K K' : Context} (h : Fits G us ws K)
    (fill : ∀ vs q, G (us ++ (vs ++ ws)) (K.plug q) → G' (us' ++ (vs ++ ws')) (K'.plug q))
    (supplies : K'.Supplies ↔ K.Supplies)
    (last : us'.getLast? = some (.mark .percent) ↔ us.getLast? = some (.mark .percent)) :
    Fits G' us' ws' K' where
  fill operand := fill _ _ (h.fill operand)
  supplies := supplies.trans (h.supplies.trans last.symm)

/-- A token that can be an operand by itself. -/
def Token.isAtom : Token → Bool
  | .name _ | .integer _ => true
  | .string _ | .mark _ => false

section

variable {t : Token} (atom : t.isAtom = true)
include atom

/-- No mark is an atom. -/
theorem mark_cons_eq_iff {m : Mark} {ts us ws : List Token} :
    .mark m :: ts = us ++ t :: ws ↔ ∃ us', us = .mark m :: us' ∧ ts = us' ++ t :: ws := by
  refine cons_eq_append_cons_iff fun same => ?_
  rw [← same] at atom
  cases atom

/-- An atom does not stand in a single mark. -/
theorem singleton_mark_ne {m : Mark} {us ws : List Token} : [.mark m] ≠ us ++ t :: ws := by
  intro same
  obtain ⟨us', -, none⟩ := (mark_cons_eq_iff atom).1 same
  simp at none

end

/-- Behind a mark other than `%` the last token is looked for among those that follow. -/
theorem getLast?_mark {m : Mark} (other : m ≠ .percent) (ts us : List Token) :
    (ts ++ .mark m :: us).getLast? = some (.mark .percent) ↔
      us.getLast? = some (.mark .percent) := by
  cases us <;> simp [other]

/-- What is added to a context is added to what it is filled with. -/
theorem IsAddends.exists_left {l p : Phrase} {ts : List Token} (h : IsAddends l ts p)
    (L : Context) :
    ∃ K : Context, (∀ q, IsAddends (L.plug q) ts (K.plug q)) ∧ (K.Supplies ↔ L.Supplies) := by
  match h with
  | .nil => exact ⟨L, fun q => .nil, .rfl⟩
  | .cons (r := r) head tail =>
    obtain ⟨K, left, supplies⟩ := tail.exists_left (.sumLeft L r)
    exact ⟨K, fun q => .cons head (left q), supplies⟩

/-- What a context is formatted with is what it is formatted with when it is filled. -/
theorem IsFormats.exists_left {l p : Phrase} {ts : List Token} (h : IsFormats l ts p)
    (L : Context) :
    ∃ K : Context, (∀ q, IsFormats (L.plug q) ts (K.plug q)) ∧ (K.Supplies ↔ L.Supplies) := by
  match h with
  | .nil => exact ⟨L, fun q => .nil, .rfl⟩
  | .tuple (r := r) head tail =>
    obtain ⟨K, left, supplies⟩ := tail.exists_left (.formatLeft L r)
    exact ⟨K, fun q => .tuple head (left q), supplies⟩
  | .unary (r := r) head tail =>
    obtain ⟨K, left, supplies⟩ := tail.exists_left (.formatLeft L r)
    exact ⟨K, fun q => .unary head (left q), supplies⟩

mutual

/-- The atom between the tokens `us` and `ws` of an expression stands for any operand. -/
theorem IsExpr.exists_fits {ts : List Token} {p : Phrase} (h : IsExpr ts p)
    {t : Token} (atom : t.isAtom = true) {us ws : List Token} (split : ts = us ++ t :: ws) :
    ∃ K, Fits IsExpr us ws K := by
  match h with
  | .intro head tail =>
    obtain ⟨ws', hts, rfl⟩ | ⟨us', rfl, hus⟩ := append_eq_append_cons_iff.1 split
    · obtain ⟨K, fits⟩ := head.exists_fits atom hts
      obtain ⟨K', left, supplies⟩ := tail.exists_left K
      refine ⟨K', fits.around (fun vs q term => ?_) supplies .rfl⟩
      simpa using IsExpr.intro term (left q)
    · obtain ⟨K, fits, some⟩ := tail.exists_fits atom hus
      refine ⟨K, fits.around (fun vs q addends => ?_) .rfl ?_⟩
      · simpa using IsExpr.intro head addends
      · rw [getLast?_append_right some]

/-- The same of what is added. -/
theorem IsAddends.exists_fits {l p : Phrase} {ts : List Token} (h : IsAddends l ts p)
    {t : Token} (atom : t.isAtom = true) {us ws : List Token} (split : ts = us ++ t :: ws) :
    ∃ K, Fits (IsAddends l) us ws K ∧ us ≠ [] := by
  match h with
  | .nil => simp at split
  | .cons head tail =>
    obtain ⟨us', rfl, inside⟩ := (mark_cons_eq_iff atom).1 split
    obtain ⟨ws', hts, rfl⟩ | ⟨us', rfl, hus⟩ := append_eq_append_cons_iff.1 inside
    · obtain ⟨K, fits⟩ := head.exists_fits atom hts
      obtain ⟨K', left, supplies⟩ := tail.exists_left (.sumRight l K)
      refine ⟨K', fits.around (fun vs q term => ?_) supplies (getLast?_mark (by decide) [] _),
        nofun⟩
      simpa using IsAddends.cons term (left q)
    · obtain ⟨K, fits, some⟩ := tail.exists_fits atom hus
      refine ⟨K, fits.around (fun vs q addends => ?_) .rfl ?_, nofun⟩
      · simpa using IsAddends.cons head addends
      · rw [← List.cons_append, getLast?_append_right some]

/-- The same of a term. -/
theorem IsTerm.exists_fits {ts : List Token} {p : Phrase} (h : IsTerm ts p)
    {t : Token} (atom : t.isAtom = true) {us ws : List Token} (split : ts = us ++ t :: ws) :
    ∃ K, Fits IsTerm us ws K := by
  match h with
  | .intro head tail =>
    obtain ⟨ws', hts, rfl⟩ | ⟨us', rfl, hus⟩ := append_eq_append_cons_iff.1 split
    · obtain ⟨K, fits, -⟩ := head.exists_fits atom hts
      obtain ⟨K', left, supplies⟩ := tail.exists_left K
      refine ⟨K', fits.around (fun vs q unary => ?_) supplies .rfl⟩
      simpa using IsTerm.intro unary (left q)
    · obtain ⟨K, fits, some⟩ := tail.exists_fits atom hus
      refine ⟨K, fits.around (fun vs q formats => ?_) .rfl ?_⟩
      · simpa using IsTerm.intro head formats
      · rw [getLast?_append_right some]

/-- The same of what a phrase is formatted with. -/
theorem IsFormats.exists_fits {l p : Phrase} {ts : List Token} (h : IsFormats l ts p)
    {t : Token} (atom : t.isAtom = true) {us ws : List Token} (split : ts = us ++ t :: ws) :
    ∃ K, Fits (IsFormats l) us ws K ∧ us ≠ [] := by
  match h with
  | .nil => simp at split
  -- The atom is in the operand behind the percent sign, or in what stands behind that.
  | .tuple head tail =>
    obtain ⟨us', rfl, inside⟩ := (mark_cons_eq_iff atom).1 split
    obtain ⟨ws', hts, rfl⟩ | ⟨us', rfl, hus⟩ := append_eq_append_cons_iff.1 inside
    · obtain ⟨K, fits, proper, some⟩ := head.exists_fits atom hts
      obtain ⟨K', left, supplies⟩ := tail.exists_left (.formatRight l K)
      refine ⟨K', fits.around (fun vs q tuple => ?_) (supplies.trans (or_iff_right proper)) ?_,
        nofun⟩
      · simpa using IsFormats.tuple tuple (left q)
      · rw [← List.singleton_append, getLast?_append_right some]
    · obtain ⟨K, fits, some⟩ := tail.exists_fits atom hus
      refine ⟨K, fits.around (fun vs q formats => ?_) .rfl ?_, nofun⟩
      · simpa using IsFormats.tuple head formats
      · rw [← List.cons_append, getLast?_append_right some]
  | .unary head tail =>
    obtain ⟨us', rfl, inside⟩ := (mark_cons_eq_iff atom).1 split
    obtain ⟨ws', hts, rfl⟩ | ⟨us', rfl, hus⟩ := append_eq_append_cons_iff.1 inside
    · obtain ⟨K, fits, whole⟩ := head.exists_fits atom hts
      obtain ⟨K', left, supplies⟩ := tail.exists_left (.formatRight l K)
      refine ⟨K', ⟨fun operand => ?_, supplies.trans ?_⟩, nofun⟩
      · simpa using IsFormats.unary (fits.fill operand) (left _)
      · -- The percent sign is the last token if the operand is all of the unary expression.
        by_cases first : us' = []
        · subst first
          simp [Context.Supplies, whole]
        · rw [← List.singleton_append, getLast?_append_right first, ← fits.supplies]
          exact or_iff_right fun hole => first (whole.1 hole)
    · obtain ⟨K, fits, some⟩ := tail.exists_fits atom hus
      refine ⟨K, fits.around (fun vs q formats => ?_) .rfl ?_, nofun⟩
      · simpa using IsFormats.unary head formats
      · rw [← List.cons_append, getLast?_append_right some]

/-- The same of a unary expression. The operand is all of it if it comes first. -/
theorem IsUnary.exists_fits {ts : List Token} {p : Phrase} (h : IsUnary ts p)
    {t : Token} (atom : t.isAtom = true) {us ws : List Token} (split : ts = us ++ t :: ws) :
    ∃ K, Fits IsUnary us ws K ∧ (K = .hole ↔ us = []) := by
  match h with
  | .negation operand =>
    obtain ⟨us', rfl, inside⟩ := (mark_cons_eq_iff atom).1 split
    obtain ⟨K, fits, -⟩ := operand.exists_fits atom inside
    refine ⟨.negation K, fits.around (fun vs q unary => ?_) .rfl (getLast?_mark (by decide) [] _),
      iff_of_false nofun nofun⟩
    exact .negation unary
  | .primary operand =>
    obtain ⟨rfl, rfl⟩ | ⟨some, K, fits, proper⟩ := operand.exists_fits atom split
    · refine ⟨.hole, ⟨fun operand => ?_, iff_of_false nofun nofun⟩, iff_of_true rfl rfl⟩
      simpa [Context.plug] using operand
    · exact ⟨K, fits.around (fun vs q primary => .primary primary) .rfl .rfl,
        iff_of_false proper some⟩

/-- The same of a primary: the atom is all of it, or is somewhere behind its first mark. -/
theorem IsPrimary.exists_fits {ts : List Token} {p : Phrase} (h : IsPrimary ts p)
    {t : Token} (atom : t.isAtom = true) {us ws : List Token} (split : ts = us ++ t :: ws) :
    (us = [] ∧ ws = []) ∨ us ≠ [] ∧ ∃ K, Fits IsPrimary us ws K ∧ K ≠ .hole := by
  match h with
  | .text s ss =>
    -- A text is no atom here: its neighbours would be read together with what takes its place.
    have there : t ∈ .string s :: ss.map Token.string := by simp [split]
    rw [← List.map_cons, List.mem_map] at there
    obtain ⟨r, -, string⟩ := there
    rw [← string] at atom
    cases atom
  | .integer _ | .name _ =>
    obtain ⟨hus, hcons⟩ | ⟨us', -, hnil⟩ := List.cons_eq_append_iff.1 split
    · exact .inl ⟨hus, (List.cons.inj hcons).2⟩
    · simp at hnil
  -- Between marks the atom stands in what they enclose.
  | .list items =>
    obtain ⟨us', rfl, inside⟩ := (mark_cons_eq_iff atom).1 split
    obtain ⟨ws', hts, rfl⟩ | ⟨us'', -, hus⟩ := append_eq_append_cons_iff.1 inside
    · obtain ⟨before, K, after, fits⟩ := items.exists_fits atom hts
      refine .inr ⟨nofun, .list before K after, fits.around (fun vs q items => ?_) .rfl
        (getLast?_mark (by decide) [] _), nofun⟩
      simpa [Context.plug] using IsPrimary.list items
    · exact absurd hus (singleton_mark_ne atom)
  | .dict entries =>
    obtain ⟨us', rfl, inside⟩ := (mark_cons_eq_iff atom).1 split
    obtain ⟨ws', hts, rfl⟩ | ⟨us'', -, hus⟩ := append_eq_append_cons_iff.1 inside
    · obtain ⟨before, K, after, ⟨value, fits⟩ | ⟨key, fits⟩⟩ := entries.exists_fits atom hts
      · refine .inr ⟨nofun, .dictKey before K value after, fits.around (fun vs q entries => ?_) .rfl
          (getLast?_mark (by decide) [] _), nofun⟩
        simpa [Context.plug] using IsPrimary.dict entries
      · refine .inr ⟨nofun, .dictValue before key K after, fits.around (fun vs q entries => ?_) .rfl
          (getLast?_mark (by decide) [] _), nofun⟩
        simpa [Context.plug] using IsPrimary.dict entries
    · exact absurd hus (singleton_mark_ne atom)
  | .group inner =>
    obtain ⟨us', rfl, inside⟩ := (mark_cons_eq_iff atom).1 split
    obtain ⟨ws', hts, rfl⟩ | ⟨us'', -, hus⟩ := append_eq_append_cons_iff.1 inside
    · obtain ⟨K, fits⟩ := inner.exists_fits atom hts
      refine .inr ⟨nofun, .group K, fits.around (fun vs q expr => ?_) .rfl
        (getLast?_mark (by decide) [] _), nofun⟩
      simpa [Context.plug] using IsPrimary.group expr
    · exact absurd hus (singleton_mark_ne atom)
  | .tuple inner =>
    obtain ⟨K, fits, proper, some⟩ := inner.exists_fits atom split
    exact .inr ⟨some, K, fits.around (fun vs q tuple => .tuple tuple) .rfl .rfl, proper⟩

/-- The same of a tuple. -/
theorem IsTuple.exists_fits {ts : List Token} {p : Phrase} (h : IsTuple ts p)
    {t : Token} (atom : t.isAtom = true) {us ws : List Token} (split : ts = us ++ t :: ws) :
    ∃ K, Fits IsTuple us ws K ∧ K ≠ .hole ∧ us ≠ [] := by
  match h with
  | .empty =>
    obtain ⟨us', rfl, inside⟩ := (mark_cons_eq_iff atom).1 split
    exact absurd inside (singleton_mark_ne atom)
  | @IsTuple.items _ _ r ps head tail =>
    obtain ⟨us', rfl, inside⟩ := (mark_cons_eq_iff atom).1 split
    obtain ⟨ws', hts, rfl⟩ | ⟨us', rfl, hus⟩ := append_eq_append_cons_iff.1 inside
    · obtain ⟨K, fits⟩ := head.exists_fits atom hts
      refine ⟨.tuple [] K ps, fits.around (fun vs q expr => ?_) .rfl
        (getLast?_mark (by decide) [] _), nofun, nofun⟩
      simpa [Context.plug] using IsTuple.items expr tail
    · obtain ⟨vs', rfl, behind⟩ := (mark_cons_eq_iff atom).1 hus
      obtain ⟨ws', hts, rfl⟩ | ⟨us', -, hus⟩ := append_eq_append_cons_iff.1 behind
      · obtain ⟨before, K, after, fits⟩ := tail.exists_fits atom hts
        refine ⟨.tuple (r :: before) K after, fits.around (fun vs q items => ?_) .rfl ?_,
          nofun, nofun⟩
        · simpa [Context.plug] using IsTuple.items head items
        · rw [← List.cons_append, getLast?_mark (by decide)]
      · exact absurd hus (singleton_mark_ne atom)

/-- The same of items. -/
theorem IsItems.exists_fits {ts : List Token} {ps : List Phrase} (h : IsItems ts ps)
    {t : Token} (atom : t.isAtom = true) {us ws : List Token} (split : ts = us ++ t :: ws) :
    ∃ before K after, Fits (fun ts q => IsItems ts (before ++ q :: after)) us ws K := by
  match h with
  | .nil => simp at split
  | .last item =>
    obtain ⟨K, fits⟩ := item.exists_fits atom split
    exact ⟨[], K, [], fits.around (fun vs q expr => .last expr) .rfl .rfl⟩
  | @IsItems.cons _ _ r rs head tail =>
    obtain ⟨ws', hts, rfl⟩ | ⟨us', rfl, hus⟩ := append_eq_append_cons_iff.1 split
    · obtain ⟨K, fits⟩ := head.exists_fits atom hts
      refine ⟨[], K, rs, fits.around (fun vs q expr => ?_) .rfl .rfl⟩
      simpa [Context.plug] using IsItems.cons expr tail
    · obtain ⟨us', rfl, inside⟩ := (mark_cons_eq_iff atom).1 hus
      obtain ⟨before, K, after, fits⟩ := tail.exists_fits atom inside
      refine ⟨r :: before, K, after, fits.around (fun vs q items => ?_) .rfl
        (getLast?_mark (by decide) _ _)⟩
      simpa [Context.plug] using IsItems.cons head items

/-- The same of entries: the atom is in a key or in a value. -/
theorem IsEntries.exists_fits {ts : List Token} {es : List (Phrase × Phrase)} (h : IsEntries ts es)
    {t : Token} (atom : t.isAtom = true) {us ws : List Token} (split : ts = us ++ t :: ws) :
    ∃ before K after,
      (∃ value, Fits (fun ts q => IsEntries ts (before ++ (q, value) :: after)) us ws K) ∨
      ∃ key, Fits (fun ts q => IsEntries ts (before ++ (key, q) :: after)) us ws K := by
  match h with
  | .nil => simp at split
  | @IsEntries.last _ _ k r key value =>
    obtain ⟨ws', hts, rfl⟩ | ⟨us', rfl, hus⟩ := append_eq_append_cons_iff.1 split
    · obtain ⟨K, fits⟩ := key.exists_fits atom hts
      refine ⟨[], K, [], .inl ⟨r, fits.around (fun vs q expr => ?_) .rfl .rfl⟩⟩
      simpa [Context.plug] using IsEntries.last expr value
    · obtain ⟨us', rfl, inside⟩ := (mark_cons_eq_iff atom).1 hus
      obtain ⟨K, fits⟩ := value.exists_fits atom inside
      refine ⟨[], K, [], .inr ⟨k, fits.around (fun vs q expr => ?_) .rfl
        (getLast?_mark (by decide) _ _)⟩⟩
      simpa [Context.plug] using IsEntries.last key expr
  -- In the key, in the value, or in one of the other entries.
  | @IsEntries.cons _ _ _ k r rs key value tail =>
    obtain ⟨ws', hts, rfl⟩ | ⟨us', rfl, hus⟩ := append_eq_append_cons_iff.1 split
    · obtain ⟨K, fits⟩ := key.exists_fits atom hts
      refine ⟨[], K, rs, .inl ⟨r, fits.around (fun vs q expr => ?_) .rfl .rfl⟩⟩
      simpa [Context.plug] using IsEntries.cons expr value tail
    obtain ⟨vs', rfl, inside⟩ := (mark_cons_eq_iff atom).1 hus
    obtain ⟨ws', hts, rfl⟩ | ⟨us', rfl, hvs⟩ := append_eq_append_cons_iff.1 inside
    · obtain ⟨K, fits⟩ := value.exists_fits atom hts
      refine ⟨[], K, rs, .inr ⟨k, fits.around (fun vs q expr => ?_) .rfl
        (getLast?_mark (by decide) _ _)⟩⟩
      simpa [Context.plug] using IsEntries.cons key expr tail
    · obtain ⟨vs', rfl, behind⟩ := (mark_cons_eq_iff atom).1 hvs
      obtain ⟨before, K, after, ⟨value', fits⟩ | ⟨key', fits⟩⟩ := tail.exists_fits atom behind
      · refine ⟨(k, r) :: before, K, after, .inl ⟨value',
          fits.around (fun vs q entries => ?_) .rfl ?_⟩⟩
        · simpa [Context.plug] using IsEntries.cons key value entries
        · rw [← List.cons_append, ← List.append_assoc, getLast?_mark (by decide)]
      · refine ⟨(k, r) :: before, K, after, .inr ⟨key',
          fits.around (fun vs q entries => ?_) .rfl ?_⟩⟩
        · simpa [Context.plug] using IsEntries.cons key value entries
        · rw [← List.cons_append, ← List.append_assoc, getLast?_mark (by decide)]

end

mutual

/-- No expression holds the sign of a binding. -/
theorem IsExpr.not_mem_equals {ts : List Token} {p : Phrase} (h : IsExpr ts p) :
    .mark .equals ∉ ts := by
  match h with
  | .intro head tail => simp [head.not_mem_equals, tail.not_mem_equals]

/-- The same of what is added. -/
theorem IsAddends.not_mem_equals {l p : Phrase} {ts : List Token} (h : IsAddends l ts p) :
    .mark .equals ∉ ts := by
  match h with
  | .nil => simp
  | .cons head tail => simp [head.not_mem_equals, tail.not_mem_equals]

/-- The same of a term. -/
theorem IsTerm.not_mem_equals {ts : List Token} {p : Phrase} (h : IsTerm ts p) :
    .mark .equals ∉ ts := by
  match h with
  | .intro head tail => simp [head.not_mem_equals, tail.not_mem_equals]

/-- The same of what a phrase is formatted with. -/
theorem IsFormats.not_mem_equals {l p : Phrase} {ts : List Token} (h : IsFormats l ts p) :
    .mark .equals ∉ ts := by
  match h with
  | .nil => simp
  | .tuple head tail => simp [head.not_mem_equals, tail.not_mem_equals]
  | .unary head tail => simp [head.not_mem_equals, tail.not_mem_equals]

/-- The same of a unary expression. -/
theorem IsUnary.not_mem_equals {ts : List Token} {p : Phrase} (h : IsUnary ts p) :
    .mark .equals ∉ ts := by
  match h with
  | .negation operand => simp [operand.not_mem_equals]
  | .primary operand => exact operand.not_mem_equals

/-- The same of a primary. -/
theorem IsPrimary.not_mem_equals {ts : List Token} {p : Phrase} (h : IsPrimary ts p) :
    .mark .equals ∉ ts := by
  match h with
  | .text s ss => simp
  | .integer n => simp
  | .name x => simp
  | .list items => simp [items.not_mem_equals]
  | .dict entries => simp [entries.not_mem_equals]
  | .group inner => simp [inner.not_mem_equals]
  | .tuple inner => exact inner.not_mem_equals

/-- The same of a tuple. -/
theorem IsTuple.not_mem_equals {ts : List Token} {p : Phrase} (h : IsTuple ts p) :
    .mark .equals ∉ ts := by
  match h with
  | .empty => simp
  | .items head tail => simp [head.not_mem_equals, tail.not_mem_equals]

/-- The same of items. -/
theorem IsItems.not_mem_equals {ts : List Token} {ps : List Phrase} (h : IsItems ts ps) :
    .mark .equals ∉ ts := by
  match h with
  | .nil => simp
  | .last item => exact item.not_mem_equals
  | .cons head tail => simp [head.not_mem_equals, tail.not_mem_equals]

/-- The same of entries. -/
theorem IsEntries.not_mem_equals {ts : List Token} {es : List (Phrase × Phrase)}
    (h : IsEntries ts es) : .mark .equals ∉ ts := by
  match h with
  | .nil => simp
  | .last key value => simp [key.not_mem_equals, value.not_mem_equals]
  | .cons key value tail =>
    simp [key.not_mem_equals, value.not_mem_equals, tail.not_mem_equals]

end

/-! ## Files with a hole -/

/-- The phrases of a file with a hole in the value of one of its bindings. -/
structure FileContext where
  /-- The bindings before it. -/
  before : List (String × Phrase)
  /-- The name that is bound. -/
  name : String
  /-- The value with the hole. -/
  inner : Context
  /-- The bindings behind it. -/
  after : List (String × Phrase)

/-- The phrases with the hole filled. -/
def FileContext.plug (F : FileContext) (p : Phrase) : List (String × Phrase) :=
  F.before ++ (F.name, F.inner.plug p) :: F.after

/-- Bindings are made in two parts, with one binding between them. -/
theorem binds_append_cons_iff {history final : List (String × Value)}
    {before after : List (String × Phrase)} {x : String} {p : Phrase} :
    Binds history (before ++ (x, p) :: after) final ↔
      ∃ here v, Binds history before here ∧ Means (here.lookup ·) p v ∧
        Binds ((x, v) :: here) after final := by
  induction before generalizing history with
  | nil =>
    constructor
    · intro h
      cases h with
      | cons value tail => exact ⟨history, _, .nil, value, tail⟩
    · rintro ⟨here, v, first, value, tail⟩
      cases first
      exact .cons value tail
  | cons b before ih =>
    constructor
    · intro h
      cases h with
      | cons value tail =>
        obtain ⟨here, v, first, rest⟩ := ih.1 tail
        exact ⟨here, v, .cons value first, rest⟩
    · rintro ⟨here, v, first, rest⟩
      cases first with
      | cons value first => exact .cons value (ih.2 ⟨here, v, first, rest⟩)

/-- What a file with a filled hole binds: the phrase in the hole has a value where it stands, and
another phrase of this value that supplies the same arguments gives the same bindings. -/
theorem FileContext.binds_plug {F : FileContext} {p : Phrase} {final : List (String × Value)}
    (h : Binds [] (F.plug p) final) :
    ∃ here v, Binds [] F.before here ∧ Means (here.lookup ·) p v ∧
      ∀ q, (∀ w, Means (here.lookup ·) p w → Means (here.lookup ·) q w) →
        (F.inner.Supplies → ∀ w args, Means (here.lookup ·) p w → Supplies p w args →
          Supplies q w args) →
        Binds [] (F.plug q) final := by
  obtain ⟨here, v, before, value, after⟩ := binds_append_cons_iff.1 h
  obtain ⟨w, part⟩ := Context.exists_means value
  refine ⟨here, w, before, part, fun q same supplies => ?_⟩
  exact binds_append_cons_iff.2 ⟨here, v, before, Context.means_plug same supplies value, after⟩

/-- Tokens are at most one file. -/
theorem IsFile.unique {ts : List Token} {ps qs : List (String × Phrase)} (h : IsFile ts ps)
    (h' : IsFile ts qs) : ps = qs :=
  Option.some.inj ((File.read_of_isFile h).2.symm.trans (File.read_of_isFile h').2)

/-- The tokens up to somewhere in the value of a binding, and the file that is complete before this
binding. -/
def Begins (us done : List Token) (x : String) : Prop :=
  ∃ begun, us = done ++ .name x :: .mark .equals :: begun ∧ .mark .equals ∉ begun

/-- The sign of the binding is the last one. -/
theorem Begins.unique {us done done' : List Token} {x y : String} (h : Begins us done x)
    (h' : Begins us done' y) : done = done' ∧ x = y := by
  obtain ⟨begun, rfl, unbound⟩ := h
  obtain ⟨begun', split, unbound'⟩ := h'
  rw [List.append_cons, List.append_cons done'] at split
  obtain ⟨hdone, hname⟩ :=
    List.append_inj' (append_cons_inj_of_not_mem unbound unbound' split) rfl
  exact ⟨hdone, Token.name.inj (List.singleton_inj.1 hname)⟩

/-- An atom of a file is a name that is bound there, or any operand can stand in its place. -/
theorem IsFile.exists_context {us ws : List Token} {t : Token} {ps : List (String × Phrase)}
    (atom : t.isAtom = true) (h : IsFile (us ++ t :: ws) ps) :
    ((∃ x, t = .name x) ∧ ws.head? = some (.mark .equals)) ∨
      ∃ F : FileContext, (∀ {vs q}, IsUnary vs q → IsFile (us ++ (vs ++ ws)) (F.plug q)) ∧
        (F.inner.Supplies ↔ us.getLast? = some (.mark .percent)) ∧
        ∃ done, Begins us done F.name ∧ IsFile done F.before := by
  generalize split : us ++ t :: ws = ts at h
  -- On the bindings: the atom is the name that is bound, or in its value, or in a later binding.
  induction h generalizing us with
  | nil => simp at split
  | @cons ts vs p bs x value tail ih =>
    obtain ⟨rfl, hname⟩ | ⟨rest, rfl, named⟩ := List.cons_eq_append_iff.1 split.symm
    · obtain ⟨rfl, rfl⟩ := List.cons.inj hname
      exact .inl ⟨⟨x, rfl⟩, rfl⟩
    obtain ⟨us', rfl, inside⟩ := (mark_cons_eq_iff atom).1 named
    obtain ⟨ws', hts, rfl⟩ | ⟨us', rfl, hvs⟩ := append_eq_append_cons_iff.1 inside
    · obtain ⟨K, fits⟩ := value.exists_fits atom hts
      refine .inr ⟨⟨[], x, K, bs⟩, fun operand => ?_, ?_, [], ⟨us', rfl, fun there => ?_⟩, .nil⟩
      · simpa [FileContext.plug] using IsFile.cons x (fits.fill operand) tail
      · rw [← List.singleton_append, getLast?_mark (by decide)]
        exact fits.supplies
      -- No value holds an equals sign, so nothing else has been begun in between.
      · exact value.not_mem_equals (by simp [hts, there])
    · refine (ih hvs.symm).imp_right ?_
      rintro ⟨F, fill, supplies, done, ⟨begun, rfl, unbound⟩, complete⟩
      refine ⟨⟨(x, p) :: F.before, F.name, F.inner, F.after⟩, fun operand => ?_, ?_,
        .name x :: .mark .equals :: (ts ++ done), ⟨begun, by simp, unbound⟩,
        .cons x value complete⟩
      · simpa [FileContext.plug] using IsFile.cons x value (fill operand)
      · have some : done ++ .name F.name :: .mark .equals :: begun ≠ [] := by simp
        rw [supplies, ← List.cons_append, ← List.cons_append, getLast?_append_right some]

/-- An operand can stand between these tokens of a file, as an integer literal, for example. -/
def OperandBetween (us ws : List Token) : Prop :=
  ∃ n ps, IsFile (us ++ .integer n :: ws) ps

/-- Where an operand can stand in a file, any operand can. -/
theorem OperandBetween.exists_context {us ws : List Token} (h : OperandBetween us ws) :
    ∃ F : FileContext, (∀ {vs q}, IsUnary vs q → IsFile (us ++ (vs ++ ws)) (F.plug q)) ∧
      (F.inner.Supplies ↔ us.getLast? = some (.mark .percent)) ∧
      ∃ done, Begins us done F.name ∧ IsFile done F.before := by
  obtain ⟨n, ps, file⟩ := h
  exact (file.exists_context rfl).resolve_left fun ⟨⟨x, isName⟩, _⟩ => by cases isName

/-- A name of a file is an operand, unless it is bound there. -/
theorem IsFile.operandBetween {us ws : List Token} {x : String} {ps : List (String × Phrase)}
    (h : IsFile (us ++ .name x :: ws) ps) (reference : ws.head? ≠ some (.mark .equals)) :
    OperandBetween us ws := by
  obtain ⟨-, bound⟩ | ⟨F, fill, -⟩ := h.exists_context rfl
  · exact absurd bound reference
  · exact ⟨0, _, fill (.primary (.integer 0))⟩

end OverlaySync.Deps
