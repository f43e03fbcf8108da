import OverlaySync.Deps.File
import OverlaySync.Proofs.Deps.Grammar
import OverlaySync.Proofs.Outcome

/-! # What phrases mean

The value of a phrase as a relation, rule by rule, and the names that a file binds. Integer results
are exact: a rule gives a value only if 64 bits hold the mathematical result.

Main statements: `Expr.eval_eq_ok_iff` says that evaluation succeeds exactly on expressions that do
not break off, with the value of their phrase, and `File.evalBindings_eq_ok_iff` says the same of
the bindings of a file. -/

namespace OverlaySync.Deps

/-! ## The rules -/

/-- The arguments that an operand of `%` supplies, given the operand and its value. -/
inductive Supplies : Phrase → Value → List Value → Prop where
  /-- A list or a tuple supplies its items. -/
  | items {p : Phrase} {vs : List Value} (bare : ∀ q, p ≠ .group q) : Supplies p (.list vs) vs
  /-- An expression in parentheses supplies its one value. -/
  | group {p : Phrase} {v : Value} : Supplies (.group p) v [v]
  /-- Anything else supplies its one value. -/
  | single {p : Phrase} {v : Value} (atom : ∀ vs, v ≠ .list vs) : Supplies p v [v]

/-- The dict `es` holds the pairs `kvs`: of equal keys the last one counts. -/
def HoldsLatest (kvs es : List (String × Value)) : Prop :=
  Entries.Ascending es ∧ ∀ k, Entries.find? k es = kvs.reverse.lookup k

section

variable (scope : String → Option Value)

mutual

/-- The value of a phrase, where `scope` gives the values of the names bound before. -/
inductive Means : Phrase → Value → Prop where
  /-- A text is itself. -/
  | text (s : String) : Means (.text s) (.str s)
  /-- An integer literal is itself. -/
  | integer (n : Int64) : Means (.integer n) (.int n)
  /-- `None` is a constant. -/
  | none : Means (.name "None") .none
  /-- `True` is a constant. -/
  | true : Means (.name "True") (.bool Bool.true)
  /-- `False` is a constant. -/
  | false : Means (.name "False") (.bool Bool.false)
  /-- Any other name has the value of its latest binding. -/
  | name {x : String} {v : Value} (ordinary : x ∉ ["None", "True", "False"])
      (bound : scope x = some v) : Means (.name x) v
  /-- A list holds the values of its items. -/
  | list {ps : List Phrase} {vs : List Value} (items : MeansItems ps vs) :
      Means (.list ps) (.list vs)
  /-- A tuple is read as a list. -/
  | tuple {ps : List Phrase} {vs : List Value} (items : MeansItems ps vs) :
      Means (.tuple ps) (.list vs)
  /-- Parentheses around an expression do not change its value. -/
  | group {p : Phrase} {v : Value} (inner : Means p v) : Means (.group p) v
  /-- A dict holds the values of its entries. -/
  | dict {ps : List (Phrase × Phrase)} {kvs es : List (String × Value)}
      (entries : MeansEntries ps kvs) (latest : HoldsLatest kvs es) : Means (.dict ps) (.dict es)
  /-- An integer is negated. -/
  | negation {p : Phrase} {n m : Int64} (operand : Means p (.int n)) (result : m.toInt = -n.toInt) :
      Means (.negation p) (.int m)
  /-- A text is formatted with the arguments that the right operand supplies. -/
  | format {l r : Phrase} {s : String} {w : Value} {args : List Value} {cs : List Char}
      (left : Means l (.str s)) (right : Means r w) (supplied : Supplies r w args)
      (filled : fillFormat s.toList args = .ok cs) : Means (.format l r) (.str (String.ofList cs))
  /-- Texts are put together. -/
  | sumTexts {l r : Phrase} {s t : String} (left : Means l (.str s)) (right : Means r (.str t)) :
      Means (.sum l r) (.str (s ++ t))
  /-- Lists are put together. -/
  | sumLists {l r : Phrase} {vs ws : List Value} (left : Means l (.list vs))
      (right : Means r (.list ws)) : Means (.sum l r) (.list (vs ++ ws))
  /-- Integers are added. -/
  | sumIntegers {l r : Phrase} {n m k : Int64} (left : Means l (.int n)) (right : Means r (.int m))
      (result : k.toInt = n.toInt + m.toInt) : Means (.sum l r) (.int k)

/-- The values of items. -/
inductive MeansItems : List Phrase → List Value → Prop where
  /-- No items. -/
  | nil : MeansItems [] []
  /-- An item and the others. -/
  | cons {p : Phrase} {v : Value} {ps : List Phrase} {vs : List Value} (head : Means p v)
      (tail : MeansItems ps vs) : MeansItems (p :: ps) (v :: vs)

/-- The keys and values of entries. A key has to be a text. -/
inductive MeansEntries : List (Phrase × Phrase) → List (String × Value) → Prop where
  /-- No entries. -/
  | nil : MeansEntries [] []
  /-- An entry and the others. -/
  | cons {k p : Phrase} {s : String} {v : Value} {ps : List (Phrase × Phrase)}
      {kvs : List (String × Value)} (key : Means k (.str s)) (value : Means p v)
      (tail : MeansEntries ps kvs) : MeansEntries ((k, p) :: ps) ((s, v) :: kvs)

end

end

/-- The bindings of a file, evaluated in their order. The history lists the names bound so far with
their values, the latest first, so a look-up finds the latest binding. -/
inductive Binds :
    List (String × Value) → List (String × Phrase) → List (String × Value) → Prop where
  /-- No more bindings. -/
  | nil {history : List (String × Value)} : Binds history [] history
  /-- A binding is evaluated in the scope of those before it. -/
  | cons {history final : List (String × Value)} {x : String} {p : Phrase} {v : Value}
      {bs : List (String × Phrase)} (value : Means (history.lookup ·) p v)
      (tail : Binds ((x, v) :: history) bs final) : Binds history ((x, p) :: bs) final

/-! ## Operations on values, rule by rule -/

/-- 64 bits hold a result exactly if some 64-bit integer is that result. -/
theorem checkedInteger_eq_ok_iff {n : Int} {v : Value} :
    checkedInteger n = .ok v ↔ ∃ m : Int64, m.toInt = n ∧ v = .int m := by
  unfold checkedInteger
  split
  · next h =>
    -- Inside the bounds the conversion loses nothing.
    have back : (Int64.ofInt n).toInt = n := Int64.toInt_ofInt_of_le h.1 (Int.lt_add_one_of_le h.2)
    constructor
    · intro hv
      cases hv
      exact ⟨_, back, rfl⟩
    · rintro ⟨m, rfl, rfl⟩
      rw [Int64.ofInt_toInt]
  · next h =>
    constructor
    · intro hv
      cases hv
    · rintro ⟨m, rfl, -⟩
      exact absurd ⟨Int64.le_toInt m, m.toInt_le⟩ h

/-- The place of a fault is no matter to a result. -/
theorem Fault.locate_eq_ok_iff {α : Type} {place : Nat} {x : Except Cause α} {a : α} :
    Fault.locate place x = .ok a ↔ x = .ok a := by
  cases x <;> simp [Fault.locate]

variable {scope : String → Option Value}

/-- The rule for negations computes what `Value.negate` computes. -/
theorem means_negation_iff {p : Phrase} {w : Value} :
    Means scope (.negation p) w ↔ ∃ v, Means scope p v ∧ v.negate = .ok w := by
  constructor
  · intro h
    cases h with
    | negation operand result => exact ⟨_, operand, checkedInteger_eq_ok_iff.2 ⟨_, result, rfl⟩⟩
  · rintro ⟨v, operand, hw⟩
    unfold Value.negate at hw
    split at hw
    · obtain ⟨m, result, rfl⟩ := checkedInteger_eq_ok_iff.1 hw
      exact .negation operand result
    · cases hw

/-- The rules for sums compute what `Value.add` computes. -/
theorem means_sum_iff {l r : Phrase} {u : Value} :
    Means scope (.sum l r) u ↔
      ∃ v, Means scope l v ∧ ∃ w, Means scope r w ∧ v.add w = .ok u := by
  constructor
  · intro h
    cases h with
    | sumTexts left right => exact ⟨_, left, _, right, rfl⟩
    | sumLists left right => exact ⟨_, left, _, right, rfl⟩
    | sumIntegers left right result =>
      exact ⟨_, left, _, right, checkedInteger_eq_ok_iff.2 ⟨_, result, rfl⟩⟩
  · rintro ⟨v, left, w, right, hu⟩
    unfold Value.add at hu
    split at hu
    · cases hu
      exact .sumTexts left right
    · cases hu
      exact .sumLists left right
    · obtain ⟨k, result, rfl⟩ := checkedInteger_eq_ok_iff.1 hu
      exact .sumIntegers left right result
    · cases hu

section

variable {e : Expr} (bare : ∀ e', e ≠ .group e')

include bare

/-- A list that does not stand in parentheses supplies its items. -/
theorem Expr.arguments_list {vs : List Value} : e.arguments (.list vs) = vs := by
  cases e with
  | group e' => exact absurd rfl (bare e')
  | _ => rfl

/-- A value that is no list supplies itself. -/
theorem Expr.arguments_of_ne_list {v : Value} (atom : ∀ vs, v ≠ .list vs) :
    e.arguments v = [v] := by
  cases v with
  | list vs => exact absurd rfl (atom vs)
  | _ => cases e <;> rfl

end

/-- What an expression supplies as arguments is what its phrase supplies. -/
theorem Expr.supplies_iff {e : Expr} {p : Phrase} (hp : e.phrase? = some p) {v : Value}
    {args : List Value} : Supplies p v args ↔ e.arguments v = args := by
  -- Only parentheses make a difference, and the expression has them exactly if its phrase does.
  by_cases hg : ∃ q, p = .group q
  · obtain ⟨q, rfl⟩ := hg
    have he : ∃ e', e = .group e' := by
      cases e <;> simp_all [Expr.phrase?, Option.bind_eq_some_iff]
    obtain ⟨e', rfl⟩ := he
    constructor
    · intro h
      cases h with
      | items bare => exact absurd rfl (bare q)
      | group => rfl
      | single => rfl
    · rintro rfl
      exact .group
  · have bare : ∀ q, p ≠ .group q := fun q hq => hg ⟨q, hq⟩
    have he : ∀ e', e ≠ .group e' := by
      rintro e' rfl
      obtain ⟨q, -, rfl⟩ := Option.map_eq_some_iff.1 hp
      exact bare q rfl
    constructor
    · intro h
      cases h with
      | items => exact arguments_list he
      | group => exact absurd rfl (bare _)
      | single atom => exact arguments_of_ne_list he atom
    · rintro rfl
      by_cases hv : ∃ vs, v = .list vs
      · obtain ⟨vs, rfl⟩ := hv
        rw [arguments_list he]
        exact .items bare
      · have atom : ∀ vs, v ≠ .list vs := fun vs hvs => hv ⟨vs, hvs⟩
        rw [arguments_of_ne_list he atom]
        exact .single atom

/-- The rule for formats computes what `Value.formatWith` computes. -/
theorem means_format_iff {e : Expr} {l r : Phrase} (hr : e.phrase? = some r) {u : Value} :
    Means scope (.format l r) u ↔
      ∃ v, Means scope l v ∧ ∃ w, Means scope r w ∧ v.formatWith (e.arguments w) = .ok u := by
  constructor
  · intro h
    cases h with
    | format left right supplied filled =>
      obtain rfl := (Expr.supplies_iff hr).1 supplied
      exact ⟨_, left, _, right, Outcome.map_eq_ok_iff.2 ⟨_, filled, rfl⟩⟩
  · rintro ⟨v, left, w, right, hu⟩
    unfold Value.formatWith at hu
    split at hu
    · obtain ⟨cs, filled, rfl⟩ := Outcome.map_eq_ok_iff.1 hu
      exact .format left right ((Expr.supplies_iff hr).2 rfl) filled
    · cases hu

/-- The names without a constant value are those that are not one of the three. -/
theorem Value.constant?_eq_none_iff {x : String} :
    Value.constant? x = Option.none ↔ x ∉ ["None", "True", "False"] := by
  unfold Value.constant?
  split <;> simp_all

/-- A constant is the meaning of its name in every scope. -/
theorem means_name_of_constant? {x : String} {v : Value} :
    Value.constant? x = some v → Means scope (.name x) v := by
  unfold Value.constant?
  split
  · rintro ⟨⟩
    exact .none
  · rintro ⟨⟩
    exact .true
  · rintro ⟨⟩
    exact .false
  · rintro ⟨⟩

/-- What a name refers to: a constant, or the value that the scope gives it. -/
theorem Expr.lookup_eq_ok_iff {b : Bindings} {place : Nat} {x : String} {v : Value} :
    Expr.lookup b place x = .ok v ↔ Means b.get? (.name x) v := by
  unfold Expr.lookup
  constructor
  · intro h
    split at h
    · next hc =>
      cases h
      exact means_name_of_constant? hc
    · next hc hb =>
      cases h
      exact .name (Value.constant?_eq_none_iff.1 hc) hb
    · cases h
  · intro h
    cases h with
    | none => rfl
    | true => rfl
    | false => rfl
    | name ordinary bound => rw [Value.constant?_eq_none_iff.2 ordinary, bound]

/-! ## Dicts -/

/-- What a key holds after a sequence of insertions: the last value inserted for it, if there is
one. -/
theorem find?_foldl_insert {α : Type} (kvs es : List (String × α)) (k : String) :
    Entries.find? k (kvs.foldl (fun es p => Entries.insert p.1 p.2 es) es) =
      (kvs.reverse.lookup k).or (Entries.find? k es) := by
  induction kvs generalizing es with
  | nil => simp
  | cons p kvs ih =>
    obtain ⟨l, w⟩ := p
    rw [List.foldl_cons, ih, Entries.find?_insert, List.reverse_cons, List.lookup_append,
      Option.or_assoc]
    -- The first pair counts only if no later one has its key: the later ones come first in the
    -- reversed list.
    by_cases hk : k = l
    · simp [hk]
    · have hb : (k == l) = false := beq_false_of_ne hk
      simp [hk, hb, List.lookup_cons]

/-- The entries of a list of pairs are the ones that hold its latest values. -/
theorem holdsLatest_iff {kvs es : List (String × Value)} :
    HoldsLatest kvs es ↔ Entries.ofList kvs = es := by
  have hfind : ∀ k, Entries.find? k (Entries.ofList kvs) = kvs.reverse.lookup k := by
    intro k
    rw [Entries.ofList, find?_foldl_insert]
    simp
  constructor
  · rintro ⟨asc, h⟩
    refine Entries.ext (Entries.Ascending.ofList kvs) asc fun k => ?_
    rw [hfind, h]
  · rintro rfl
    exact ⟨Entries.Ascending.ofList kvs, hfind⟩

/-- In key order an entry is found from either end. -/
theorem find?_eq_lookup_reverse {α : Type} {es : List (String × α)} (asc : Entries.Ascending es)
    (k : String) : Entries.find? k es = es.reverse.lookup k := by
  induction es with
  | nil => rfl
  | cons e es ih =>
    obtain ⟨l, w⟩ := e
    rw [List.reverse_cons, List.lookup_append, ← ih (List.pairwise_cons.1 asc).2]
    by_cases hk : k = l
    · subst hk
      -- Later keys are greater, so this entry is the only one with its key.
      have hnone : Entries.find? k es = none := by
        cases hf : Entries.find? k es with
        | none => rfl
        | some b =>
          have later := (List.pairwise_cons.1 asc).1 _ (Entries.mem_of_find? hf)
          simp at later
      rw [hnone, Entries.find?_cons_self]
      simp
    · have hb : (k == l) = false := beq_false_of_ne hk
      rw [Entries.find?_cons_of_ne hk]
      simp [hb, List.lookup_cons]

/-- Entries in key order hold their own latest values. -/
theorem holdsLatest_self {es : List (String × Value)} (asc : Entries.Ascending es) :
    HoldsLatest es es :=
  ⟨asc, find?_eq_lookup_reverse asc⟩

/-- Entries in key order are the table that they make up. -/
theorem ofList_eq_self {α : Type} {es : List (String × α)} (asc : Entries.Ascending es) :
    Entries.ofList es = es := by
  refine Entries.ext (Entries.Ascending.ofList es) asc fun k => ?_
  rw [Entries.ofList, find?_foldl_insert, find?_eq_lookup_reverse asc]
  simp

/-! ## Evaluation follows the rules -/

/-- A key is taken if it is a text. -/
theorem Expr.key_eq_ok_iff {place : Nat} {v : Value} {s : String} :
    Expr.key place v = .ok s ↔ v = .str s := by
  unfold Expr.key
  split <;> simp_all

namespace Expr

mutual

/-- Evaluation succeeds exactly on the expressions that do not break off and whose phrase has a
value, with that value. -/
theorem eval_eq_ok_iff {b : Bindings} {e : Expr} {v : Value} :
    e.eval b = .ok v ↔ ∃ p, e.phrase? = some p ∧ Means b.get? p v := by
  cases e with
  | string s =>
    simp only [eval, phrase?, Except.ok.injEq, Option.some.injEq, exists_eq_left']
    constructor
    · rintro rfl
      exact .text s
    · intro h
      cases h
      rfl
  | integer n =>
    simp only [eval, phrase?, Except.ok.injEq, Option.some.injEq, exists_eq_left']
    constructor
    · rintro rfl
      exact .integer n
    · intro h
      cases h
      rfl
  | name place x =>
    simp only [eval, phrase?, Option.some.injEq, exists_eq_left']
    exact lookup_eq_ok_iff
  | list items =>
    simp only [eval, phrase?, Outcome.bind_eq_ok_iff, Outcome.pure_eq_ok_iff, evalItems_eq_ok_iff,
      Option.map_eq_some_iff]
    constructor
    · rintro ⟨vs, ⟨ps, hps, hvs⟩, rfl⟩
      exact ⟨_, ⟨ps, hps, rfl⟩, .list hvs⟩
    · rintro ⟨_, ⟨ps, hps, rfl⟩, hv⟩
      cases hv with
      | list hvs => exact ⟨_, ⟨ps, hps, hvs⟩, rfl⟩
  | tuple items =>
    simp only [eval, phrase?, Outcome.bind_eq_ok_iff, Outcome.pure_eq_ok_iff, evalItems_eq_ok_iff,
      Option.map_eq_some_iff]
    constructor
    · rintro ⟨vs, ⟨ps, hps, hvs⟩, rfl⟩
      exact ⟨_, ⟨ps, hps, rfl⟩, .tuple hvs⟩
    · rintro ⟨_, ⟨ps, hps, rfl⟩, hv⟩
      cases hv with
      | tuple hvs => exact ⟨_, ⟨ps, hps, hvs⟩, rfl⟩
  | group e =>
    -- Parentheses do not change the value, but they stay in the phrase, where `%` looks for them.
    simp only [eval, phrase?, eval_eq_ok_iff (e := e), Option.map_eq_some_iff]
    constructor
    · rintro ⟨p, hp, hv⟩
      exact ⟨_, ⟨p, hp, rfl⟩, .group hv⟩
    · rintro ⟨_, ⟨p, hp, rfl⟩, hv⟩
      cases hv with
      | group inner => exact ⟨p, hp, inner⟩
  | dict entries =>
    simp only [eval, phrase?, Outcome.bind_eq_ok_iff, Outcome.pure_eq_ok_iff,
      evalEntries_eq_ok_iff, Option.map_eq_some_iff]
    constructor
    -- The entries that evaluation sorts are the ones that hold the latest values.
    · rintro ⟨kvs, ⟨ps, hps, hkvs⟩, rfl⟩
      exact ⟨_, ⟨ps, hps, rfl⟩, .dict hkvs (holdsLatest_iff.2 rfl)⟩
    · rintro ⟨_, ⟨ps, hps, rfl⟩, hv⟩
      cases hv with
      | dict hkvs latest => exact ⟨_, ⟨ps, hps, hkvs⟩, congrArg _ (holdsLatest_iff.1 latest)⟩
  | negation place e =>
    simp only [eval, phrase?, Outcome.bind_eq_ok_iff, Fault.locate_eq_ok_iff,
      eval_eq_ok_iff (e := e), Option.map_eq_some_iff]
    constructor
    · rintro ⟨w, ⟨p, hp, hw⟩, hv⟩
      exact ⟨_, ⟨p, hp, rfl⟩, means_negation_iff.2 ⟨w, hw, hv⟩⟩
    · rintro ⟨_, ⟨p, hp, rfl⟩, hv⟩
      obtain ⟨w, hw, hv⟩ := means_negation_iff.1 hv
      exact ⟨w, ⟨p, hp, hw⟩, hv⟩
  | format place left right =>
    simp only [eval, phrase?, Outcome.bind_eq_ok_iff, Fault.locate_eq_ok_iff,
      eval_eq_ok_iff (e := left), eval_eq_ok_iff (e := right), Option.bind_eq_some_iff,
      Option.pure_def, Option.bind_eq_bind, Option.some.injEq]
    constructor
    · rintro ⟨u, ⟨l, hl, hu⟩, w, ⟨r, hr, hw⟩, hv⟩
      exact ⟨_, ⟨l, hl, r, hr, rfl⟩, (means_format_iff hr).2 ⟨u, hu, w, hw, hv⟩⟩
    · rintro ⟨_, ⟨l, hl, r, hr, rfl⟩, hv⟩
      obtain ⟨u, hu, w, hw, hv⟩ := (means_format_iff hr).1 hv
      exact ⟨u, ⟨l, hl, hu⟩, w, ⟨r, hr, hw⟩, hv⟩
  | sum place left right =>
    simp only [eval, phrase?, Outcome.bind_eq_ok_iff, Fault.locate_eq_ok_iff,
      eval_eq_ok_iff (e := left), eval_eq_ok_iff (e := right), Option.bind_eq_some_iff,
      Option.pure_def, Option.bind_eq_bind, Option.some.injEq]
    constructor
    · rintro ⟨u, ⟨l, hl, hu⟩, w, ⟨r, hr, hw⟩, hv⟩
      exact ⟨_, ⟨l, hl, r, hr, rfl⟩, means_sum_iff.2 ⟨u, hu, w, hw, hv⟩⟩
    · rintro ⟨_, ⟨l, hl, r, hr, rfl⟩, hv⟩
      obtain ⟨u, hu, w, hw, hv⟩ := means_sum_iff.1 hv
      exact ⟨u, ⟨l, hl, hu⟩, w, ⟨r, hr, hw⟩, hv⟩
  | broken f => simp [eval, phrase?]

/-- The same of items. -/
theorem evalItems_eq_ok_iff {b : Bindings} {es : List Expr} {vs : List Value} :
    evalItems b es = .ok vs ↔ ∃ ps, phraseItems? es = some ps ∧ MeansItems b.get? ps vs := by
  cases es with
  | nil =>
    simp only [evalItems, phraseItems?, Except.ok.injEq, Option.some.injEq, exists_eq_left']
    constructor
    · rintro rfl
      exact .nil
    · intro h
      cases h
      rfl
  | cons e es =>
    have later := @evalItems_eq_ok_iff b es
    simp only [evalItems, phraseItems?, Outcome.bind_eq_ok_iff, Outcome.pure_eq_ok_iff,
      eval_eq_ok_iff (e := e), later, Option.bind_eq_some_iff, Option.pure_def,
      Option.bind_eq_bind, Option.some.injEq]
    constructor
    · rintro ⟨v, ⟨p, hp, hv⟩, ws, ⟨ps, hps, hws⟩, rfl⟩
      exact ⟨_, ⟨p, hp, ps, hps, rfl⟩, .cons hv hws⟩
    · rintro ⟨_, ⟨p, hp, ps, hps, rfl⟩, h⟩
      cases h with
      | cons hv hws => exact ⟨_, ⟨p, hp, hv⟩, _, ⟨ps, hps, hws⟩, rfl⟩

/-- The same of entries. -/
theorem evalEntries_eq_ok_iff {b : Bindings} {es : List (Nat × Expr × Expr)}
    {kvs : List (String × Value)} :
    evalEntries b es = .ok kvs ↔
      ∃ ps, phraseEntries? es = some ps ∧ MeansEntries b.get? ps kvs := by
  cases es with
  | nil =>
    simp only [evalEntries, phraseEntries?, Except.ok.injEq, Option.some.injEq, exists_eq_left']
    constructor
    · rintro rfl
      exact .nil
    · intro h
      cases h
      rfl
  | cons entry es =>
    obtain ⟨place, k, e⟩ := entry
    have later := @evalEntries_eq_ok_iff b es
    simp only [evalEntries, phraseEntries?, Outcome.bind_eq_ok_iff, Outcome.pure_eq_ok_iff,
      key_eq_ok_iff, eval_eq_ok_iff (e := k), eval_eq_ok_iff (e := e), later,
      Option.bind_eq_some_iff, Option.pure_def, Option.bind_eq_bind, Option.some.injEq]
    constructor
    · rintro ⟨_, ⟨q, hq, hk⟩, s, rfl, v, ⟨p, hp, hv⟩, kvs', ⟨ps, hps, hkvs⟩, rfl⟩
      exact ⟨_, ⟨q, hq, p, hp, ps, hps, rfl⟩, .cons hk hv hkvs⟩
    · rintro ⟨_, ⟨q, hq, p, hp, ps, hps, rfl⟩, h⟩
      cases h with
      | cons hk hv hkvs =>
        exact ⟨_, ⟨q, hq, hk⟩, _, rfl, _, ⟨p, hp, hv⟩, _, ⟨ps, hps, hkvs⟩, rfl⟩

end

end Expr

/-! ## At most one value -/

/-- An operand of `%` supplies one list of arguments at most: it is either a group, or a list, or
one value. -/
theorem Supplies.unique {p : Phrase} {v : Value} {args args' : List Value}
    (h : Supplies p v args) (h' : Supplies p v args') : args = args' := by
  cases h with
  | items bare =>
    cases h' with
    | items => rfl
    | group => exact absurd rfl (bare _)
    | single atom => exact absurd rfl (atom _)
  | group =>
    cases h' with
    | items bare => exact absurd rfl (bare _)
    | group => rfl
    | single => rfl
  | single atom =>
    cases h' with
    | items => exact absurd rfl (atom _)
    | group => rfl
    | single => rfl

/-- What a name refers to depends on whether it is a constant. -/
theorem Means.eq_or {x : String} {v : Value} (h : Means scope (.name x) v) :
    (Value.constant? x).or (scope x) = some v := by
  cases h with
  | none => rfl
  | true => rfl
  | false => rfl
  | name ordinary bound => rw [Value.constant?_eq_none_iff.2 ordinary, Option.none_or, bound]

mutual

/-- A phrase has no more than one value. -/
theorem Means.unique {p : Phrase} {v w : Value} (h : Means scope p v) (h' : Means scope p w) :
    v = w := by
  match h with
  | .text s | .integer n =>
    cases h'
    rfl
  -- The names of the constants are looked up in no scope.
  | .none | .true | .false => exact Option.some.inj h'.eq_or
  | .name ordinary bound =>
    exact Option.some.inj ((Means.name ordinary bound).eq_or.symm.trans h'.eq_or)
  | .list items =>
    cases h' with
    | list items' => rw [items.unique items']
  | .tuple items =>
    cases h' with
    | tuple items' => rw [items.unique items']
  | .group inner =>
    cases h' with
    | group inner' => exact inner.unique inner'
  | .dict entries latest =>
    cases h' with
    | dict entries' latest' =>
      obtain rfl := entries.unique entries'
      -- The latest entries determine the dict, in whatever order they are written.
      rw [← holdsLatest_iff.1 latest, holdsLatest_iff.1 latest']
  | .negation operand result =>
    cases h' with
    | negation operand' result' =>
      obtain rfl := Value.int.inj (operand.unique operand')
      rw [Int64.toInt_inj.1 (result.trans result'.symm)]
  | .format left right supplied filled =>
    cases h' with
    | format left' right' supplied' filled' =>
      obtain rfl := Value.str.inj (left.unique left')
      obtain rfl := right.unique right'
      obtain rfl := supplied.unique supplied'
      obtain rfl := Except.ok.inj (filled.symm.trans filled')
      rfl
  -- The kind of the left operand decides which of the three sums it is.
  | .sumTexts left right =>
    cases h' with
    | sumTexts left' right' =>
      rw [Value.str.inj (left.unique left'), Value.str.inj (right.unique right')]
    | sumLists left' | sumIntegers left' => cases left.unique left'
  | .sumLists left right =>
    cases h' with
    | sumLists left' right' =>
      rw [Value.list.inj (left.unique left'), Value.list.inj (right.unique right')]
    | sumTexts left' | sumIntegers left' => cases left.unique left'
  | .sumIntegers left right result =>
    cases h' with
    | sumIntegers left' right' result' =>
      obtain rfl := Value.int.inj (left.unique left')
      obtain rfl := Value.int.inj (right.unique right')
      rw [Int64.toInt_inj.1 (result.trans result'.symm)]
    | sumTexts left' | sumLists left' => cases left.unique left'

/-- The same of items. -/
theorem MeansItems.unique {ps : List Phrase} {vs ws : List Value} (h : MeansItems scope ps vs)
    (h' : MeansItems scope ps ws) : vs = ws := by
  match h with
  | .nil =>
    cases h'
    rfl
  | .cons head tail =>
    cases h' with
    | cons head' tail' => rw [head.unique head', tail.unique tail']

/-- The same of entries. -/
theorem MeansEntries.unique {ps : List (Phrase × Phrase)} {kvs lws : List (String × Value)}
    (h : MeansEntries scope ps kvs) (h' : MeansEntries scope ps lws) : kvs = lws := by
  match h with
  | .nil =>
    cases h'
    rfl
  | .cons key value tail =>
    cases h' with
    | cons key' value' tail' =>
      rw [Value.str.inj (key.unique key'), value.unique value', tail.unique tail']

end

/-- Bindings end in no more than one history. -/
theorem Binds.unique {history final final' : List (String × Value)} {ps : List (String × Phrase)}
    (h : Binds history ps final) (h' : Binds history ps final') : final = final' := by
  induction h with
  | nil =>
    cases h'
    rfl
  | cons value tail ih =>
    cases h' with
    | cons value' tail' =>
      obtain rfl := value.unique value'
      exact ih tail'

/-! ## Files -/

/-- A map holds what a history does: of each name, the latest value. -/
def SameScope (b : Bindings) (history : List (String × Value)) : Prop :=
  ∀ x, b.get? x = history.lookup x

/-- Nothing is bound where there is no history. -/
theorem sameScope_empty : SameScope ∅ [] := fun _ => rfl

/-- Two maps that hold what one history does are equal. -/
theorem SameScope.unique {b b' : Bindings} {history : List (String × Value)}
    (h : SameScope b history) (h' : SameScope b' history) : b = b' :=
  OrderedMap.ext fun x => (h x).trans (h' x).symm

/-- An insertion is the next event of the history. -/
theorem SameScope.insert {b : Bindings} {history : List (String × Value)}
    (h : SameScope b history) (x : String) (v : Value) :
    SameScope (b.insert x v) ((x, v) :: history) := by
  intro y
  rw [OrderedMap.get?_insert]
  by_cases hy : y = x
  · simp [hy]
  · have hb : (y == x) = false := beq_false_of_ne hy
    simp [hy, hb, List.lookup_cons, h y]

namespace File

/-- Bindings evaluate to a map exactly if no expression breaks off and the rules bind the same
names to the same values. -/
theorem evalBindings_eq_ok_iff {bs : List (String × Expr)} {b b' : Bindings}
    {history : List (String × Value)} (same : SameScope b history) :
    evalBindings b bs = .ok b' ↔
      ∃ ps final, phraseBindings? bs = some ps ∧ Binds history ps final ∧ SameScope b' final := by
  induction bs generalizing b history with
  | nil =>
    simp only [evalBindings, phraseBindings?, Except.ok.injEq, Option.some.injEq]
    constructor
    · rintro rfl
      exact ⟨_, _, rfl, .nil, same⟩
    · rintro ⟨_, _, rfl, binds, same'⟩
      cases binds
      exact same.unique same'
  | cons entry bs ih =>
    obtain ⟨x, e⟩ := entry
    -- The map and the history are one scope, so the rules see what evaluation sees.
    have hscope : b.get? = (history.lookup ·) := funext same
    simp only [evalBindings, phraseBindings?, Outcome.bind_eq_ok_iff, Expr.eval_eq_ok_iff,
      Option.bind_eq_some_iff, Option.pure_def, Option.bind_eq_bind, Option.some.injEq, hscope]
    constructor
    · rintro ⟨v, ⟨p, hp, hv⟩, rest⟩
      obtain ⟨ps, final, hps, binds, same'⟩ := (ih (same.insert x v)).1 rest
      exact ⟨_, final, ⟨p, hp, ps, hps, rfl⟩, .cons hv binds, same'⟩
    · rintro ⟨_, final, ⟨p, hp, ps, hps, rfl⟩, binds, same'⟩
      cases binds with
      | cons hv binds =>
        exact ⟨_, ⟨p, hp, hv⟩, (ih (same.insert x _)).2 ⟨ps, final, hps, binds, same'⟩⟩

/-- A file evaluates to a map exactly if it has no fault, no expression of it breaks off, and the
rules bind the same names to the same values. -/
theorem eval_eq_ok_iff {f : File} {b : Bindings} :
    f.eval = .ok b ↔ f.fault = none ∧
      ∃ ps final, phraseBindings? f.bindings = some ps ∧ Binds [] ps final ∧ SameScope b final := by
  rw [← evalBindings_eq_ok_iff sameScope_empty]
  unfold eval
  rw [Outcome.bind_eq_ok_iff]
  cases f.fault with
  | none => simp [Outcome.pure_eq_ok_iff]
  | some fault => simp

end File

end OverlaySync.Deps
