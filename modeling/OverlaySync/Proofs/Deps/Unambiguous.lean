import OverlaySync.Proofs.Deps.Assignments

/-! # Written values can be told apart

Different values have different texts, and none of these is the start of another one: if two texts
go on behind a laid out value in such a way that they are the same as a whole, then the values are
the same, and so is what follows them. This does not go through the reader, so it holds of all
values, also of those that are not read back.

A value is recognised by its first character (`Opens.unique`). Behind it, digits end at a border, a
quoted text at its quote, and a container at its closing mark, in front of which there is less
indentation than in front of an item.

Main statements: `Value.layout_append_inj` and, for whole files, `assignments_inj`. -/

namespace OverlaySync.Deps

/-! ## First characters -/

/-- The kinds of values that differ in their first characters. -/
inductive Shape where
  | absent | yes | no | integer | text | list | dict
  deriving DecidableEq

/-- The kind of a value. -/
def Value.shape : Value → Shape
  | .none => .absent
  | .bool true => .yes
  | .bool false => .no
  | .int _ => .integer
  | .str _ => .text
  | .list _ => .list
  | .dict _ => .dict

/-- The kind of the values that a character opens. -/
def Shape.of? (c : Char) : Option Shape :=
  if c = 'N' then some .absent
  else if c = 'T' then some .yes
  else if c = 'F' then some .no
  else if c = '-' ∨ c.isDigit then some .integer
  else if c = '\'' then some .text
  else if c = '[' then some .list
  else if c = '\x7b' then some .dict
  else none

/-- A digit opens an integer. -/
theorem Shape.of?_of_isDigit {c : Char} (h : c.isDigit = true) : Shape.of? c = some .integer := by
  have other : ∀ d ∈ ['N', 'T', 'F'], c ≠ d := by
    rintro d hd rfl
    have apart : ['N', 'T', 'F'].all (!·.isDigit) = true := by decide
    have hdigit := List.all_eq_true.1 apart c hd
    simp [h] at hdigit
  simp only [List.mem_cons, List.not_mem_nil, or_false, forall_eq_or_imp, forall_eq] at other
  simp [Shape.of?, other, h]

/-- The characters open with one that tells the kind of the value. -/
def Opens (v : Value) (cs : List Char) : Prop :=
  ∃ c rest, cs = c :: rest ∧ Shape.of? c = some v.shape

/-- What stands behind a value does not change how it opens. -/
theorem Opens.append {v : Value} {cs : List Char} (h : Opens v cs) (rest : List Char) :
    Opens v (cs ++ rest) := by
  obtain ⟨c, more, rfl, hc⟩ := h
  exact ⟨c, more ++ rest, rfl, hc⟩

/-- Values that open the same characters are of the same kind. -/
theorem Opens.unique {v w : Value} {cs : List Char} (h : Opens v cs) (h' : Opens w cs) :
    v.shape = w.shape := by
  obtain ⟨c, rest, rfl, hc⟩ := h
  obtain ⟨c', rest', hcs, hc'⟩ := h'
  cases hcs
  exact Option.some.inj (hc.symm.trans hc')

/-- A character that opens no value is not the first one of a value. -/
theorem Opens.ne_cons {v : Value} {cs : List Char} (h : Opens v cs) {c : Char}
    (hc : Shape.of? c = none) (rest : List Char) : cs ≠ c :: rest := by
  rintro rfl
  obtain ⟨c', rest', hcs, hc'⟩ := h
  cases hcs
  rw [hc] at hc'
  cases hc'

/-- An integer opens with a digit or a minus sign. -/
theorem opens_decimal (n : Int64) : Opens (.int n) (decimal n.toInt) := by
  unfold decimal
  split
  · exact ⟨'-', _, rfl, rfl⟩
  · cases hdigits : Nat.toDigits 10 n.toInt.toNat with
    | nil => exact absurd hdigits Nat.toDigits_ne_nil
    | cons c cs =>
      have hc : c ∈ Nat.toDigits 10 n.toInt.toNat := hdigits ▸ List.mem_cons_self
      have hdigit := Nat.isDigit_of_mem_toDigits (by decide) (by decide) hc
      exact ⟨c, cs, rfl, Shape.of?_of_isDigit hdigit⟩

namespace Value

/-- On one line a value opens with a character of its kind. -/
theorem opens_inline (v : Value) : Opens v v.inline := by
  match v with
  | .none => exact ⟨_, _, rfl, rfl⟩
  | .bool true => exact ⟨_, _, rfl, rfl⟩
  | .bool false => exact ⟨_, _, rfl, rfl⟩
  | .int n => exact opens_decimal n
  | .str s => exact ⟨_, _, rfl, rfl⟩
  | .list items => exact ⟨_, _, rfl, rfl⟩
  | .dict es => exact ⟨_, _, rfl, rfl⟩

/-- On lines of its own a value opens with a character of its kind. -/
theorem opens_layout (depth : Nat) (v : Value) : Opens v (v.layout depth) := by
  match v with
  | .none | .bool _ | .int _ | .str _ => exact opens_inline _
  | .list items =>
    rw [layout]
    split <;> exact ⟨_, _, rfl, rfl⟩
  | .dict [] => exact ⟨_, _, rfl, rfl⟩
  | .dict (e :: es) => exact ⟨_, _, rfl, rfl⟩

end Value

/-! ## Scalars -/

/-- Digits that end at a border can be told from others. -/
theorem toDigits_append_inj {m n : Nat} {r s : List Char} (hr : Border r) (hs : Border s)
    (h : Nat.toDigits 10 m ++ r = Nat.toDigits 10 n ++ s) : m = n ∧ r = s := by
  have isDigit : ∀ k, ∀ c ∈ Nat.toDigits 10 k, c.isDigit = true := fun k c hc =>
    Nat.isDigit_of_mem_toDigits (by decide) (by decide) hc
  obtain ⟨takeLeft, dropLeft⟩ := takeWhile_append_border (isDigit m) hr.isDigit_eq_false
  obtain ⟨takeRight, dropRight⟩ := takeWhile_append_border (isDigit n) hs.isDigit_eq_false
  have digits : Nat.toDigits 10 m = Nat.toDigits 10 n := by rw [← takeLeft, h, takeRight]
  have value : ∀ k, Nat.ofDigitChars 10 (Nat.toDigits 10 k) 0 = k := fun k =>
    Nat.ofDigitChars_ten_toDigits
  exact ⟨by rw [← value m, digits, value], by rw [← dropLeft, h, dropRight]⟩

/-- Digits do not start with a minus sign. -/
theorem toDigits_append_ne_minus (n : Nat) (r s : List Char) :
    Nat.toDigits 10 n ++ r ≠ '-' :: s := by
  intro h
  cases hdigits : Nat.toDigits 10 n with
  | nil => exact absurd hdigits Nat.toDigits_ne_nil
  | cons c cs =>
    have hc : c ∈ Nat.toDigits 10 n := hdigits ▸ List.mem_cons_self
    have hdigit := Nat.isDigit_of_mem_toDigits (by decide) (by decide) hc
    rw [hdigits] at h
    cases h
    exact absurd hdigit (by decide)

/-- Integers that end at a border can be told from others. -/
theorem decimal_append_inj {m n : Int} {r s : List Char} (hr : Border r) (hs : Border s)
    (h : decimal m ++ r = decimal n ++ s) : m = n ∧ r = s := by
  unfold decimal at h
  split at h <;> split at h
  · obtain ⟨habs, hrest⟩ := toDigits_append_inj hr hs (List.cons.inj h).2
    exact ⟨by omega, hrest⟩
  · exact absurd h.symm (toDigits_append_ne_minus _ _ _)
  · exact absurd h (toDigits_append_ne_minus _ _ _)
  · obtain ⟨habs, hrest⟩ := toDigits_append_inj hr hs h
    exact ⟨by omega, hrest⟩

/-- Quoted texts can be told from others, whatever follows. -/
theorem quote_append_inj {a b : String} {r s : List Char} (h : quote a ++ r = quote b ++ s) :
    a = b ∧ r = s := by
  have read : ∀ (a : String) (r : List Char), quoted? '\'' ((quote a).tail ++ r) =
      some ⟨a.toList, (quote a).tail, r⟩ := by
    intro a r
    have hread := quoted?_flatMap_escape a.toList r
    simpa [quote] using hread
  have tails : (quote a).tail ++ r = (quote b).tail ++ s := by
    simpa [quote] using h
  have same := (read a r).symm.trans (tails ▸ read b s)
  simp only [Option.some.injEq, Quoted.mk.injEq, String.toList_inj] at same
  exact ⟨same.1, same.2.2⟩

namespace Value

/-- Scalars can be told from others. -/
theorem inline_append_inj {v w : Value} (hv : v.isAtom = true) (hw : w.isAtom = true)
    {r s : List Char} (hr : Border r) (hs : Border s) (h : v.inline ++ r = w.inline ++ s) :
    v = w ∧ r = s := by
  have same : v.shape = w.shape :=
    (v.opens_inline.append r).unique (h ▸ w.opens_inline.append s)
  match v, w with
  | .none, .none => exact ⟨rfl, List.append_cancel_left h⟩
  | .bool true, .bool true => exact ⟨rfl, List.append_cancel_left h⟩
  | .bool false, .bool false => exact ⟨rfl, List.append_cancel_left h⟩
  | .int m, .int n =>
    obtain ⟨hmn, hrest⟩ := decimal_append_inj hr hs h
    exact ⟨congrArg _ (Int64.toInt_inj.1 hmn), hrest⟩
  | .str a, .str b =>
    obtain ⟨rfl, hrest⟩ := quote_append_inj h
    exact ⟨rfl, hrest⟩

/-! ## Containers -/

/-- Behind the first item on a line, every item has a comma before it. -/
theorem inlineItems_cons (v : Value) (vs : List Value) :
    inlineItems (v :: vs) = v.inline ++ vs.flatMap fun w => ',' :: ' ' :: w.inline := by
  induction vs generalizing v with
  | nil => simp [inlineItems]
  | cons w vs ih => simp [inlineItems, ih]

/-- Items on one line open as the first of them does. -/
theorem opens_inlineItems (v : Value) (vs : List Value) : Opens v (inlineItems (v :: vs)) := by
  rw [inlineItems_cons]
  exact v.opens_inline.append _

/-- Items on one line do not start with the end of a line. -/
theorem inlineItems_append_ne_newline (vs : List Value) (r s : List Char) :
    inlineItems vs ++ ']' :: r ≠ '\n' :: s := by
  cases vs with
  | nil => exact fun h => absurd (List.cons.inj h).1 (by decide)
  | cons v vs => exact ((opens_inlineItems v vs).append _).ne_cons rfl s

/-- Scalars on one line can be told from others, up to the end of their list. -/
theorem inlineItems_append_inj {vs ws : List Value} (hvs : ∀ v ∈ vs, v.isAtom = true)
    (hws : ∀ w ∈ ws, w.isAtom = true) {r s : List Char}
    (h : inlineItems vs ++ ']' :: r = inlineItems ws ++ ']' :: s) : vs = ws ∧ r = s := by
  match vs, ws with
  | [], [] => exact ⟨rfl, (List.cons.inj h).2⟩
  | [], w :: ws => exact absurd h.symm (((opens_inlineItems w ws).append _).ne_cons rfl _)
  | v :: vs, [] => exact absurd h (((opens_inlineItems v vs).append _).ne_cons rfl _)
  | v :: vs, w :: ws =>
    obtain ⟨hv, later⟩ := List.forall_mem_cons.1 hvs
    obtain ⟨hw, later'⟩ := List.forall_mem_cons.1 hws
    let row : Value → List Char := fun w => ',' :: ' ' :: w.inline
    have border : ∀ (vs : List Value) (r : List Char), Border (vs.flatMap row ++ ']' :: r) := by
      intro vs r
      cases vs with
      | nil => exact .cons (by decide) _
      | cons v vs => exact .cons (by decide) _
    rw [inlineItems_cons, inlineItems_cons, List.append_assoc, List.append_assoc] at h
    obtain ⟨rfl, hrows⟩ := inline_append_inj hv hw (border vs r) (border ws s) h
    -- Behind the first item a comma is one more item, and the bracket is the end.
    have stops : ∀ (r : List Char) (w : Value) (rest : List Char), ']' :: r ≠ row w ++ rest :=
      fun _ _ _ h => absurd (List.cons.inj h).1 (by decide)
    have rows := flatMap_append_inj (K := Border)
      (fun v hv w hw r s hr hs h => inline_append_inj (later v hv) (later' w hw) hr hs
        (List.cons.inj (List.cons.inj h).2).2)
      (fun _ _ => .cons (by decide) _) (.cons (by decide) _) (.cons (by decide) _)
      (stops r) (stops s) hrows
    exact ⟨congrArg _ rows.1, (List.cons.inj rows.2).2⟩

/-- Items on lines of their own are each indented and end in a comma. -/
theorem layoutItems_eq_flatMap (depth : Nat) (vs : List Value) :
    layoutItems depth vs = vs.flatMap fun v => indent depth ++ (v.layout depth ++ [',', '\n']) := by
  induction vs with
  | nil => rfl
  | cons v vs ih => simp [layoutItems, ih]

/-- Entries on lines of their own are each indented, with their quoted key in front, and end in a
comma. -/
theorem layoutEntries_eq_flatMap (depth : Nat) (es : List (String × Value)) :
    layoutEntries depth es = es.flatMap fun e =>
      indent depth ++ (quote e.1 ++ ([':', ' '] ++ (e.2.layout depth ++ [',', '\n']))) := by
  induction es with
  | nil => rfl
  | cons e es ih =>
    obtain ⟨k, v⟩ := e
    simp [layoutEntries, ih]

/-- A line that ends a container is indented less than the lines in it. -/
theorem indent_append_ne {c : Char} (hc : c ≠ ' ') (depth : Nat) (r s : List Char) :
    indent depth ++ c :: r ≠ indent (depth + 1) ++ s := by
  intro h
  have deeper : indent (depth + 1) = indent depth ++ [' ', ' '] := by
    rw [indent, indent, Nat.mul_succ, ← List.replicate_append_replicate]
    rfl
  rw [deeper, List.append_assoc] at h
  exact hc (List.cons.inj (List.append_cancel_left h)).1

/-- At a depth, the layout of the value is told from that of any other. -/
def Recognised (depth : Nat) (v : Value) : Prop :=
  ∀ (w : Value) (r s : List Char), Border r → Border s →
    v.layout depth ++ r = w.layout depth ++ s → v = w ∧ r = s

/-- Lines of items can be told from others, up to the end of their list. -/
theorem layoutItems_append_inj {depth : Nat} {vs ws : List Value}
    (items : ∀ v ∈ vs, Recognised (depth + 1) v) {r s : List Char}
    (h : layoutItems (depth + 1) vs ++ (indent depth ++ ']' :: r) =
      layoutItems (depth + 1) ws ++ (indent depth ++ ']' :: s)) : vs = ws ∧ r = s := by
  rw [layoutItems_eq_flatMap, layoutItems_eq_flatMap] at h
  have rows := flatMap_append_inj (K := fun _ => True)
    (fun v hv w _ r s _ _ h => by
      simp only [List.append_assoc] at h
      obtain ⟨hvw, hrest⟩ := items v hv w _ _ (.cons (by decide) _) (.cons (by decide) _)
        (List.append_cancel_left h)
      exact ⟨hvw, (List.cons.inj (List.cons.inj hrest).2).2⟩)
    (fun _ _ => trivial) trivial trivial
    (fun w rest h => indent_append_ne (by decide) depth _ _ (h.trans (List.append_assoc ..)))
    (fun w rest h => indent_append_ne (by decide) depth _ _ (h.trans (List.append_assoc ..))) h
  exact ⟨rows.1, (List.cons.inj (List.append_cancel_left rows.2)).2⟩

/-- Lines of entries can be told from others, up to the end of their dict. -/
theorem layoutEntries_append_inj {depth : Nat} {ds es : List (String × Value)}
    (values : ∀ d ∈ ds, Recognised (depth + 1) d.2) {r s : List Char}
    (h : layoutEntries (depth + 1) ds ++ (indent depth ++ '\x7d' :: r) =
      layoutEntries (depth + 1) es ++ (indent depth ++ '\x7d' :: s)) : ds = es ∧ r = s := by
  rw [layoutEntries_eq_flatMap, layoutEntries_eq_flatMap] at h
  have rows := flatMap_append_inj (K := fun _ => True)
    (fun d hd e _ r s _ _ h => by
      simp only [List.append_assoc] at h
      obtain ⟨hkey, hvalue⟩ := quote_append_inj (List.append_cancel_left h)
      obtain ⟨hvw, hrest⟩ := values d hd e.2 _ _ (.cons (by decide) _) (.cons (by decide) _)
        (List.append_cancel_left hvalue)
      exact ⟨Prod.ext hkey hvw, (List.cons.inj (List.cons.inj hrest).2).2⟩)
    (fun _ _ => trivial) trivial trivial
    (fun w rest h => indent_append_ne (by decide) depth _ _ (h.trans (List.append_assoc ..)))
    (fun w rest h => indent_append_ne (by decide) depth _ _ (h.trans (List.append_assoc ..))) h
  exact ⟨rows.1, (List.cons.inj (List.append_cancel_left rows.2)).2⟩

/-- A value that is laid out can be told from any other one, up to what follows it. -/
theorem layout_append_inj (depth : Nat) (v w : Value) {r s : List Char} (hr : Border r)
    (hs : Border s) (h : v.layout depth ++ r = w.layout depth ++ s) : v = w ∧ r = s := by
  have same : v.shape = w.shape :=
    ((v.opens_layout depth).append r).unique (h ▸ (w.opens_layout depth).append s)
  match v, w with
  | .none, .none => exact inline_append_inj rfl rfl hr hs h
  | .bool true, .bool true => exact inline_append_inj rfl rfl hr hs h
  | .bool false, .bool false => exact inline_append_inj rfl rfl hr hs h
  | .int _, .int _ => exact inline_append_inj rfl rfl hr hs h
  | .str _, .str _ => exact inline_append_inj rfl rfl hr hs h
  | .list vs, .list ws =>
    have items : ∀ v ∈ vs, Recognised (depth + 1) v := fun v hv w r s hr hs h =>
      layout_append_inj (depth + 1) v w hr hs h
    rw [layout, layout] at h
    -- A list is on one line or over several, as its items say.
    split at h <;> split at h
    · next hvs hws =>
      obtain ⟨hitems, hrest⟩ := inlineItems_append_inj (List.all_eq_true.1 hvs)
        (List.all_eq_true.1 hws) (by simpa using h)
      exact ⟨congrArg _ hitems, hrest⟩
    · exact absurd (by simpa using h) (inlineItems_append_ne_newline vs r _)
    · exact absurd (by simpa using h.symm) (inlineItems_append_ne_newline ws s _)
    · obtain ⟨hitems, hrest⟩ := layoutItems_append_inj items (r := r) (s := s) (by simpa using h)
      exact ⟨congrArg _ hitems, hrest⟩
  | .dict [], .dict [] => exact ⟨rfl, List.append_cancel_left h⟩
  | .dict [], .dict (_ :: _) => cases h
  | .dict (_ :: _), .dict [] => cases h
  | .dict (d :: ds), .dict (e :: es) =>
    have values : ∀ x ∈ d :: ds, Recognised (depth + 1) x.2 := fun x hx w r s hr hs h =>
      layout_append_inj (depth + 1) x.2 w hr hs h
    rw [layout, layout] at h
    obtain ⟨hentries, hrest⟩ := layoutEntries_append_inj values (r := r) (s := s) (by simpa using h)
    exact ⟨congrArg _ hentries, hrest⟩
termination_by sizeOf v
decreasing_by
  · have := List.sizeOf_lt_of_mem hv
    simp
    omega
  · obtain ⟨k, x⟩ := x
    have := List.sizeOf_lt_of_mem hx
    simp at this ⊢
    omega

end Value

/-! ## Files -/

/-- A name is made of characters that continue a name. -/
theorem IsName.forall_isNameChar {x : String} (h : IsName x) :
    ∀ c ∈ x.toList, isNameChar c = true := by
  obtain ⟨c, cs, hx, start, all⟩ := h
  have first : isNameChar c = true := by
    rw [isNameStart, Bool.or_eq_true] at start
    rw [isNameChar, Unicode.isLetterOrNumber, Bool.or_eq_true, Bool.or_eq_true]
    exact start.imp_left .inl
  rw [hx]
  exact List.forall_mem_cons.2 ⟨first, all⟩

/-- Names that end at a border can be told from others. -/
theorem IsName.append_inj {x y : String} (hx : IsName x) (hy : IsName y) {r s : List Char}
    (hr : Border r) (hs : Border s) (h : x.toList ++ r = y.toList ++ s) : x = y ∧ r = s := by
  obtain ⟨takeLeft, dropLeft⟩ := takeWhile_append_border hx.forall_isNameChar hr
  obtain ⟨takeRight, dropRight⟩ := takeWhile_append_border hy.forall_isNameChar hs
  exact ⟨String.toList_inj.1 (by rw [← takeLeft, h, takeRight]), by rw [← dropLeft, h, dropRight]⟩

/-- Bindings can be told from others by what is written of them. -/
theorem assignments_inj {bs cs : List (String × Value)} (hbs : ∀ b ∈ bs, IsName b.1)
    (hcs : ∀ c ∈ cs, IsName c.1) (h : assignments bs = assignments cs) : bs = cs := by
  have toList : ∀ b : String × Value, (renderAssignment b.1 b.2).toList =
      b.1.toList ++ ([' ', '=', ' '] ++ (b.2.layout 0 ++ ['\n'])) := by
    intro b
    simp [renderAssignment]
  have rows := flatMap_append_inj (K := fun _ => True) (r := []) (s := [])
    (fun b hb c hc r s _ _ h => by
      simp only [toList, List.append_assoc] at h
      obtain ⟨hname, hvalue⟩ := (hbs b hb).append_inj (hcs c hc)
        (.cons (by decide) _) (.cons (by decide) _) h
      obtain ⟨hvw, hrest⟩ := b.2.layout_append_inj 0 c.2
        (.cons (c := '\n') (by decide) r) (.cons (c := '\n') (by decide) s)
        (List.cons.inj (List.cons.inj (List.cons.inj hvalue).2).2).2
      exact ⟨Prod.ext hname hvw, (List.cons.inj hrest).2⟩)
    (fun _ _ => trivial) trivial trivial
    (fun b rest h => by simp [toList] at h) (fun b rest h => by simp [toList] at h)
    (congrArg (· ++ []) h)
  exact rows.1

end OverlaySync.Deps
