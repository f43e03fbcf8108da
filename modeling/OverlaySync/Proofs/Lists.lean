/-! # Taking lists apart

Facts about prefixes of lists that several parts of the theory use. -/

namespace OverlaySync

variable {α : Type}

/-- A run of elements of one class ends where the class does. -/
theorem takeWhile_append_border {p : α → Bool} {xs rest : List α} (all : ∀ x ∈ xs, p x = true)
    (ends : ∀ x ∈ rest.head?, p x = false) :
    (xs ++ rest).takeWhile p = xs ∧ (xs ++ rest).dropWhile p = rest := by
  rw [List.takeWhile_append_of_pos all, List.dropWhile_append_of_pos all]
  cases rest with
  | nil => simp
  | cons x rest => simp [ends x rfl]

/-- A run ends in front of other elements as well, if these start as what followed it or with an
element of another class. -/
theorem takeWhile_append_rest {p : α → Bool} {xs rest : List α}
    (ends : rest.head? = (xs.dropWhile p).head? ∨ ∀ x ∈ rest.head?, p x = false) :
    (xs.takeWhile p ++ rest).takeWhile p = xs.takeWhile p ∧
      (xs.takeWhile p ++ rest).dropWhile p = rest := by
  refine takeWhile_append_border (List.all_eq_true.1 List.all_takeWhile) fun x there => ?_
  obtain same | other := ends
  · have stops := List.head?_dropWhile_not p xs
    rw [← same, Option.mem_def.1 there] at stops
    simpa using stops
  · exact other x there

/-- Lists with the same first `n` elements both have so many, if one of them does. -/
theorem le_length_of_take_eq {xs ys : List α} {n : Nat} (h : xs.take n = ys.take n)
    (long : n ≤ ys.length) : n ≤ xs.length := by
  have hlen := congrArg List.length h
  rw [List.length_take, List.length_take] at hlen
  omega

/-- Lists are the same if their elements are told apart by what they are mapped to. -/
theorem eq_of_map_eq {β : Type} {f g : α → β} {xs ys : List α}
    (inj : ∀ x ∈ xs, ∀ y ∈ ys, f x = g y → x = y) (h : xs.map f = ys.map g) : xs = ys := by
  induction xs generalizing ys with
  | nil => exact (List.map_eq_nil_iff.1 h.symm).symm
  | cons x xs ih =>
    cases ys with
    | nil => cases h
    | cons y ys =>
      obtain ⟨hhead, htail⟩ := List.cons.inj h
      have hxy := inj x List.mem_cons_self y List.mem_cons_self hhead
      have hrest := ih (fun x hx y hy =>
        inj x (List.mem_cons_of_mem _ hx) y (List.mem_cons_of_mem _ hy)) htail
      rw [hxy, hrest]

/-! ## Lists with an element in the middle -/

/-- An element in two lists is in the first one or in the second one. -/
theorem append_eq_append_cons_iff {xs ys us ws : List α} {t : α} :
    xs ++ ys = us ++ t :: ws ↔
      (∃ ws', xs = us ++ t :: ws' ∧ ws = ws' ++ ys) ∨
        ∃ us', us = xs ++ us' ∧ ys = us' ++ t :: ws := by
  constructor
  · intro h
    obtain ⟨us', hus, hys⟩ | ⟨rest, hxs, hrest⟩ := List.append_eq_append_iff.1 h
    · exact .inr ⟨us', hus, hys⟩
    · obtain ⟨rfl, rfl⟩ | ⟨ws', rfl, hws⟩ := List.cons_eq_append_iff.1 hrest
      · exact .inr ⟨[], by rw [hxs, List.append_nil, List.append_nil], rfl⟩
      · exact .inl ⟨ws', hxs, hws⟩
  · rintro (⟨ws', rfl, rfl⟩ | ⟨us', rfl, rfl⟩)
    · simp
    · simp

/-- An element that is not the first one is behind it. -/
theorem cons_eq_append_cons_iff {x t : α} {xs us ws : List α} (ne : x ≠ t) :
    x :: xs = us ++ t :: ws ↔ ∃ us', us = x :: us' ∧ xs = us' ++ t :: ws := by
  rw [List.cons_eq_append_iff]
  constructor
  · rintro (⟨-, h⟩ | h)
    · exact absurd (List.cons.inj h).1.symm ne
    · exact h
  · exact .inr

/-- A list is cut in one way at the last of its elements that is `t`. -/
theorem append_cons_inj_of_not_mem {xs ys us ws : List α} {t : α} (last : t ∉ ys)
    (last' : t ∉ ws) (h : xs ++ t :: ys = us ++ t :: ws) : xs = us := by
  obtain ⟨ws', -, rfl⟩ | ⟨us', rfl, hys⟩ := append_eq_append_cons_iff.1 h
  · simp at last'
  · cases us' with
    | nil => rw [List.append_nil]
    | cons u us' =>
      rw [(List.cons.inj hys).2] at last
      simp at last

/-- The last element of two lists is that of the second one, if it has any. -/
theorem getLast?_append_right {xs ys : List α} (some : ys ≠ []) :
    (xs ++ ys).getLast? = ys.getLast? := by
  obtain ⟨y, last⟩ := Option.isSome_iff_exists.1 (List.getLast?_isSome.2 some)
  rw [List.getLast?_append, last, Option.some_or]

/-! ## Rows -/

/-- Rows can be told from other rows, up to where they stop, if a row can be told from another one
and from what stops the rows. What follows a row satisfies `K`. -/
theorem flatMap_append_inj {β : Type} {row : α → List β} {K : List β → Prop} {xs ys : List α}
    {r s : List β}
    (inj : ∀ x ∈ xs, ∀ y ∈ ys, ∀ r s, K r → K s → row x ++ r = row y ++ s → x = y ∧ r = s)
    (more : ∀ x rest, K (row x ++ rest)) (hr : K r) (hs : K s)
    (stops : ∀ x rest, r ≠ row x ++ rest) (stops' : ∀ x rest, s ≠ row x ++ rest)
    (h : xs.flatMap row ++ r = ys.flatMap row ++ s) : xs = ys ∧ r = s := by
  have follows : ∀ (zs : List α) (rest : List β), K rest → K (zs.flatMap row ++ rest) := by
    intro zs rest hrest
    cases zs with
    | nil => exact hrest
    | cons z zs =>
      rw [List.flatMap_cons, List.append_assoc]
      exact more z _
  -- On the rows of one side: if it has one more than the other, what stops the other would start a
  -- row.
  induction xs generalizing ys with
  | nil =>
    cases ys with
    | nil => exact ⟨rfl, h⟩
    | cons y ys =>
      rw [List.flatMap_cons, List.append_assoc] at h
      exact absurd h (stops y _)
  | cons x xs ih =>
    cases ys with
    | nil =>
      rw [List.flatMap_cons, List.append_assoc] at h
      exact absurd h.symm (stops' x _)
    | cons y ys =>
      rw [List.flatMap_cons, List.flatMap_cons, List.append_assoc, List.append_assoc] at h
      obtain ⟨rfl, htail⟩ := inj x List.mem_cons_self y List.mem_cons_self _ _
        (follows xs r hr) (follows ys s hs) h
      obtain ⟨rfl, hrest⟩ := ih (fun x hx y hy => inj x (List.mem_cons_of_mem _ hx) y
        (List.mem_cons_of_mem _ hy)) htail
      exact ⟨rfl, hrest⟩

end OverlaySync
