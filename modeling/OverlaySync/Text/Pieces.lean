/-! # Pieces between separators

Lines, path components and the segments of an override are all the pieces of a sequence between the
occurrences of one separator. `pieces` splits, `joined` puts together again; `joined_pieces` and
`pieces_joined` say that on separator-free pieces the two undo each other. -/

namespace OverlaySync.Text

variable {α : Type} [DecidableEq α]

/-- The pieces between the occurrences of `sep`: one more than there are occurrences, so the empty
sequence is one empty piece. -/
def pieces (sep : α) : List α → List (List α)
  | [] => [[]]
  | x :: xs =>
    if x = sep then [] :: pieces sep xs
    else match pieces sep xs with
      | [] => [[x]]
      | p :: ps => (x :: p) :: ps

/-- The pieces in a row, with `sep` between neighbours. -/
def joined (sep : α) : List (List α) → List α
  | [] => []
  | [p] => p
  | p :: q :: ps => p ++ sep :: joined sep (q :: ps)

@[simp] theorem pieces_nil (sep : α) : pieces sep [] = [[]] := rfl

/-- A split has at least one piece; the empty list is split into one empty piece. -/
theorem pieces_ne_nil (sep : α) (xs : List α) : pieces sep xs ≠ [] := by
  cases xs with
  | nil => simp
  | cons x xs => unfold pieces; split <;> try split
                 all_goals simp

/-- A separator at the front closes an empty piece. -/
@[simp] theorem pieces_cons_sep (sep : α) (xs : List α) :
    pieces sep (sep :: xs) = [] :: pieces sep xs := by
  simp [pieces]

/-- A piece grows at its front by a symbol that is no separator. -/
theorem pieces_cons_of_ne {sep x : α} (h : x ≠ sep) {xs p : List α} {ps : List (List α)}
    (hp : pieces sep xs = p :: ps) : pieces sep (x :: xs) = (x :: p) :: ps := by
  simp [pieces, h, hp]

/-- Joining the pieces gives the sequence back. -/
@[simp] theorem joined_pieces (sep : α) (xs : List α) : joined sep (pieces sep xs) = xs := by
  induction xs with
  | nil => rfl
  | cons x xs ih =>
    obtain ⟨p, ps, hp⟩ := List.exists_cons_of_ne_nil (pieces_ne_nil sep xs)
    rw [hp] at ih
    by_cases h : x = sep
    · subst h
      rw [pieces_cons_sep, hp, ← ih]
      cases ps <;> simp [joined]
    · rw [pieces_cons_of_ne h hp, ← ih]
      cases ps <;> simp [joined]

/-- No piece holds the separator. -/
theorem not_mem_of_mem_pieces {sep : α} {xs p : List α} (h : p ∈ pieces sep xs) : sep ∉ p := by
  induction xs generalizing p with
  | nil => simp only [pieces_nil, List.mem_singleton] at h; simp [h]
  | cons x xs ih =>
    obtain ⟨q, qs, hq⟩ := List.exists_cons_of_ne_nil (pieces_ne_nil sep xs)
    by_cases hx : x = sep
    · subst hx
      rw [pieces_cons_sep, List.mem_cons] at h
      rcases h with rfl | h
      · simp
      · exact ih h
    · rw [pieces_cons_of_ne hx hq, List.mem_cons] at h
      rcases h with rfl | h
      · have := ih (hq ▸ List.mem_cons_self : q ∈ pieces sep xs)
        simp [this, Ne.symm hx]
      · exact ih (hq ▸ List.mem_cons_of_mem _ h)

/-- A separator after a piece without one ends that piece. -/
theorem pieces_append_sep {sep : α} {p : List α} (h : sep ∉ p) (xs : List α) :
    pieces sep (p ++ sep :: xs) = p :: pieces sep xs := by
  induction p with
  | nil => simp
  | cons x p ih =>
    simp only [List.mem_cons, not_or] at h
    exact pieces_cons_of_ne (Ne.symm h.1) (ih h.2)

/-- A sequence without separators is one piece. -/
theorem pieces_of_not_mem {sep : α} {p : List α} (h : sep ∉ p) : pieces sep p = [p] := by
  induction p with
  | nil => rfl
  | cons x p ih =>
    simp only [List.mem_cons, not_or] at h
    exact pieces_cons_of_ne (Ne.symm h.1) (ih h.2)

/-- Splitting a row of pieces gives the pieces back. -/
theorem pieces_joined {sep : α} {ps : List (List α)} (ne : ps ≠ []) (h : ∀ p ∈ ps, sep ∉ p) :
    pieces sep (joined sep ps) = ps := by
  induction ps with
  | nil => exact absurd rfl ne
  | cons p ps ih =>
    have hp : sep ∉ p := h p List.mem_cons_self
    cases ps with
    | nil => exact pieces_of_not_mem hp
    | cons q qs =>
      rw [joined, pieces_append_sep hp, ih (by simp) fun r hr => h r (List.mem_cons_of_mem _ hr)]

omit [DecidableEq α] in
/-- Two rows of pieces make one row. -/
theorem joined_append (sep : α) {ps qs : List (List α)} (hps : ps ≠ []) (hqs : qs ≠ []) :
    joined sep (ps ++ qs) = joined sep ps ++ sep :: joined sep qs := by
  obtain ⟨q, qs, rfl⟩ := List.exists_cons_of_ne_nil hqs
  induction ps with
  | nil => exact absurd rfl hps
  | cons p ps ih =>
    cases ps with
    | nil => rfl
    | cons p' ps =>
      rw [List.cons_append, List.cons_append, joined, ← List.cons_append, ih (by simp), joined,
        List.append_assoc, List.cons_append]

end OverlaySync.Text
