import OverlaySync.Proofs.Files.Walks

/-! # What is above a path

The parent of a path is walked through on the way to it: its steps are the first ones of the path
(`Path.steps_prefix_of_parent?`), and not all of them if the path ends in the name of an entry
(`Path.exists_steps_of_parent?`). So as long as no step leads upwards, all that is above a path
leads to places above the one to which the path leads (`Path.place_prefix_of_mem_ancestors`). -/

namespace OverlaySync

namespace Path

variable {p q r : Path}

/-! ## Ancestors -/

/-- The paths above a path follow it. -/
theorem exists_ancestors (p : Path) : ∃ above, p.ancestors = p :: above := by
  rw [ancestors]
  split
  · exact ⟨[], rfl⟩
  · exact ⟨_, rfl⟩

/-- What is above a path is the path itself or above its parent. -/
theorem mem_ancestors_iff :
    r ∈ p.ancestors ↔ r = p ∨ ∃ q, p.parent? = some q ∧ r ∈ q.ancestors := by
  rw [ancestors.eq_1 p]
  split
  · next none =>
    rw [List.mem_singleton]
    refine ⟨.inl, fun h => h.resolve_right ?_⟩
    rintro ⟨q, some, -⟩
    cases none.symm.trans some
  · next q some =>
    rw [List.mem_cons]
    refine or_congr_right ⟨fun above => ⟨q, some, above⟩, ?_⟩
    rintro ⟨q', some', above⟩
    obtain rfl : q = q' := Option.some.inj (some.symm.trans some')
    exact above

/-! ## Steps of a parent -/

/-- A parent starts where the path does. -/
theorem isAbsolute_of_parent? (h : p.parent? = some q) : q.isAbsolute = p.isAbsolute := by
  obtain ⟨rest, htext, -, -⟩ := exists_text_of_parent? h
  rw [isAbsolute, isAbsolute]
  by_cases absolute : p.text.toList.head? = some '/'
  · -- The slash is the start of the path, and stays the start of its parent.
    obtain ⟨cs, hcs⟩ := List.head?_eq_some_iff.1 absolute
    rw [parent?, hcs] at h
    dsimp only [splitHead] at h
    split at h
    · cases h
    · cases h
      simp [absolute]
  · have relative : q.text.toList.head? ≠ some '/' := fun slash => absolute <| by
      rw [htext, List.head?_append, slash]
      rfl
    rw [decide_eq_false absolute, decide_eq_false relative]

/-- The steps to a parent are the first ones of the path. -/
theorem steps_prefix_of_parent? (h : p.parent? = some q) : q.steps <+: p.steps := by
  obtain ⟨rest, htext, -, hnil | hslash | ⟨cs, rfl⟩⟩ := exists_text_of_parent? h
  · rw [steps, hnil]
    exact List.nil_prefix
  · rw [steps, hslash]
    exact List.nil_prefix
  · rw [steps, steps, htext, Text.pieces_append_cons, List.filter_append, List.map_append]
    exact List.prefix_append _ _

/-- A path that ends in the name of an entry has this name as its last piece. -/
theorem exists_pieces_of_endsInName (named : p.endsInName = true)
    (noSlash : p.hasTrailingSlash = false) :
    ∃ front name, Text.pieces '/' p.text.toList = front ++ [name] ∧ isIdle name = false := by
  obtain ⟨front, name, cut⟩ := (Text.pieces '/' p.text.toList).eq_nil_or_concat.resolve_left
    (Text.pieces_ne_nil '/' p.text.toList)
  rw [List.concat_eq_append] at cut
  refine ⟨front, name, cut, ?_⟩
  have text : p.text.toList = Text.joined '/' (front ++ [name]) := by
    rw [← cut, Text.joined_pieces]
  -- An empty last piece comes from a slash at the end, or from an empty path.
  have some : name ≠ [] := by
    rintro rfl
    by_cases alone : front = []
    · rw [endsInName, steps, cut, alone] at named
      cases named
    · rw [Text.joined_append '/' alone (List.cons_ne_nil [] [])] at text
      rw [hasTrailingSlash, text, show Text.joined '/' [[]] = [] from rfl, List.getLast?_concat,
        decide_eq_true rfl] at noSlash
      cases noSlash
  -- A dot is a step, but not the name of an entry.
  have busy : name ≠ ['.'] := by
    rintro rfl
    rw [endsInName, steps, cut, List.filter_append, List.map_append,
      show (([['.']].filter fun piece => !piece.isEmpty).map String.ofList) = ["."] from rfl,
      List.getLast?_concat] at named
    revert named
    decide
  simp [isIdle, some, busy]

/-- A path that ends in the name of an entry has a parent. -/
theorem exists_parent?_of_endsInName (named : p.endsInName = true)
    (noSlash : p.hasTrailingSlash = false) : ∃ q, p.parent? = some q := by
  obtain ⟨front, name, cut, busy⟩ := exists_pieces_of_endsInName named noSlash
  have last : (Text.pieces '/' p.text.toList).getLast? = some name := by
    rw [cut, List.getLast?_concat]
  have ne : p.text.toList ≠ ['.'] := by
    intro dot
    rw [dot] at last
    cases last
    cases busy
  rw [← getLast?_pieces_splitHead ne] at last
  obtain ⟨front', cut'⟩ := List.getLast?_eq_some_iff.1 last
  have body : reversedBody (splitHead p.text.toList).2 = name :: front'.reverse := by
    rw [reversedBody, cut', List.reverse_append, List.reverse_singleton, List.singleton_append,
      List.dropWhile_cons_of_neg (by simp [busy])]
  rw [parent?]
  dsimp only
  rw [body]
  exact ⟨_, rfl⟩

/-- A path that ends in the name of an entry has more steps than its parent. -/
theorem exists_steps_of_parent? (named : p.endsInName = true)
    (noSlash : p.hasTrailingSlash = false) (h : p.parent? = some q) :
    ∃ name names, p.steps = q.steps ++ name :: names := by
  obtain ⟨behind, hsteps⟩ := steps_prefix_of_parent? h
  cases behind with
  | cons name names => exact ⟨name, names, hsteps.symm⟩
  | nil =>
    have some : p.steps ≠ [] := by
      intro hnil
      rw [endsInName, hnil] at named
      cases named
    rw [List.append_nil] at hsteps
    rw [← hsteps] at some
    obtain ⟨rest, htext, -, hnil | hslash | ⟨cs, rfl⟩⟩ := exists_text_of_parent? h
    · rw [steps, hnil] at some
      exact absurd rfl some
    · rw [steps, hslash] at some
      exact absurd rfl some
    · obtain ⟨front, name, cut, busy⟩ := exists_pieces_of_endsInName named noSlash
      -- The name is a piece behind the parent, and so it is a step behind the parent's.
      rw [htext, Text.pieces_append_cons] at cut
      have there : name ∈ Text.pieces '/' cs := by
        have last := congrArg List.getLast? cut
        rw [List.getLast?_append, List.getLast?_concat] at last
        cases hcs : (Text.pieces '/' cs).getLast? with
        | none => exact absurd (List.getLast?_eq_none_iff.1 hcs) (Text.pieces_ne_nil '/' cs)
        | some name' =>
          rw [hcs] at last
          cases last
          exact List.mem_of_getLast? hcs
      rw [steps, steps, htext, Text.pieces_append_cons, List.filter_append, List.map_append,
        List.self_eq_append_right, List.map_eq_nil_iff, List.filter_eq_nil_iff] at hsteps
      rw [isIdle, Bool.or_eq_false_iff] at busy
      exact absurd (by rw [busy.1]; rfl) (hsteps name there)

/-! ## Places above a path -/

/-- A path leads below where a part of its steps leads, unless steps lead upwards. -/
theorem place_prefix_of_steps (current : Location) (same : q.isAbsolute = p.isAbsolute)
    (steps : q.steps <+: p.steps) (direct : ".." ∉ p.steps) :
    q.place current <+: p.place current := by
  obtain ⟨rest, hrest⟩ := steps
  have down : ".." ∉ rest := fun there => direct (hrest ▸ List.mem_append_right q.steps there)
  rw [place, place, same, ← hrest, List.foldl_append]
  generalize q.steps.foldl _ _ = here
  clear hrest
  induction rest generalizing here with
  | nil => exact List.prefix_rfl
  | cons name rest ih =>
    have ne : name ≠ ".." := fun dots => down (dots ▸ List.mem_cons_self)
    have next := ih fun there => down (List.mem_cons_of_mem name there)
    rw [List.foldl_cons, if_neg ne]
    split
    · exact next here
    · exact (List.prefix_append here [name]).trans (next (here ++ [name]))

/-- What is above a path leads to places above the path's, unless steps lead upwards. -/
theorem place_prefix_of_mem_ancestors (current : Location) (direct : ".." ∉ p.steps)
    (h : q ∈ p.ancestors) : q.place current <+: p.place current := by
  induction p using ancestors.induct with
  | case1 p none =>
    obtain rfl | ⟨parent, some, -⟩ := mem_ancestors_iff.1 h
    · exact List.prefix_rfl
    · cases none.symm.trans some
  | case2 p parent some _ ih =>
    obtain rfl | ⟨parent', some', above⟩ := mem_ancestors_iff.1 h
    · exact List.prefix_rfl
    · obtain rfl : parent = parent' := Option.some.inj (some.symm.trans some')
      have steps := steps_prefix_of_parent? some
      exact (ih (fun there => direct (steps.subset there)) above).trans
        (place_prefix_of_steps current (isAbsolute_of_parent? some) steps direct)

/-- A name below a path leads to this name below the path's place. -/
theorem place_child (p : Path) {name : String} (h : IsEntryName name) (current : Location) :
    (p.child name).place current = p.place current ++ [name] := by
  rw [place, steps_child p h, isAbsolute_child p h, List.foldl_append, List.foldl_cons,
    List.foldl_nil, if_neg h.ne_here, if_neg h.ne_above]
  rfl

/-- What is above a path is not in the place of what is below it, unless steps lead upwards. -/
theorem place_ne_place_child {name : String} (h : IsEntryName name) (current : Location)
    (direct : ".." ∉ p.steps) (above : q ∈ p.ancestors) :
    q.place current ≠ (p.child name).place current := by
  intro same
  have length := (place_prefix_of_mem_ancestors current direct above).length_le
  rw [same, place_child p h, List.length_append, List.length_singleton] at length
  omega

end Path

end OverlaySync
