import OverlaySync.Proofs.Deps.RoundTrip

/-! # Written bindings are read back

A file can bind several names. Written one after the other, such bindings are read as all of them,
in this order: the text of each ends with its line, so no token reaches over the border to the next
one. As with a single binding, the least integer in any of the values has the whole text refused.

Main statements: `parse_of_writesFile` and `parse_of_writesFile_least`, to be used with
`writes_assignments`. -/

namespace OverlaySync.Deps

/-! ## The bindings that tokens denote -/

/-- The tokens derive bindings that give the names `bs` their values, whatever was bound before. -/
def DenotesFile (bs : List (String × Value)) (ts : List Token) : Prop :=
  ∃ ps, IsFile ts ps ∧ ∀ history, Binds history ps (bs.reverse ++ history)

/-- No tokens bind nothing. -/
theorem DenotesFile.nil : DenotesFile [] [] :=
  ⟨[], .nil, fun _ => .nil⟩

/-- A value that tokens denote in every scope can be bound in front of any other bindings. -/
theorem DenotesFile.cons {x : String} {v : Value} {bs : List (String × Value)}
    {ts us : List Token} (h : Denotes v ts) (hs : DenotesFile bs us) :
    DenotesFile ((x, v) :: bs) (.name x :: .mark .equals :: (ts ++ us)) := by
  obtain ⟨p, hp, hv⟩ := h
  obtain ⟨ps, hps, hbs⟩ := hs
  refine ⟨(x, p) :: ps, .cons x hp.isExpr hps, fun history => ?_⟩
  have later := hbs ((x, v) :: history)
  rw [List.reverse_cons, List.append_assoc, List.singleton_append]
  exact .cons (hv _) later

/-! ## What is written of bindings -/

/-- The characters that bind names to values, one binding after the other. -/
def assignments (bs : List (String × Value)) : List Char :=
  bs.flatMap fun b => (renderAssignment b.1 b.2).toList

/-- A binding is a name, an equals sign between spaces, a value and a newline. -/
theorem assignments_cons (x : String) (v : Value) (bs : List (String × Value)) :
    assignments ((x, v) :: bs) =
      (x.toList ++ [' ', '=', ' ']) ++ (v.layout 0 ++ '\n' :: assignments bs) := by
  simp [assignments, renderAssignment]

/-- A name and `=` come before a value. -/
theorem scan_assignment {x : String} (hname : IsName x) (rest : List Char) :
    scan ((x.toList ++ [' ', '=', ' ']) ++ rest) = behind [.name x, .mark .equals] (scan rest) := by
  have hsource : (String.ofList ((x.toList ++ [' ', '=', ' ']) ++ rest)).toList =
      x.toList ++ ' ' :: '=' :: ' ' :: (rest ++ []) := by
    simp
  have hscan := scan_binding hname hsource
  rwa [String.toList_ofList, List.append_nil] at hscan

/-- Written bindings are read as they are, if no value holds the least integer. -/
theorem writes_assignments {bs : List (String × Value)} (names : ∀ b ∈ bs, IsName b.1)
    (canonical : Value.CanonicalEntries bs) :
    Writes (Value.hasLeastEntry bs) (DenotesFile bs) (assignments bs) := by
  induction bs with
  | nil => exact .of_scan [] DenotesFile.nil fun _ _ => rfl
  | cons b bs ih =>
    obtain ⟨x, v⟩ := b
    obtain ⟨hname, names⟩ := List.forall_mem_cons.1 names
    -- The end of the line is the border between the value and the next binding.
    have later := Writes.blank (c := '\n') (by decide) (ih names canonical.2)
    rw [Value.hasLeastEntry, assignments_cons]
    refine .behind [.name x, .mark .equals] _ (scan_assignment hname) ?_
    exact (v.writes_layout 0 canonical.1).append later
      (R := fun ts => DenotesFile ((x, v) :: bs) ([.name x, .mark .equals] ++ ts))
      (fun _ _ => .cons (by decide) _) fun ts us h hs => .cons h hs

/-! ## Parsing what is written -/

/-- The map of a list of pairs holds the pairs as a history does. -/
theorem sameScope_ofList (bs : List (String × Value)) :
    SameScope (OrderedMap.ofList bs) bs.reverse :=
  (holdsLatest_iff.2 rfl).2

/-- A name that no pair has is not in the map of the pairs. -/
theorem get?_ofList_eq_none {bs : List (String × Value)} {x : String}
    (h : x ∉ bs.map Prod.fst) : (OrderedMap.ofList bs).get? x = none := by
  rw [sameScope_ofList bs x, List.lookup_eq_none_iff]
  intro b hb
  refine bne_iff_ne.2 fun hx => h ?_
  exact hx ▸ List.mem_map_of_mem (List.mem_reverse.1 hb)

/-- Bindings in key order are the map that they make up. -/
theorem ofList_entries (b : Bindings) : OrderedMap.ofList b.entries = b :=
  OrderedMap.eq_of_entries (ofList_eq_self b.ascending)

/-- A source that is written of bindings is read as these. -/
theorem parse_of_writesFile {source : String} {bs : List (String × Value)}
    (h : Writes false (DenotesFile bs) source.toList) :
    parse source = .ok (OrderedMap.ofList bs) := by
  obtain ⟨ts, ⟨ps, file, binds⟩, hts⟩ := h [] Border.nil
  rw [List.append_nil, scan_nil, behind, List.append_nil] at hts
  obtain ⟨located, hlocated, htokens⟩ := tokensOf_of_scan hts
  have final := binds []
  rw [List.append_nil] at final
  refine parse_eq_ok_iff.2 ⟨located, hlocated, ?_⟩
  rw [htokens]
  exact File.eval_read_eq_ok_iff.2 ⟨ps, _, file, final, sameScope_ofList bs⟩

/-- Names that are bound to canonical values are read back from what is written, if the least
integer is not among the values; of a name that is written twice the later value counts. -/
theorem parse_assignments {bs : List (String × Value)} (names : ∀ b ∈ bs, IsName b.1)
    (canonical : Value.CanonicalEntries bs) (least : Value.hasLeastEntry bs = false) :
    parse (String.ofList (assignments bs)) = .ok (OrderedMap.ofList bs) := by
  refine parse_of_writesFile ?_
  rw [String.toList_ofList, ← least]
  exact writes_assignments names canonical

/-- A source that is written of bindings is refused if a value holds the least integer. -/
theorem parse_of_writesFile_least {source : String} {bs : List (String × Value)}
    (h : Writes true (DenotesFile bs) source.toList) :
    ∃ e, parse source = .error e ∧ e.cause = .integerOutOfRange := by
  have fault := h [] Border.nil
  rw [List.append_nil] at fault
  exact parse_of_scan fault

end OverlaySync.Deps
