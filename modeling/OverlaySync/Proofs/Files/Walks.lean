import OverlaySync.Files.Tree
import OverlaySync.Proofs.Outcome

/-! # Walks through a file tree

A path is walked through directories, and its last step is a name in the last one of them. So when a
file is written, no other path leads elsewhere than before, though one that led nowhere may be
refused for another reason (`FileTree.toOption_locate_set`); and paths that end in different names
lead to different places (`FileTree.getLast?_of_locate_child`). -/

namespace OverlaySync

/-! ## The steps of a path -/

/-- Sequences with a separator between them are split into the pieces of both. -/
theorem Text.pieces_append_cons {α : Type} [DecidableEq α] (sep : α) (xs ys : List α) :
    pieces sep (xs ++ sep :: ys) = pieces sep xs ++ pieces sep ys := by
  induction xs with
  | nil => simp
  | cons x xs ih =>
    by_cases h : x = sep
    · subst h
      simp [ih]
    · obtain ⟨p, ps, hp⟩ := List.exists_cons_of_ne_nil (pieces_ne_nil sep xs)
      rw [hp, List.cons_append] at ih
      rw [List.cons_append, pieces_cons_of_ne h ih, pieces_cons_of_ne h hp, List.cons_append]

namespace Path

/-- A name that a step takes into a directory: no slash, no step in place and none upwards. -/
structure IsEntryName (name : String) : Prop where
  free : '/' ∉ name.toList
  ne_empty : name ≠ ""
  ne_here : name ≠ "."
  ne_above : name ≠ ".."

instance (name : String) : Decidable (IsEntryName name) :=
  decidable_of_iff ('/' ∉ name.toList ∧ name ≠ "" ∧ name ≠ "." ∧ name ≠ "..")
    ⟨fun ⟨free, long, here, above⟩ => ⟨free, long, here, above⟩,
      fun h => ⟨h.free, h.ne_empty, h.ne_here, h.ne_above⟩⟩

/-- The name of an entry has a character. -/
theorem IsEntryName.toList_ne_nil {name : String} (h : IsEntryName name) : name.toList ≠ [] :=
  fun hnil => h.ne_empty (String.toList_eq_nil_iff.1 hnil)

/-- A name is relative to what it is below. -/
theorem IsEntryName.isAbsolute_eq_false {name : String} (h : IsEntryName name) :
    (Path.mk name).isAbsolute = false := by
  refine Bool.eq_false_iff.2 fun habs => h.free ?_
  exact List.mem_of_head? (of_decide_eq_true habs)

/-- A name below a path follows the path, with a slash between them. -/
theorem toList_child (p : Path) {name : String} (h : IsEntryName name) :
    (p.text = "" ∧ (p.child name).text = name) ∨
      p.text ≠ "" ∧ ∃ front, (p.child name).text.toList = front ++ '/' :: name.toList ∧
        (p.text.toList = front ∨ p.text.toList = front ++ ['/']) := by
  rw [child, join, h.isAbsolute_eq_false, Bool.false_or]
  by_cases empty : p.text.isEmpty = true
  · rw [if_pos empty]
    exact .inl ⟨String.isEmpty_iff.1 empty, rfl⟩
  rw [if_neg empty]
  refine .inr ⟨fun hnil => empty (String.isEmpty_iff.2 hnil), ?_⟩
  by_cases slash : p.text.toList.getLast? = some '/'
  · obtain ⟨front, hfront⟩ := List.getLast?_eq_some_iff.1 slash
    refine ⟨front, ?_, .inr hfront⟩
    rw [if_pos slash, String.toList_append, hfront, List.append_assoc, List.singleton_append]
  · refine ⟨p.text.toList, ?_, .inl rfl⟩
    rw [if_neg slash, String.toList_append, String.toList_append, List.append_assoc]
    rfl

/-- A name below a path is its last step. -/
theorem steps_child (p : Path) {name : String} (h : IsEntryName name) :
    (p.child name).steps = p.steps ++ [name] := by
  have one :
      (Text.pieces '/' name.toList).filter (fun piece => !piece.isEmpty) = [name.toList] := by
    rw [Text.pieces_of_not_mem h.free]
    simp [h.toList_ne_nil]
  have name_ofList : [name.toList].map String.ofList = [name] := by simp
  obtain ⟨empty, hchild⟩ | ⟨-, front, hchild, hp⟩ := p.toList_child h
  · rw [steps, hchild, one, name_ofList, steps, empty]
    rfl
  rw [steps, hchild, Text.pieces_append_cons, List.filter_append, one, List.map_append,
    name_ofList, steps]
  rcases hp with hp | hp
  · rw [hp]
  · -- What ends in a slash ends in an empty piece, which is no step.
    rw [hp, Text.pieces_append_cons, List.filter_append]
    simp

/-- What is below a path starts where the path does. -/
theorem isAbsolute_child (p : Path) {name : String} (h : IsEntryName name) :
    (p.child name).isAbsolute = p.isAbsolute := by
  obtain ⟨empty, hchild⟩ | ⟨some, front, hchild, hp⟩ := p.toList_child h
  · have relative := h.isAbsolute_eq_false
    rw [isAbsolute] at relative
    rw [isAbsolute, isAbsolute, hchild, relative, empty]
    rfl
  have ne : p.text.toList ≠ [] := fun hnil => some (String.toList_eq_nil_iff.1 hnil)
  rw [isAbsolute, isAbsolute, hchild]
  rcases hp with hp | hp
  · rw [hp] at ne ⊢
    obtain ⟨c, cs, rfl⟩ := List.exists_cons_of_ne_nil ne
    rfl
  · rw [hp]
    cases front <;> rfl

/-- What is below a path has the same start, whatever it is. -/
theorem exists_join_eq (p : Path) :
    ∃ start : String, ∀ q : Path, q.isAbsolute = false → p.join q = ⟨start ++ q.text⟩ := by
  by_cases empty : p.text.isEmpty = true
  · refine ⟨"", fun q relative => ?_⟩
    rw [join, relative, Bool.false_or, if_pos empty, String.empty_append]
  by_cases slash : p.text.toList.getLast? = some '/'
  · refine ⟨p.text, fun q relative => ?_⟩
    rw [join, relative, Bool.false_or, if_neg empty, if_pos slash]
  · refine ⟨p.text ++ "/", fun q relative => ?_⟩
    rw [join, relative, Bool.false_or, if_neg empty, if_neg slash]

/-- A name in a directory below a path is below the path. -/
theorem child_child (p : Path) {directory name : String} (h : IsEntryName directory)
    (hname : IsEntryName name) :
    (p.child directory).child name = p.child (directory ++ "/" ++ name) := by
  obtain ⟨start, hstart⟩ := p.exists_join_eq
  -- `join` starts anew at an absolute path, adds no slash to an empty one and none behind another.
  have relative : (Path.mk (directory ++ "/" ++ name)).isAbsolute = false := by
    have first := h.isAbsolute_eq_false
    obtain ⟨c, cs, hcs⟩ := List.exists_cons_of_ne_nil h.toList_ne_nil
    rw [isAbsolute, hcs] at first
    rwa [isAbsolute, String.toList_append, String.toList_append, hcs]
  have long : ¬(start ++ directory).isEmpty = true := fun empty => by
    have nothing : (start ++ directory).toList = [] :=
      String.toList_eq_nil_iff.2 (String.isEmpty_iff.1 empty)
    rw [String.toList_append, List.append_eq_nil_iff] at nothing
    exact h.toList_ne_nil nothing.2
  have bare : (start ++ directory).toList.getLast? ≠ some '/' := by
    rw [String.toList_append, List.getLast?_append]
    cases last : directory.toList.getLast? with
    | none => exact absurd (List.getLast?_eq_none_iff.1 last) h.toList_ne_nil
    | some c =>
      rintro ⟨⟩
      exact h.free (List.mem_of_getLast? last)
  calc (p.child directory).child name
      = (Path.mk (start ++ directory)).join ⟨name⟩ := by
        rw [child, child, hstart _ h.isAbsolute_eq_false]
    _ = ⟨start ++ directory ++ "/" ++ name⟩ := by
        rw [join, hname.isAbsolute_eq_false, Bool.false_or, if_neg long, if_neg bare]
    _ = ⟨start ++ (directory ++ "/" ++ name)⟩ := by
        rw [String.append_assoc, String.append_assoc, String.append_assoc]
    _ = p.child (directory ++ "/" ++ name) := (hstart _ relative).symm

/-- The pieces behind the start of a path end like those of the whole path. -/
theorem getLast?_pieces_splitHead {cs : List Char} (ne : cs ≠ ['.']) :
    (Text.pieces '/' (splitHead cs).2).getLast? = (Text.pieces '/' cs).getLast? := by
  have behind (p : List Char) (xs : List Char) :
      (p :: Text.pieces '/' xs).getLast? = (Text.pieces '/' xs).getLast? := by
    obtain ⟨q, qs, hq⟩ := List.exists_cons_of_ne_nil (Text.pieces_ne_nil '/' xs)
    rw [hq, List.getLast?_cons_cons]
  unfold splitHead
  split
  · rw [Text.pieces_cons_sep, behind]
  · exact absurd rfl ne
  · next cs =>
    rw [Text.pieces_cons_sep, behind,
      show '.' :: '/' :: cs = ['.'] ++ '/' :: cs from rfl, Text.pieces_append_sep (by decide),
      behind]
  · rfl

/-- A name below a path is its file name. -/
theorem fileName?_child (p : Path) {name : String} (h : IsEntryName name) :
    (p.child name).fileName? = some name := by
  have last : (Text.pieces '/' (p.child name).text.toList).getLast? = some name.toList := by
    obtain ⟨-, hchild⟩ | ⟨-, front, hchild, -⟩ := p.toList_child h
    · rw [hchild, Text.pieces_of_not_mem h.free]
      rfl
    · rw [hchild, Text.pieces_append_cons, Text.pieces_of_not_mem h.free, List.getLast?_concat]
  have ne : (p.child name).text.toList ≠ ['.'] := by
    intro dot
    rw [dot] at last
    have here : name.toList = ['.'] := (Option.some.inj last).symm
    exact h.ne_here (String.toList_inj.1 here)
  rw [← getLast?_pieces_splitHead ne] at last
  obtain ⟨front, hfront⟩ := List.getLast?_eq_some_iff.1 last
  -- The name is no idle piece, so it is the first one from behind.
  have body : reversedBody (splitHead (p.child name).text.toList).2 =
      name.toList :: front.reverse := by
    have busy : isIdle name.toList = false := by
      have hhere : name.toList ≠ ['.'] := fun dot => h.ne_here (String.toList_inj.1 dot)
      simp [isIdle, h.toList_ne_nil, hhere]
    rw [reversedBody, hfront, List.reverse_append, List.reverse_singleton, List.singleton_append,
      List.dropWhile_cons_of_neg (by simp [busy])]
  have above : name.toList ≠ ['.', '.'] := fun dots => h.ne_above (String.toList_inj.1 dots)
  rw [fileName?, body]
  simp [above]

/-- Where a path leads to, if it leads anywhere: there are no links, so its steps alone decide. -/
def place (p : Path) (current : Location) : Location :=
  p.steps.foldl (fun here name =>
    if name = "." then here else if name = ".." then here.dropLast else here ++ [name])
    (if p.isAbsolute then [] else current)

end Path

/-! ## Steps through a tree -/

namespace FileTree

/-- Steps that are the same up to why they are refused lead to the same places. -/
theorem toOption_foldlM {t t' : FileTree}
    (h : ∀ here name, (t'.step here name).toOption = (t.step here name).toOption)
    (start : Location) (steps : List String) :
    (steps.foldlM t'.step start).toOption = (steps.foldlM t.step start).toOption := by
  induction steps generalizing start with
  | nil => rfl
  | cons name steps ih =>
    have first := h start name
    rw [List.foldlM_cons, List.foldlM_cons]
    cases hold : t.step start name <;> cases hnew : t'.step start name <;>
      rw [hold, hnew] at first
    · rfl
    · cases first
    · cases first
    · cases first
      exact ih _

/-- A file is as little a way to anything as what was there before, if that was no directory. -/
theorem toOption_step_set {t : FileTree} {l : Location} (free : t.lookup l ≠ some .directory)
    (content : ByteArray) (here : Location) (name : String) :
    ((t.set l (.file content)).step here name).toOption = (t.step here name).toOption := by
  have ne : l ≠ [] := by
    rintro rfl
    exact free rfl
  by_cases hhere : here = l
  · subst hhere
    rw [step, step, lookup_set_self t ne]
    cases hlookup : t.lookup here with
    | none => rfl
    | some node =>
      cases node with
      | file => rfl
      | directory => exact absurd hlookup free
  · rw [step, step, lookup_set_of_ne t hhere]

/-- A file in a place that was no directory changes no path's way. -/
theorem toOption_locate_set {t : FileTree} {l : Location} (free : t.lookup l ≠ some .directory)
    (content : ByteArray) (current : Location) (p : Path) :
    ((t.set l (.file content)).locate current p).toOption = (t.locate current p).toOption := by
  rw [locate, locate, follow, follow]
  split
  · rfl
  split
  · rfl
  split
  · rfl
  · exact toOption_foldlM (toOption_step_set free content) _ _

/-- Where the steps of a path lead to, of whatever length the path is. -/
def walk (t : FileTree) (current : Location) (p : Path) : Except Refusal Location :=
  p.steps.foldlM t.step (if p.isAbsolute then [] else current)

/-- A path leads where its steps lead. -/
theorem walk_of_locate {t : FileTree} {current l : Location} {p : Path}
    (h : t.locate current p = .ok l) : t.walk current p = .ok l := by
  rw [locate, follow] at h
  split at h
  · cases h
  split at h
  · cases h
  split at h
  · cases h
  · exact h

/-- Steps lead to one place in all trees in which they lead anywhere. -/
theorem eq_place_of_walk {t : FileTree} {current l : Location} {p : Path}
    (h : t.walk current p = .ok l) : l = p.place current := by
  rw [walk] at h
  rw [Path.place]
  -- On the steps, from any location: an absolute path starts at the root, and others where one is.
  generalize (if p.isAbsolute then [] else current) = start at h ⊢
  generalize p.steps = steps at h ⊢
  induction steps generalizing start with
  | nil =>
    cases h
    rfl
  | cons name steps ih =>
    rw [List.foldlM_cons, Outcome.bind_eq_ok_iff] at h
    obtain ⟨here, first, rest⟩ := h
    rw [ih here rest, List.foldl_cons]
    -- A step that is taken goes nowhere, upwards or to a name, as its text says.
    congr 1
    unfold step at first
    split at first
    · cases first
    · cases first
    · split at first
      · next dot =>
        cases first
        rw [if_pos dot]
      · next dot =>
        rw [if_neg dot]
        split at first
        · next dots =>
          cases first
          rw [if_pos dots]
        · next dots =>
          rw [if_neg dots]
          split at first
          · cases first
          · cases first
            rfl

/-- Where a path leads can be told from its text, once it leads anywhere. -/
theorem eq_place_of_locate {t : FileTree} {current l : Location} {p : Path}
    (h : t.locate current p = .ok l) : l = p.place current :=
  eq_place_of_walk (walk_of_locate h)

/-- A step is taken from a directory. -/
theorem directory_of_step {t : FileTree} {here l : Location} {name : String}
    (h : t.step here name = .ok l) : t.lookup here = some .directory := by
  unfold step at h
  split at h
  · cases h
  · cases h
  · assumption

/-- A step to a name leads into a directory. -/
theorem step_eq_ok {t : FileTree} {here l : Location} {name : String}
    (hname : Path.IsEntryName name) (h : t.step here name = .ok l) :
    t.lookup here = some .directory ∧ l = here ++ [name] := by
  have there := directory_of_step h
  rw [step, there] at h
  dsimp only at h
  rw [if_neg hname.ne_here, if_neg hname.ne_above] at h
  split at h
  · cases h
  · cases h
    exact ⟨there, rfl⟩

/-- A name below a path leads to this name in the directory to which the path leads. -/
theorem walk_child {t : FileTree} {current l : Location} {p : Path} {name : String}
    (hname : Path.IsEntryName name) (h : t.walk current (p.child name) = .ok l) :
    ∃ here, t.walk current p = .ok here ∧ t.lookup here = some .directory ∧
      l = here ++ [name] := by
  rw [walk, Path.steps_child p hname, Path.isAbsolute_child p hname, List.foldlM_append,
    Outcome.bind_eq_ok_iff] at h
  obtain ⟨here, hwalk, hstep⟩ := h
  rw [List.foldlM_cons, Outcome.bind_eq_ok_iff] at hstep
  obtain ⟨l', hstep, hl⟩ := hstep
  cases hl
  exact ⟨here, hwalk, step_eq_ok hname hstep⟩

/-- Names of directories below a path lead to these names below the path's place. -/
theorem walk_foldl_child {t : FileTree} {current l : Location} {p : Path} {names : List String}
    (proper : ∀ name ∈ names, Path.IsEntryName name)
    (h : t.walk current (names.foldl Path.child p) = .ok l) :
    ∃ here, t.walk current p = .ok here ∧ l = here ++ names := by
  induction names generalizing p with
  | nil => exact ⟨l, h, (List.append_nil l).symm⟩
  | cons name names ih =>
    obtain ⟨below, hbelow, rfl⟩ := ih (fun name' h' => proper name' (List.mem_cons_of_mem _ h')) h
    obtain ⟨here, hhere, -, rfl⟩ := walk_child (proper name List.mem_cons_self) hbelow
    exact ⟨here, hhere, List.append_assoc here [name] names⟩

/-- A path that ends in the name of an entry leads to a place with this name. -/
theorem getLast?_of_locate_child {t : FileTree} {current l : Location} {p : Path} {name : String}
    (hname : Path.IsEntryName name) (h : t.locate current (p.child name) = .ok l) :
    l.getLast? = some name := by
  obtain ⟨here, -, -, rfl⟩ := walk_child hname (walk_of_locate h)
  exact List.getLast?_concat

/-- Entries of different names are in different places. -/
theorem locate_ne_of_name_ne {t : FileTree} {current l l' : Location} {p q : Path}
    {name name' : String} (hname : Path.IsEntryName name) (hname' : Path.IsEntryName name')
    (ne : name' ≠ name) (h : t.locate current (p.child name) = .ok l)
    (h' : t.locate current (q.child name') = .ok l') : l' ≠ l := by
  rintro rfl
  have last := getLast?_of_locate_child hname h
  rw [getLast?_of_locate_child hname' h', Option.some.injEq] at last
  exact ne last

/-- A name in a directory is elsewhere than a name in directories below it. -/
theorem locate_ne_of_below {t : FileTree} {current l l' : Location} {p : Path}
    {name name' : String} {directories : List String} (hname : Path.IsEntryName name)
    (some : directories ≠ []) (proper : ∀ name ∈ directories, Path.IsEntryName name)
    (hname' : Path.IsEntryName name') (h : t.locate current (p.child name) = .ok l)
    (h' : t.locate current ((directories.foldl Path.child p).child name') = .ok l') : l' ≠ l := by
  obtain ⟨here, hhere, -, rfl⟩ := walk_child hname (walk_of_locate h)
  obtain ⟨below, hbelow, -, rfl⟩ := walk_child hname' (walk_of_locate h')
  obtain ⟨here', hhere', rfl⟩ := walk_foldl_child proper hbelow
  cases hhere.symm.trans hhere'
  intro same
  have length := congrArg List.length same
  simp [some] at length

/-- What is read is there. -/
theorem isPresent_of_read {t : FileTree} {current : Location} {p : Path} {content : ByteArray}
    (h : t.read current p = .ok content) : t.isPresent current p = true := by
  obtain ⟨entry, found, -⟩ := Outcome.bind_eq_ok_iff.1 h
  rw [isPresent, found]
  rfl

/-! ## Putting a file at a path -/

/-- What is left of a tree when a file is put where a path leads, in the place of nothing or of
another file. -/
structure Puts (t : FileTree) (current : Location) (p : Path) (content : ByteArray) (l : Location)
    (t' : FileTree) : Prop where
  /-- The path leads there, and can be that of a file. -/
  locate : t.locate current p = .ok l
  noSlash : p.hasTrailingSlash = false
  free : t.lookup l ≠ some .directory
  result : t' = t.set l (.file content)

/-- A file can be put at a path: it leads somewhere, can be that of a file, and there is no
directory at it. -/
def Writable (t : FileTree) (current : Location) (p : Path) : Prop :=
  ∃ l, t.locate current p = .ok l ∧ p.hasTrailingSlash = false ∧ t.lookup l ≠ some .directory

/-- What can be put at a path can be written. -/
theorem write_of_puts {t t' : FileTree} {current l : Location} {p : Path} {content : ByteArray}
    (h : t.Puts current p content l t') : t.write current p content = .ok t' := by
  rw [write, h.noSlash, h.locate, h.result]
  simp only [Bool.false_eq_true, if_false, bind, Except.bind]
  rw [if_neg h.free]

/-- Writing succeeds where a file can be put. -/
theorem write_of_writable {t : FileTree} {current : Location} {p : Path}
    (h : t.Writable current p) (content : ByteArray) :
    ∃ t', t.write current p content = .ok t' := by
  obtain ⟨l, place, noSlash, free⟩ := h
  exact ⟨t.set l (.file content), write_of_puts ⟨place, noSlash, free, rfl⟩⟩

/-- Writing puts a file at the path. -/
theorem puts_of_write {t t' : FileTree} {current : Location} {p : Path} {content : ByteArray}
    (h : t.write current p content = .ok t') : ∃ l, t.Puts current p content l t' := by
  unfold write at h
  split at h
  · obtain ⟨_, -, ⟨⟩⟩ := Outcome.bind_eq_ok_iff.1 h
  · next hslash =>
    obtain ⟨l, hl, h⟩ := Outcome.bind_eq_ok_iff.1 h
    split at h
    · cases h
    · next free =>
      cases h
      exact ⟨l, hl, Bool.eq_false_iff.2 hslash, free, rfl⟩

namespace Puts

variable {t t' : FileTree} {current l : Location} {p : Path} {content : ByteArray}

/-- A file can be written where one has been put. -/
theorem writable (h : t.Puts current p content l t') : t.Writable current p :=
  ⟨l, h.locate, h.noSlash, h.free⟩

/-- A file is not put in the root's place. -/
theorem ne_nil (h : t.Puts current p content l t') : l ≠ [] := by
  rintro rfl
  exact h.free rfl

/-- The file is there, with what has been written. -/
theorem lookup_self (h : t.Puts current p content l t') : t'.lookup l = some (.file content) := by
  rw [h.result, lookup_set_self t h.ne_nil]

/-- Nothing else is changed. -/
theorem lookup_of_ne (h : t.Puts current p content l t') {l' : Location} (ne : l' ≠ l) :
    t'.lookup l' = t.lookup l' := by
  rw [h.result, lookup_set_of_ne t ne]

/-- No path leads elsewhere. -/
theorem toOption_locate (h : t.Puts current p content l t') (current' : Location) (q : Path) :
    (t'.locate current' q).toOption = (t.locate current' q).toOption := by
  rw [h.result, toOption_locate_set h.free]

/-- The file is found. -/
theorem find_self (h : t.Puts current p content l t') :
    t'.find current p = .ok (l, .file content) := by
  have place : t'.locate current p = .ok l :=
    Outcome.eq_ok_of_toOption (by rw [h.toOption_locate, h.locate]; rfl)
  rw [find, place]
  simp only [bind, Except.bind, h.lookup_self, h.noSlash, Bool.false_eq_true, if_false]

/-- What other paths find is what they found before. -/
theorem toOption_find_of_ne (h : t.Puts current p content l t') {q : Path}
    (ne : ∀ l', t.locate current q = .ok l' → l' ≠ l) :
    (t'.find current q).toOption = (t.find current q).toOption := by
  have place := h.toOption_locate current q
  rw [find, find]
  cases hold : t.locate current q with
  | error e =>
    cases hnew : t'.locate current q with
    | error e' => rfl
    | ok l' =>
      rw [hold, hnew] at place
      cases place
  | ok l' =>
    have hnew : t'.locate current q = .ok l' :=
      Outcome.eq_ok_of_toOption (by rw [place, hold]; rfl)
    rw [hnew]
    simp only [bind, Except.bind]
    rw [h.lookup_of_ne (ne l' hold)]

/-- Where entries have different names, the one is not found in the place of the other. -/
theorem toOption_find_child {name name' : String} (h : t.Puts current (p.child name) content l t')
    (hname : Path.IsEntryName name) (hname' : Path.IsEntryName name') (ne : name' ≠ name)
    (q : Path) :
    (t'.find current (q.child name')).toOption = (t.find current (q.child name')).toOption := by
  exact h.toOption_find_of_ne fun l' hl' => locate_ne_of_name_ne hname hname' ne h.locate hl'

end Puts

end FileTree

end OverlaySync
