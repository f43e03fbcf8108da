import OverlaySync.Proofs.Files.Ancestors

/-! # Trees that grow

The steps of a run take nothing away: directories stay directories, and files stay files, whose
content may change (`FileTree.Grows`). So a path that has led somewhere leads there ever after, and
a directory that has been made need not be made again (`FileTree.makeDirectories_again`). Of the
files that are put in one place the last one counts, whatever was there before
(`FileTree.lookup_putAll_of_mem`). -/

namespace OverlaySync

namespace FileTree

variable {t t' t'' : FileTree} {current l : Location} {p : Path} {content : ByteArray}

/-! ## What is at a path -/

/-- A file is read where its path leads. -/
theorem read_eq_ok_iff :
    t.read current p = .ok content ↔
      ∃ l, t.locate current p = .ok l ∧ p.hasTrailingSlash = false ∧
        t.lookup l = some (.file content) := by
  rw [read, find]
  cases t.locate current p with
  | error e =>
    constructor
    · intro found
      cases found
    · rintro ⟨l, ⟨⟩, -⟩
  | ok l =>
    simp only [bind, Except.bind, Except.ok.injEq, exists_eq_left']
    rcases t.lookup l with _ | _ | _ <;> cases p.hasTrailingSlash <;> simp

/-- A path that leads to a directory is the path of a directory. -/
theorem isDirectory_iff :
    t.isDirectory current p = true ↔
      ∃ l, t.locate current p = .ok l ∧ t.lookup l = some .directory := by
  rw [isDirectory, find]
  cases t.locate current p with
  | error e =>
    constructor
    · intro found
      cases found
    · rintro ⟨l, ⟨⟩, -⟩
  | ok l =>
    simp only [bind, Except.bind, Except.ok.injEq, exists_eq_left']
    rcases t.lookup l with _ | _ | _ <;> cases p.hasTrailingSlash <;> simp

/-- There is something where there is a directory. -/
theorem isPresent_of_isDirectory (there : t.isDirectory current p = true) :
    t.isPresent current p = true := by
  rw [isDirectory] at there
  rw [isPresent]
  split at there
  · next found => rw [found]; rfl
  · cases there

/-! ## Growth -/

/-- What is in a tree is still in a later one: directories are directories, and files are files,
with the same content in other places than the given ones. -/
structure Grows (t : FileTree) (changed : List Location) (t' : FileTree) : Prop where
  directory {l : Location} (h : t.lookup l = some .directory) : t'.lookup l = some .directory
  file {l : Location} {content : ByteArray} (h : t.lookup l = some (.file content)) :
    ∃ content', t'.lookup l = some (.file content')
  same {l : Location} {content : ByteArray} (h : t.lookup l = some (.file content))
    (unchanged : l ∉ changed) : t'.lookup l = some (.file content)

namespace Grows

variable {changed changed' : List Location}

/-- A tree grows into itself. -/
theorem refl (t : FileTree) (changed : List Location) : t.Grows changed t :=
  ⟨id, fun h => ⟨_, h⟩, fun h _ => h⟩

/-- Growth goes on, and what has changed on either way has changed. -/
theorem trans (h : t.Grows changed t') (h' : t'.Grows changed' t'') :
    t.Grows (changed ++ changed') t'' where
  directory there := h'.directory (h.directory there)
  file there := by
    obtain ⟨content', there'⟩ := h.file there
    exact h'.file there'
  same there unchanged := by
    rw [List.mem_append, not_or] at unchanged
    exact h'.same (h.same there unchanged.1) unchanged.2

/-- A step can be taken again. -/
theorem step (h : t.Grows changed t') {here : Location} {name : String}
    (taken : t.step here name = .ok l) : t'.step here name = .ok l := by
  rw [FileTree.step] at taken ⊢
  split at taken
  · cases taken
  · cases taken
  · next there => rwa [h.directory there]

/-- Any number of steps can be taken again. -/
theorem foldlM_step (h : t.Grows changed t') {steps : List String} {start : Location}
    (taken : steps.foldlM t.step start = .ok l) : steps.foldlM t'.step start = .ok l := by
  induction steps generalizing start with
  | nil => exact taken
  | cons name steps ih =>
    rw [List.foldlM_cons, Outcome.bind_eq_ok_iff] at taken ⊢
    obtain ⟨here, first, rest⟩ := taken
    exact ⟨here, h.step first, ih rest⟩

/-- A path can be followed again. -/
theorem follow (h : t.Grows changed t') {steps : List String}
    (found : t.follow current p steps = .ok l) : t'.follow current p steps = .ok l := by
  rw [FileTree.follow] at found ⊢
  split at found
  · cases found
  split at found
  · cases found
  split at found
  · cases found
  · next zero empty long =>
    rw [if_neg zero, if_neg empty, if_neg long]
    exact h.foldlM_step found

/-- A path leads where it has led. -/
theorem locate (h : t.Grows changed t') (found : t.locate current p = .ok l) :
    t'.locate current p = .ok l :=
  h.follow found

/-- What a path leads to may be missing, and is approached as before. -/
theorem approach (h : t.Grows changed t') (found : t.approach current p = .ok l) :
    t'.approach current p = .ok l :=
  h.follow found

/-- A directory stays one. -/
theorem isDirectory (h : t.Grows changed t') (there : t.isDirectory current p = true) :
    t'.isDirectory current p = true := by
  obtain ⟨l, place, found⟩ := isDirectory_iff.1 there
  exact isDirectory_iff.2 ⟨l, h.locate place, h.directory found⟩

/-- What is present stays so. -/
theorem isPresent (h : t.Grows changed t') (there : t.isPresent current p = true) :
    t'.isPresent current p = true := by
  rw [FileTree.isPresent, find] at there ⊢
  cases place : t.locate current p with
  | error e =>
    rw [place] at there
    cases there
  | ok l =>
    rw [place] at there
    rw [h.locate place]
    simp only [bind, Except.bind] at there ⊢
    cases found : t.lookup l with
    | none =>
      rw [found] at there
      cases there
    | some entry =>
      cases entry with
      | directory =>
        rw [h.directory found]
        rfl
      | file content =>
        obtain ⟨content', found'⟩ := h.file found
        rw [found] at there
        rw [found']
        cases slash : p.hasTrailingSlash with
        | true =>
          rw [slash] at there
          cases there
        | false => rfl

end Grows

/-! ## Directories -/

/-- Where there was nothing there can be a directory. -/
theorem grows_set_directory (free : t.lookup l = none) : t.Grows [] (t.set l .directory) := by
  have kept {l' : Location} {n : Node} (h : t.lookup l' = some n) :
      (t.set l .directory).lookup l' = some n := by
    rw [lookup_set_of_ne t _, h]
    rintro rfl
    rw [free] at h
    cases h
  exact ⟨kept, fun h => ⟨_, kept h⟩, fun h _ => kept h⟩

/-- A directory is made where its path leads, if there is nothing. -/
theorem makeDirectory_eq_ok (h : t.makeDirectory current p = .ok t') :
    ∃ l, t.locate current p = .ok l ∧ t.lookup l = none ∧ t' = t.set l .directory := by
  obtain ⟨l, place, h⟩ := Outcome.bind_eq_ok_iff.1 h
  split at h
  · next free =>
    cases h
    exact ⟨l, place, free, rfl⟩
  · cases h

/-- What has been made a directory is one. -/
theorem isDirectory_of_makeDirectory (h : t.makeDirectory current p = .ok t') :
    t.Grows [] t' ∧ t'.isDirectory current p = true := by
  obtain ⟨l, place, free, rfl⟩ := makeDirectory_eq_ok h
  have grows := grows_set_directory free
  have ne : l ≠ [] := by
    rintro rfl
    cases free
  exact ⟨grows, isDirectory_iff.2 ⟨l, grows.locate place, lookup_set_self t ne _⟩⟩

/-- No directory is made where there is one. -/
theorem makeDirectory_of_isDirectory (there : t.isDirectory current p = true) :
    t.makeDirectory current p = .error .alreadyExists := by
  obtain ⟨l, place, found⟩ := isDirectory_iff.1 there
  rw [makeDirectory, place]
  simp only [bind, Except.bind, found]

/-- Making directories only adds some, also when it stops half way. -/
theorem grows_makeChain (t : FileTree) (current : Location) (chain : List Path) :
    t.Grows [] (t.makeChain current chain).2 := by
  induction chain with
  | nil => exact .refl t []
  | cons p above ih =>
    unfold makeChain
    split
    · exact .refl t []
    split
    · next made => exact (isDirectory_of_makeDirectory made).1
    · split
      · next e t' h => rwa [h] at ih
      · next t' h =>
        rw [h] at ih
        split
        · next made => exact ih.trans (isDirectory_of_makeDirectory made).1
        · exact ih
    · exact .refl t []

/-- A directory is made in the place of its path. -/
theorem lookup_of_makeDirectory (made : t.makeDirectory current p = .ok t')
    (ne : p.place current ≠ l) : t'.lookup l = t.lookup l := by
  obtain ⟨l', place, -, rfl⟩ := makeDirectory_eq_ok made
  rw [← eq_place_of_locate place] at ne
  exact lookup_set_of_ne t ne.symm _

/-- Directories are made in the places of the paths only. -/
theorem lookup_makeChain (t : FileTree) {chain : List Path}
    (ne : ∀ p ∈ chain, p.place current ≠ l) :
    (t.makeChain current chain).2.lookup l = t.lookup l := by
  induction chain with
  | nil => rfl
  | cons p above ih =>
    have ih := ih fun q hq => ne q (List.mem_cons_of_mem p hq)
    have ne := ne p List.mem_cons_self
    unfold makeChain
    split
    · rfl
    split
    · next made => exact lookup_of_makeDirectory made ne
    · split
      · next e t' h => rwa [h] at ih
      · next t' h =>
        rw [h] at ih
        split
        · next made => exact (lookup_of_makeDirectory made ne).trans ih
        · exact ih
    · rfl

/-- Making directories succeeds with a directory at the first path. The empty path is not looked
at. -/
theorem isDirectory_of_makeChain {above : List Path}
    (h : t.makeChain current (p :: above) = (.ok (), t')) :
    p.text.isEmpty = true ∨ t'.isDirectory current p = true := by
  -- Where the directory could not be made, it is looked at whether there is one already.
  have found {t : FileTree} {e : Refusal}
      (h : ((if t.isDirectory current p then .ok () else .error e, t) :
        Except Refusal Unit × FileTree) = (.ok (), t')) : t'.isDirectory current p = true := by
    obtain ⟨ends, rfl⟩ := Prod.mk.inj h
    split at ends
    · assumption
    · cases ends
  unfold makeChain at h
  by_cases empty : p.text.isEmpty = true
  · exact .inl empty
  rw [if_neg empty] at h
  refine .inr ?_
  split at h
  · next made =>
    cases h
    exact (isDirectory_of_makeDirectory made).2
  · split at h
    · cases h
    · split at h
      · next made =>
        cases h
        exact (isDirectory_of_makeDirectory made).2
      · exact found h
  · exact found h

/-- Making directories changes no file. -/
theorem grows_makeDirectories (t : FileTree) (current : Location) (p : Path) :
    t.Grows [] (t.makeDirectories current p).2 :=
  grows_makeChain t current p.ancestors

/-- Nothing is changed apart from a path's ancestors. -/
theorem lookup_makeDirectories (t : FileTree) (ne : ∀ q ∈ p.ancestors, q.place current ≠ l) :
    (t.makeDirectories current p).2.lookup l = t.lookup l :=
  t.lookup_makeChain ne

/-- What is elsewhere than `dest` and everything above it stays when its parent is made. -/
theorem lookup_makeDirectories_parent (t : FileTree) {dest : Path} (hparent : dest.parent? = some p)
    (ne : ∀ q ∈ dest.ancestors, q.place current ≠ l) :
    (t.makeDirectories current p).2.lookup l = t.lookup l :=
  t.lookup_makeDirectories fun q above => ne q (Path.mem_ancestors_iff.2 (.inr ⟨p, hparent, above⟩))

/-- A directory that has been made need not be made again. -/
theorem makeDirectories_again {changed : List Location}
    (made : t.makeDirectories current p = (.ok (), t')) (later : t'.Grows changed t'') :
    t''.makeDirectories current p = (.ok (), t'') := by
  rw [makeDirectories] at made ⊢
  obtain ⟨above, ancestors⟩ := p.exists_ancestors
  rw [ancestors] at made ⊢
  rw [makeChain]
  obtain empty | there := isDirectory_of_makeChain made
  · rw [if_pos empty]
  split
  · rfl
  · rw [makeDirectory_of_isDirectory (later.isDirectory there)]
    simp only [later.isDirectory there, if_true]

/-! ## Files -/

/-- A file is read again as it was, if it is still the same. -/
theorem Grows.read {changed : List Location} (h : t.Grows changed t')
    (read : t.read current p = .ok content)
    (unchanged : ∀ l, t.locate current p = .ok l → l ∉ changed) :
    t'.read current p = .ok content := by
  obtain ⟨l, place, noSlash, found⟩ := read_eq_ok_iff.1 read
  exact read_eq_ok_iff.2 ⟨l, h.locate place, noSlash, h.same found (unchanged l place)⟩

/-- Where there was no directory there can be a file. -/
theorem grows_set_file (free : t.lookup l ≠ some .directory) (content : ByteArray) :
    t.Grows [l] (t.set l (.file content)) where
  directory there := by
    rw [lookup_set_of_ne t _, there]
    rintro rfl
    exact free there
  file {l' content'} there := by
    by_cases same : l' = l
    · subst same
      refine ⟨content, lookup_set_self t ?_ _⟩
      rintro rfl
      exact free rfl
    · exact ⟨content', (lookup_set_of_ne t same _).trans there⟩
  same there unchanged := by
    rw [lookup_set_of_ne t fun same => unchanged (List.mem_singleton.2 same), there]

/-- Writing a file changes this file alone. -/
theorem Puts.grows (h : t.Puts current p content l t') : t.Grows [l] t' :=
  h.result ▸ grows_set_file h.free content

/-- What has been put can be put again. -/
theorem Puts.again {changed : List Location} (h : t.Puts current p content l t')
    (later : t'.Grows changed t'') :
    t''.Puts current p content l (t''.set l (.file content)) where
  locate := later.locate (h.grows.locate h.locate)
  noSlash := h.noSlash
  free := by
    obtain ⟨content', there⟩ := later.file h.lookup_self
    rw [there]
    nofun
  result := rfl

/-- What has been written can be written again. -/
theorem write_again {changed : List Location} (h : t.Puts current p content l t')
    (later : t'.Grows changed t'') :
    t''.write current p content = .ok (t''.set l (.file content)) :=
  write_of_puts (h.again later)

/-! ## Files that are put in place -/

/-- Put files in their places, one after another. -/
def putAll (t : FileTree) (puts : List (Location × ByteArray)) : FileTree :=
  puts.foldl (fun t put => t.set put.1 (.file put.2)) t

/-- Two lists of files are put in place one after the other. -/
theorem putAll_append (t : FileTree) (puts puts' : List (Location × ByteArray)) :
    t.putAll (puts ++ puts') = (t.putAll puts).putAll puts' :=
  List.foldl_append

section PutAll

variable {puts : List (Location × ByteArray)}

/-- Other places are left alone. -/
theorem get?_putAll_of_not_mem (t : FileTree) (h : l ∉ puts.map Prod.fst) :
    (t.putAll puts).nodes.get? l = t.nodes.get? l := by
  induction puts generalizing t with
  | nil => rfl
  | cons put puts ih =>
    rw [List.map_cons, List.mem_cons, not_or] at h
    exact (ih _ h.2).trans (OrderedMap.get?_insert_of_ne _ h.1 _)

/-- What is found in another place is what was found there before. -/
theorem lookup_putAll_of_not_mem (t : FileTree) (h : l ∉ puts.map Prod.fst) :
    (t.putAll puts).lookup l = t.lookup l := by
  rw [lookup, lookup, get?_putAll_of_not_mem t h]

/-- What was in the places before makes no difference. -/
theorem lookup_putAll_of_mem (t t' : FileTree) (h : l ∈ puts.map Prod.fst) :
    (t.putAll puts).lookup l = (t'.putAll puts).lookup l := by
  induction puts generalizing t t' with
  | nil => cases h
  | cons put puts ih =>
    -- The last file in the place counts, so the first one matters only if no other follows.
    by_cases again : l ∈ puts.map Prod.fst
    · exact ih _ _ again
    · obtain rfl : l = put.1 := (List.mem_cons.1 h).resolve_right again
      refine (lookup_putAll_of_not_mem _ again).trans
        (.trans ?_ (lookup_putAll_of_not_mem _ again).symm)
      by_cases root : put.1 = []
      · rw [root]
        rfl
      · rw [lookup_set_self t root, lookup_set_self t' root]

/-- A tree holds files that have been put: to put them again would change nothing. -/
structure Holds (t : FileTree) (puts : List (Location × ByteArray)) : Prop where
  file {l : Location} (h : l ∈ puts.map Prod.fst) : ∃ content, t.lookup l = some (.file content)
  last {l : Location} (h : l ∈ puts.map Prod.fst) : (t.putAll puts).lookup l = t.lookup l

namespace Holds

/-- Every tree holds no files at all. -/
theorem nil (t : FileTree) : t.Holds [] :=
  ⟨nofun, nofun⟩

/-- A file that has been put is held. -/
theorem of_puts (h : t.Puts current p content l t') : t'.Holds [(l, content)] where
  file there := by
    obtain rfl := List.mem_singleton.1 there
    exact ⟨content, h.lookup_self⟩
  last there := by
    obtain rfl := List.mem_singleton.1 there
    exact (lookup_set_self t' h.ne_nil _).trans h.lookup_self.symm

variable {puts' : List (Location × ByteArray)} {changed : List Location}

/-- Put into any tree, the files are those that the tree holds. -/
theorem lookup_putAll (h : t.Holds puts) (t' : FileTree) (there : l ∈ puts.map Prod.fst) :
    (t'.putAll puts).lookup l = t.lookup l :=
  (lookup_putAll_of_mem t' t there).trans (h.last there)

/-- To put files in place that a tree holds leaves it as it is. -/
theorem putAll_eq_self (h : t.Holds puts) : t.putAll puts = t := by
  have same : (t.putAll puts).nodes = t.nodes := by
    refine OrderedMap.ext fun l => ?_
    by_cases there : l ∈ puts.map Prod.fst
    · have ne : l ≠ [] := by
        rintro rfl
        obtain ⟨content, found⟩ := h.file there
        cases found
      simpa [lookup, ne] using h.last there
    · exact get?_putAll_of_not_mem t there
  exact congrArg FileTree.mk same

/-- What is put later does not take away what is held. -/
theorem append (h : t.Holds puts) (grows : t.Grows (puts'.map Prod.fst) t')
    (h' : t'.Holds puts') : t'.Holds (puts ++ puts') where
  file there := by
    rw [List.map_append, List.mem_append] at there
    obtain there | there := there
    · obtain ⟨content, found⟩ := h.file there
      exact grows.file found
    · exact h'.file there
  last {l} there := by
    rw [putAll_append]
    by_cases later : l ∈ puts'.map Prod.fst
    · exact h'.lookup_putAll _ later
    · rw [List.map_append, List.mem_append, or_iff_left later] at there
      obtain ⟨content, found⟩ := h.file there
      rw [lookup_putAll_of_not_mem _ later, h.lookup_putAll _ there, found,
        grows.same found later]

/-- When the files are put again into a later tree, no other files are changed than those that have
been put since, and those that are not put again. -/
theorem grows_putAll {again : FileTree} (h : t.Holds puts)
    (since : t.Grows (puts'.map Prod.fst) t') (later : t'.Grows changed again) :
    t'.Grows (puts'.map Prod.fst ++ changed.filter (· ∉ puts.map Prod.fst))
      (again.putAll puts) where
  directory {l} there := by
    by_cases put : l ∈ puts.map Prod.fst
    · obtain ⟨content, found⟩ := h.file put
      obtain ⟨content', found'⟩ := since.file found
      cases there.symm.trans found'
    · rw [lookup_putAll_of_not_mem _ put, later.directory there]
  file {l content} there := by
    by_cases put : l ∈ puts.map Prod.fst
    · rw [h.lookup_putAll _ put]
      exact h.file put
    · rw [lookup_putAll_of_not_mem _ put]
      exact later.file there
  same {l content} there unchanged := by
    rw [List.mem_append, not_or] at unchanged
    -- What was held at first is still there, unless something has been put since.
    by_cases put : l ∈ puts.map Prod.fst
    · obtain ⟨content', found⟩ := h.file put
      rw [h.lookup_putAll _ put, found, ← since.same found unchanged.1, there]
    · rw [lookup_putAll_of_not_mem _ put]
      refine later.same there fun change => unchanged.2 ?_
      exact List.mem_filter.2 ⟨change, decide_eq_true put⟩

end Holds

end PutAll

end FileTree

end OverlaySync
