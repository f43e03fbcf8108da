import OverlaySync.Proofs.Files.Growth
import OverlaySync.Proofs.Host.Sessions

/-! # Sessions that can be taken again

A session takes its course in a world: it reads some files, makes directories and puts some files in
place. In a later world, in which what it has made is still there and what it has read is the same,
it ends as before and only puts its files in place again (`Course`). Courses can be taken one after
the other if the later one puts no file where the earlier one has read one (`Course.bind`). A course
that is taken again at once changes nothing (`Course.repeats`). -/

namespace OverlaySync

variable {α β : Type}

/-- In the world `w` the session ends well, with the result `a`. It reads the files in `reads`, puts
the files in `puts` in their places, and leaves the tree `t`. -/
structure Course (s : Session α) (w : World) (a : α) (reads : List Location)
    (puts : List (Location × ByteArray)) (t : FileTree) : Prop where
  result : w.execute s = (.ok a, w.withFiles t)
  /-- Nothing is taken away, and no other files are changed. -/
  grows : w.files.Grows (puts.map Prod.fst) t
  /-- The files that have been put are there. -/
  holds : t.Holds puts
  /-- No file is put where one has been read. -/
  apart : ∀ l ∈ reads, l ∉ puts.map Prod.fst
  /-- Later, the session ends in the same way. -/
  again {changed : List Location} {t' : FileTree} (later : t.Grows changed t')
    (same : ∀ l ∈ reads, l ∉ changed) :
    (w.withFiles t').execute s = (.ok a, w.withFiles (t'.putAll puts))

namespace Course

variable {s s' : Session α} {w : World} {a : α} {b : β} {reads reads' : List Location}
  {puts puts' : List (Location × ByteArray)} {t t' : FileTree}

/-- A course that is taken again at once changes nothing. -/
theorem repeats (h : Course s w a reads puts t) :
    (w.withFiles t).execute s = (.ok a, w.withFiles t) := by
  have same := h.again (.refl t []) fun _ _ => List.not_mem_nil
  rwa [h.holds.putAll_eq_self] at same

/-- To do nothing reads nothing and puts nothing. -/
theorem pure (w : World) (a : α) : Course (Pure.pure a) w a [] [] w.files where
  result := rfl
  grows := .refl w.files []
  holds := .nil w.files
  apart := nofun
  again _ _ := rfl

/-- One course after the other: what the first one has put need not be there before. -/
theorem bind {f : α → Session β} (h : Course s w a reads puts t)
    (h' : Course (f a) (w.withFiles t) b reads' puts' t')
    (apart : ∀ l ∈ reads, l ∉ puts'.map Prod.fst) :
    Course (s >>= f) w b (reads ++ reads'.filter (· ∉ puts.map Prod.fst)) (puts ++ puts') t' where
  result := by
    rw [World.execute_bind, h.result]
    exact h'.result
  grows := by
    rw [List.map_append]
    exact h.grows.trans h'.grows
  holds := h.holds.append h'.grows h'.holds
  apart l there := by
    rw [List.map_append, List.mem_append, not_or]
    rw [List.mem_append, List.mem_filter, decide_eq_true_iff] at there
    obtain there | ⟨there, unput⟩ := there
    · exact ⟨h.apart l there, apart l there⟩
    · exact ⟨unput, h'.apart l there⟩
  again {changed again} later same := by
    -- For the first session, what the second one has put counts among the later changes.
    have sinceFirst : t.Grows (puts'.map Prod.fst ++ changed) again := h'.grows.trans later
    have first := h.again sinceFirst fun l there => by
      rw [List.mem_append, not_or]
      exact ⟨apart l there, same l (List.mem_append_left _ there)⟩
    -- For the second one, what the first one has just put again is no change any more.
    have second := h'.again (h.holds.grows_putAll h'.grows later) fun l there => by
      rw [List.mem_append, List.mem_filter, decide_eq_true_iff, not_or, not_and]
      refine ⟨h'.apart l there, fun change unput => same l ?_ change⟩
      exact List.mem_append_right _ (List.mem_filter.2 ⟨there, decide_eq_true unput⟩)
    rw [World.execute_bind, first, FileTree.putAll_append]
    exact second

/-- What follows a session that only writes. -/
theorem bind_of_writes {f : α → Session β} (h : Course s w a [] puts t)
    (h' : Course (f a) (w.withFiles t) b reads' puts' t') :
    Course (s >>= f) w b (reads'.filter (· ∉ puts.map Prod.fst)) (puts ++ puts') t' :=
  h.bind h' nofun

/-- What follows a session that only writes, and only writes itself. -/
theorem andThen {s : Session Unit} {s' : Session β} (h : Course s w () [] puts t)
    (h' : Course s' (w.withFiles t) b [] puts' t') :
    Course (do s; s') w b [] (puts ++ puts') t' :=
  bind_of_writes (f := fun _ => s') h h'

/-- What follows a session that only reads. -/
theorem bind_of_reads {f : α → Session β} (h : Course s w a reads [] w.files)
    (h' : Course (f a) w b reads' puts t) (apart : ∀ l ∈ reads, l ∉ puts.map Prod.fst) :
    Course (s >>= f) w b (reads ++ reads') puts t := by
  have all : reads'.filter (· ∉ ([] : List (Location × ByteArray)).map Prod.fst) = reads' :=
    List.filter_eq_self.2 fun _ _ => decide_eq_true List.not_mem_nil
  have both := h.bind h' apart
  rwa [all] at both

/-! ## Reading -/

/-- A session that depends on the content of one file reads this file. -/
theorem of_read {p : Path} {content : ByteArray} (read : w.files.read w.current p = .ok content)
    (reads : ∀ t, t.read w.current p = .ok content →
      (w.withFiles t).execute s = (.ok a, w.withFiles t)) :
    ∃ l, w.files.locate w.current p = .ok l ∧ Course s w a [l] [] w.files := by
  obtain ⟨l, place, -, -⟩ := FileTree.read_eq_ok_iff.1 read
  refine ⟨l, place, ?_, .refl w.files [], .nil w.files, fun _ _ => List.not_mem_nil, ?_⟩
  · exact reads w.files read
  · intro changed t' later same
    refine reads t' (later.read read fun l' place' => ?_)
    cases place.symm.trans place'
    exact same l (List.mem_singleton_self l)

/-- A session that only reads, and has a result on condition of the content of a file. -/
theorem of_readsOnly {p : Path} {content : ByteArray} (only : ReadsOnly s)
    (read : w.files.read w.current p = .ok content)
    (result : ∀ t, t.read w.current p = .ok content → ((w.withFiles t).execute s).1 = .ok a) :
    ∃ l, w.files.locate w.current p = .ok l ∧ Course s w a [l] [] w.files :=
  of_read read fun t same => Prod.ext (result t same) (only (w.withFiles t))

/-- A text that is read takes a course that reads its file. -/
theorem readText {p : Path} {text : String} (h : (w.execute (Host.readText p)).1 = .ok text) :
    ∃ l, w.files.locate w.current p = .ok l ∧ Course (Host.readText p) w text [l] [] w.files :=
  of_readsOnly (readsOnly_readText p) (World.execute_readText_eq_ok_iff.1 h) fun _ same =>
    World.execute_readText_eq_ok_iff.2 same

/-- The deps file of a release is the only file that is read for its branch. -/
theorem branchOf {p : Path} {version branch : String}
    (h : (w.execute (Release.branchOf p version)).1 = .ok branch) :
    ∃ l, w.files.locate w.current p = .ok l ∧
      Course (Release.branchOf p version) w branch [l] [] w.files := by
  obtain ⟨content, read, found⟩ := World.execute_branchOf_eq_ok_iff.1 h
  exact of_readsOnly (readsOnly_branchOf p version) read fun _ same =>
    World.execute_branchOf_eq_ok_iff.2 ⟨content, same, found⟩

/-- The file of a manifest is the only one that is read for it. -/
theorem ofFile {p : Path} {m : Manifest} (h : (w.execute (Manifest.ofFile p)).1 = .ok m) :
    ∃ l, w.files.locate w.current p = .ok l ∧ Course (Manifest.ofFile p) w m [l] [] w.files := by
  obtain ⟨source, read, parsed⟩ := World.execute_ofFile_eq_ok_iff.1 h
  exact of_readsOnly (readsOnly_ofFile p) read fun _ same =>
    World.execute_ofFile_eq_ok_iff.2 ⟨source, same, parsed⟩

/-! ## Writing -/

/-- A session that puts a file in its place, and can put it there again. -/
theorem of_puts {s : Session Unit} {p : Path} {content : ByteArray} {l : Location}
    (h : w.files.Puts w.current p content l t) (result : w.execute s = (.ok (), w.withFiles t))
    (again : ∀ changed t', t.Grows changed t' →
      (w.withFiles t').execute s = (.ok (), w.withFiles (t'.set l (.file content)))) :
    Course s w () [] [(l, content)] t where
  result := result
  grows := h.grows
  holds := .of_puts h
  apart := nofun
  again later _ := again _ _ later

end Course

namespace World

/-- What a session that ends well consists of. -/
theorem execute_bind_eq_ok {w w' : World} {s : Session α} {f : α → Session β} {b : β}
    (h : w.execute (s >>= f) = (.ok b, w')) :
    ∃ a w₁, w.execute s = (.ok a, w₁) ∧ w₁.execute (f a) = (.ok b, w') := by
  rw [execute_bind] at h
  rcases first : w.execute s with ⟨_ | a, w₁⟩
  · rw [first] at h
    cases h
  · rw [first] at h
    exact ⟨a, w₁, rfl, h⟩

variable {w w' : World} {p : Path} {content : ByteArray}

/-- A change that puts a file in its place, and can put it there again, takes its course. -/
theorem course_edit (change : World → Except Refusal FileTree)
    (puts : ∀ t, change w = .ok t → ∃ l, w.files.Puts w.current p content l t)
    (again : ∀ l t changed t', change w = .ok t → w.files.Puts w.current p content l t →
      t.Grows changed t' → change (w.withFiles t') = .ok (t'.set l (.file content)))
    (h : w.execute (Host.attempt (modifyGet fun w => w.edit (change w))) = (.ok (), w')) :
    ∃ l t, w' = w.withFiles t ∧ w.files.Puts w.current p content l t ∧
      Course (Host.attempt (modifyGet fun w => w.edit (change w))) w () [] [(l, content)] t := by
  have first := (w.execute_attempt_edit change).symm.trans h
  cases changed : change w with
  | error e =>
    rw [changed] at first
    cases first
  | ok t =>
    rw [changed] at first
    cases first
    obtain ⟨l, put⟩ := puts t changed
    refine ⟨l, t, rfl, put, .of_puts put h fun _ t' later => ?_⟩
    rw [execute_attempt_edit, again l t _ t' changed put later]
    rfl

/-- Writing a file takes its course. -/
theorem course_write (h : w.execute (Host.attempt (Host.write p content)) = (.ok (), w')) :
    ∃ l t, w' = w.withFiles t ∧ w.files.Puts w.current p content l t ∧
      Course (Host.attempt (Host.write p content)) w () [] [(l, content)] t :=
  course_edit (fun w => w.files.write w.current p content) (fun _ => FileTree.puts_of_write)
    (fun _ _ _ _ _ => FileTree.write_again) h

/-- Replacing a file takes its course. -/
theorem course_replace (h : w.execute (Host.attempt (Host.replace p content)) = (.ok (), w')) :
    ∃ l t, w' = w.withFiles t ∧ w.files.Puts w.current p content l t ∧
      Course (Host.attempt (Host.replace p content)) w () [] [(l, content)] t := by
  have steps (w : World) : w.execute (Host.attempt (Host.replace p content)) =
      ((w.files.replace w.current p content).1.mapError Failure.system,
        w.withFiles (w.files.replace w.current p content).2) := rfl
  have first := (steps w).symm.trans h
  obtain ⟨-, l, t, put, replaced⟩ | ⟨-, e, refused⟩ := w.files.replace_cases w.current p content
  · rw [replaced] at first
    cases first
    refine ⟨l, t, rfl, put, .of_puts put h fun _ t' later => ?_⟩
    rw [steps, show (w.withFiles t').files.replace (w.withFiles t').current p content = _ from
      FileTree.replace_again replaced put later]
    rfl
  · rw [refused] at first
    cases first

/-- Making directories takes its course. -/
theorem course_makeDirectories
    (h : w.execute (Host.attempt (Host.makeDirectories p)) = (.ok (), w')) :
    ∃ t, w' = w.withFiles t ∧
      Course (Host.attempt (Host.makeDirectories p)) w () [] [] t := by
  have steps (w : World) : w.execute (Host.attempt (Host.makeDirectories p)) =
      ((w.files.makeDirectories w.current p).1.mapError Failure.system,
        w.withFiles (w.files.makeDirectories w.current p).2) := rfl
  have first := (steps w).symm.trans h
  rcases made : w.files.makeDirectories w.current p with ⟨_ | _, t⟩
  · rw [made] at first
    cases first
  · rw [made] at first
    cases first
    have grows := w.files.grows_makeDirectories w.current p
    rw [made] at grows
    refine ⟨t, rfl, h, grows, .nil t, nofun, fun {_ t'} later _ => ?_⟩
    rw [steps, show (w.withFiles t').files.makeDirectories (w.withFiles t').current p = _ from
      FileTree.makeDirectories_again made later]
    rfl

end World

end OverlaySync
