import OverlaySync.Generation
import OverlaySync.Host.World
import OverlaySync.Proofs.Files.Replacing

/-! # What sessions change

A session that only reads leaves the world as it is, however it ends, so what follows it runs in the
same world. Sessions that write put one file at one path, or change nothing. -/

namespace OverlaySync

variable {α β : Type}

/-! ## Reading -/

/-- The session leaves every world as it is. -/
def ReadsOnly (s : Session α) : Prop :=
  ∀ w : World, (w.execute s).2 = w

namespace ReadsOnly

/-- To do nothing reads nothing and changes nothing. -/
theorem pure (a : α) : ReadsOnly (Pure.pure a : Session α) := fun _ => rfl

/-- A failure reads nothing and changes nothing. -/
theorem throw (e : Failure) : ReadsOnly (MonadExcept.throw e : Session α) := fun _ => rfl

/-- What a computation has come to changes nothing. -/
theorem ofExcept (x : Except Failure α) : ReadsOnly (MonadExcept.ofExcept x : Session α) := by
  cases x with
  | error e => exact throw e
  | ok a => exact pure a

/-- An action that leaves every world as it is only reads. -/
theorem ask {action : StateM World α} (h : ∀ w, (action.run w).2 = w) :
    ReadsOnly (Host.ask action) := fun w => by
  rw [World.execute_ask]
  exact h w

/-- An action that leaves every world as it is only reads, also if it can be refused. -/
theorem attempt {action : StateM World (Except Refusal α)} (h : ∀ w, (action.run w).2 = w) :
    ReadsOnly (Host.attempt action) := fun w => by
  rw [World.execute_attempt]
  exact h w

/-- Two sessions in a row only read if each of them does, whatever the second one is handed. -/
theorem bind {s : Session α} {f : α → Session β} (hs : ReadsOnly s) (hf : ∀ a, ReadsOnly (f a)) :
    ReadsOnly (s >>= f) := by
  intro w
  have first := hs w
  rw [World.execute_bind]
  rcases hr : w.execute s with ⟨r, w'⟩
  rw [hr] at first
  cases r with
  | error e => exact first
  | ok a => exact (hf a w').trans first

end ReadsOnly

/-- What follows a session that only reads runs in the same world. -/
theorem World.execute_bind_of_readsOnly {s : Session α} (h : ReadsOnly s) (w : World)
    (f : α → Session β) :
    w.execute (s >>= f) =
      match (w.execute s).1 with
      | .ok a => w.execute (f a)
      | .error e => (.error e, w) := by
  have same := h w
  rw [World.execute_bind]
  rcases hr : w.execute s with ⟨r, w'⟩
  rw [hr] at same
  cases same
  cases r <;> rfl

/-- Reading a text changes nothing. -/
theorem readsOnly_readText (p : Path) : ReadsOnly (Host.readText (m := StateM World) p) := by
  refine .bind (.attempt fun _ => rfl) fun content => ?_
  split
  · exact .pure _
  · exact .throw _

/-- A text is read from a file that holds its bytes. -/
theorem World.execute_readText_eq_ok_iff {w : World} {p : Path} {text : String} :
    (w.execute (Host.readText p)).1 = .ok text ↔ w.files.read w.current p = .ok text.toUTF8 := by
  have bytes : w.execute (Host.attempt (Host.read p)) =
      ((w.files.read w.current p).mapError Failure.system, w) := rfl
  unfold Host.readText
  rw [World.execute_bind, bytes]
  cases w.files.read w.current p with
  | error e => exact ⟨nofun, nofun⟩
  | ok content =>
    dsimp only [Outcome.mapError_ok]
    rw [Except.ok.injEq]
    -- Bytes that are no text are a failure, and a text has one encoding.
    cases decoded : Unicode.decode? content with
    | none =>
      refine ⟨nofun, ?_⟩
      rintro rfl
      rw [Unicode.decode?_toUTF8] at decoded
      cases decoded
    | some s =>
      have same := Unicode.eq_toUTF8_of_decode? decoded
      constructor
      · rintro ⟨⟩
        exact same
      · rintro rfl
        rw [Unicode.decode?_toUTF8, Option.some.injEq] at decoded
        rw [decoded]
        rfl

/-- Reading a manifest changes nothing. -/
theorem readsOnly_ofFile (p : Path) : ReadsOnly (Manifest.ofFile (m := StateM World) p) := by
  refine .bind (.ask fun _ => rfl) fun there => ?_
  split
  · exact .bind (readsOnly_readText p) fun _ => .ofExcept _
  · exact .throw _

/-- The manifest in a file that is there is what its text says. -/
theorem World.execute_ofFile {w : World} {p : Path} {source : String}
    (present : w.files.isPresent w.current p = true)
    (text : (w.execute (Host.readText p)).1 = .ok source) :
    (w.execute (Manifest.ofFile p)).1 = Manifest.parse source p := by
  have there : w.execute (Host.ask (Host.isPresent p)) = (.ok true, w) := by
    rw [World.execute_ask, ← present]
    rfl
  unfold Manifest.ofFile
  rw [World.execute_bind, there]
  dsimp only
  rw [if_pos rfl, World.execute_bind_of_readsOnly (readsOnly_readText p), text]
  dsimp only
  cases Manifest.parse source p <;> rfl

/-- A manifest is read from a file that holds its text. -/
theorem World.execute_ofFile_eq_ok_iff {w : World} {p : Path} {m : Manifest} :
    (w.execute (Manifest.ofFile p)).1 = .ok m ↔
      ∃ source, w.files.read w.current p = .ok source.toUTF8 ∧ Manifest.parse source p = .ok m := by
  have there : w.execute (Host.ask (Host.isPresent p)) =
      (.ok (w.files.isPresent w.current p), w) := rfl
  unfold Manifest.ofFile
  rw [World.execute_bind, there]
  dsimp only
  constructor
  · intro h
    split at h
    · rw [World.execute_bind_of_readsOnly (readsOnly_readText p)] at h
      split at h
      · next source text =>
        refine ⟨source, World.execute_readText_eq_ok_iff.1 text, ?_⟩
        cases parsed : Manifest.parse source p <;> rw [parsed] at h <;> cases h
        rfl
      · cases h
    · cases h
  · rintro ⟨source, read, parsed⟩
    rw [if_pos (FileTree.isPresent_of_read read),
      World.execute_bind_of_readsOnly (readsOnly_readText p),
      World.execute_readText_eq_ok_iff.2 read]
    dsimp only
    rw [parsed]
    rfl

/-- Looking for a branch changes nothing. -/
theorem readsOnly_branchOf (p : Path) (version : String) :
    ReadsOnly (Release.branchOf (m := StateM World) p version) := by
  refine .bind (.attempt fun _ => rfl) fun content => ?_
  split
  · exact .pure _
  · exact .throw _
  · exact .throw _

/-- A release's branch is the one that its deps file gives. -/
theorem World.execute_branchOf_eq_ok_iff {w : World} {p : Path} {version branch : String} :
    (w.execute (Release.branchOf p version)).1 = .ok branch ↔
      ∃ content, w.files.read w.current p = .ok content ∧
        Release.branchIn content = .ok (some branch) := by
  have bytes : w.execute (Host.attempt (Host.read p)) =
      ((w.files.read w.current p).mapError Failure.system, w) := rfl
  unfold Release.branchOf
  rw [World.execute_bind, bytes]
  cases w.files.read w.current p with
  | error e =>
    refine ⟨nofun, ?_⟩
    rintro ⟨content, ⟨⟩, -⟩
  | ok content =>
    simp only [Outcome.mapError_ok, Except.ok.injEq, exists_eq_left']
    cases found : Release.branchIn content with
    | error e =>
      constructor
      · intro ends
        cases ends
      · intro names
        cases names
    | ok branch? =>
      cases branch? with
      | none =>
        constructor
        · intro ends
          cases ends
        · intro names
          cases names
      | some b =>
        change (Except.ok b : Except Failure String) = .ok branch ↔ _
        rw [Except.ok.injEq, Except.ok.injEq, Option.some.injEq]

/-! ## Writing -/

namespace World

/-- A change of the files happens, or is refused and leaves the world as it is. -/
theorem execute_attempt_edit (w : World) (change : World → Except Refusal FileTree) :
    w.execute (Host.attempt (modifyGet fun w => w.edit (change w))) =
      match change w with
      | .ok files => (.ok (), w.withFiles files)
      | .error e => (.error (.system e), w) := by
  rw [execute_attempt]
  change ((w.edit (change w)).1.mapError Failure.system, (w.edit (change w)).2) = _
  cases change w <;> rfl

/-- A text that is written takes the place of the file, or no file can be put there and the world
stays as it is. -/
theorem execute_writeText (w : World) (p : Path) (text : String) :
    (¬w.files.Writable w.current p ∧ ∃ e, w.execute (Host.writeText p text) = (.error e, w)) ∨
      ∃ l files, w.files.Puts w.current p text.toUTF8 l files ∧
        w.execute (Host.writeText p text) = (.ok (), w.withFiles files) := by
  have steps := execute_attempt_edit w fun w => w.files.write w.current p text.toUTF8
  rw [show w.execute (Host.writeText p text) = _ from steps]
  cases h : w.files.write w.current p text.toUTF8 with
  | error e =>
    refine .inl ⟨fun writable => ?_, _, rfl⟩
    obtain ⟨files, written⟩ := FileTree.write_of_writable writable text.toUTF8
    rw [h] at written
    cases written
  | ok files =>
    obtain ⟨l, puts⟩ := FileTree.puts_of_write h
    exact .inr ⟨l, files, puts, rfl⟩

/-- A descriptor is written by replacing the file as a whole. -/
theorem execute_writeDescriptor_eq (w : World) (d : Descriptor) (p : Path) :
    w.execute (d.write p) =
      ((w.files.replace w.current p d.render.toUTF8).1.mapError Failure.system,
        w.withFiles (w.files.replace w.current p d.render.toUTF8).2) := rfl

/-- A descriptor that is written takes the place of the file, or the world stays as it is. -/
theorem execute_writeDescriptor (w : World) (d : Descriptor) (p : Path) :
    (∃ e, w.execute (d.write p) = (.error e, w)) ∨
      ∃ l files, w.files.Puts w.current p d.render.toUTF8 l files ∧
        w.execute (d.write p) = (.ok (), w.withFiles files) := by
  rw [execute_writeDescriptor_eq]
  obtain ⟨-, l, files, puts, replaced⟩ | ⟨-, e, refused⟩ :=
    w.files.replace_cases w.current p d.render.toUTF8
  · rw [replaced]
    exact .inr ⟨l, files, puts, rfl⟩
  · rw [refused]
    exact .inl ⟨_, rfl⟩

end World

end OverlaySync
