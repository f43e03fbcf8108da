import OverlaySync.Proofs.Host.Sessions

/-! # Writing the descriptor

A descriptor is written by way of a file aside. It is all written or not at all, whatever refuses a
step on the way (`World.write_all_or_nothing`). -/

namespace OverlaySync

/-- What is left of a tree, and how that has come: a file has been put at a path, or nothing has
changed. -/
inductive FileTree.AllOrNothing (t : FileTree) (current : Location) (p : Path)
    (content : ByteArray) : Except Refusal Unit × FileTree → Prop where
  /-- The file is there. -/
  | all {l : Location} {t' : FileTree} (puts : t.Puts current p content l t') :
      AllOrNothing t current p content (.ok (), t')
  /-- The tree is as it was. -/
  | nothing (e : Refusal) : AllOrNothing t current p content (.error e, t)

/-- By way of any name and with any hindrances, a descriptor is put at the path or the tree is as it
was. Without hindrances it is put there exactly if the file can be replaced, so that its directory
is there and it is no directory itself. Otherwise nothing of the world has changed. -/
theorem World.write_all_or_nothing (w : World) (d : Descriptor) (p : Path) :
    (∀ number hindrances, w.files.AllOrNothing w.current p d.render.toUTF8
      (w.files.replaceVia w.current p d.render.toUTF8 number hindrances)) ∧
    ((w.files.Replaceable w.current p ∧ w.files.isDirectory w.current p.holder = true ∧
        w.files.isDirectory w.current p = false ∧
        ∃ l files, w.files.Puts w.current p d.render.toUTF8 l files ∧
          w.execute (d.write p) = (.ok (), w.withFiles files)) ∨
      ¬w.files.Replaceable w.current p ∧
        ∃ e, w.execute (d.write p) = (.error (.system e), w)) := by
  constructor
  · intro number hindrances
    obtain ⟨-, l, files, puts, replaced⟩ | ⟨-, e, refused⟩ :=
      w.files.replaceVia_cases w.current p d.render.toUTF8 number hindrances
    · rw [replaced]
      exact .all puts
    · rw [refused]
      exact .nothing e
  · rw [execute_writeDescriptor_eq]
    obtain ⟨can, l, files, puts, replaced⟩ | ⟨cannot, e, refused⟩ :=
      w.files.replace_cases w.current p d.render.toUTF8
    · rw [replaced]
      -- Where a file can be put there is no directory.
      have file : w.files.isDirectory w.current p = false := by
        rw [Bool.eq_false_iff, ne_eq, FileTree.isDirectory_iff]
        rintro ⟨l', place, directory⟩
        cases puts.locate.symm.trans place
        exact puts.free directory
      have holder := FileTree.isDirectory_holder can.writable can.named
      exact .inl ⟨can, holder, file, l, files, puts, rfl⟩
    · rw [refused]
      exact .inr ⟨cannot, e, rfl⟩

end OverlaySync
