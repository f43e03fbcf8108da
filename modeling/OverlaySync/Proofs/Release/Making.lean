import OverlaySync.Proofs.Host.Sessions

/-! # How the deps file for git is made

A checkout may leave anything, whether it succeeds or not. What is left of a world after its calls
is `Checkout.after`; beyond that, making the deps file for git of a release changes this file only,
and only when all that comes before has gone well (`Release.Prepared`). -/

namespace OverlaySync

/-- The world after some calls of a checkout, whatever they come to. -/
def Checkout.after (c : Checkout (StateM World)) (w : World) (calls : List Request) : World :=
  calls.foldl (fun w call => (w.execute (c.handle call)).2) w

/-- What follows a call of a checkout runs in the world that the call leaves. -/
theorem World.execute_bind_handle {α : Type} (w : World) (c : Checkout (StateM World))
    (call : Request) (f : Unit → Session α) :
    w.execute (c.handle call >>= f) =
      match (w.execute (c.handle call)).1 with
      | .ok () => (c.after w [call]).execute (f ())
      | .error e => (.error e, c.after w [call]) := by
  rw [execute_bind]
  rcases hr : w.execute (c.handle call) with ⟨r, w'⟩
  have left : c.after w [call] = w' := congrArg Prod.snd hr
  rw [left]
  cases r <;> rfl

/-! ## Patching -/

namespace Diff

/-- The text that a diff makes of the file at a path. -/
def Patched (w : World) (source : Path) (diff patched : String) : Prop :=
  ∃ d content, FileDiff.parse (source.fileName?.getD "") diff = .ok d ∧
    (w.execute (Host.readText source)).1 = .ok content ∧ d.apply content = .ok patched

/-- The file and the diff make one text. -/
theorem Patched.unique {w : World} {source : Path} {diff patched patched' : String}
    (h : Patched w source diff patched) (h' : Patched w source diff patched') :
    patched = patched' := by
  obtain ⟨d, content, hparse, hcontent, happly⟩ := h
  obtain ⟨d', content', hparse', hcontent', happly'⟩ := h'
  cases hparse.symm.trans hparse'
  cases hcontent.symm.trans hcontent'
  cases happly.symm.trans happly'
  rfl

/-- Patching writes the patched text to its place; or there is no such text, or no file can be put
there, and nothing changes. -/
theorem execute_patchFile (w : World) (source : Path) (diff : String) (dest : Path) :
    ((∀ patched, Patched w source diff patched → ¬w.files.Writable w.current dest) ∧
        ∃ e, w.execute (patchFile source diff dest) = (.error e, w)) ∨
      ∃ patched l files, Patched w source diff patched ∧
        w.files.Puts w.current dest patched.toUTF8 l files ∧
        w.execute (patchFile source diff dest) = (.ok (), w.withFiles files) := by
  unfold patchFile
  dsimp only
  -- Whatever goes wrong before the file is written, there is no patched text that could be.
  cases hparse : FileDiff.parse (source.fileName?.getD "") diff with
  | error f =>
    refine .inl ⟨?_, _, rfl⟩
    rintro patched ⟨d, content, parsed, -⟩
    cases hparse.symm.trans parsed
  | ok d =>
    dsimp only
    rw [World.execute_bind_of_readsOnly (readsOnly_readText source)]
    cases hcontent : (w.execute (Host.readText source)).1 with
    | error e =>
      refine .inl ⟨?_, e, rfl⟩
      rintro patched ⟨d, content, -, read, -⟩
      cases hcontent.symm.trans read
    | ok content =>
      dsimp only
      cases happly : d.apply content with
      | error f =>
        refine .inl ⟨?_, _, rfl⟩
        rintro patched ⟨d', content', parsed, read, applied⟩
        cases hparse.symm.trans parsed
        cases hcontent.symm.trans read
        cases happly.symm.trans applied
      | ok patched =>
        obtain ⟨full, h⟩ | ⟨l, files, puts, h⟩ := w.execute_writeText dest patched
        · exact .inl ⟨fun _ _ => full, h⟩
        · exact .inr ⟨patched, l, files, ⟨d, content, hparse, hcontent, happly⟩, puts, h⟩

end Diff

/-! ## Calls of the checkout -/

namespace Release

variable (c : Checkout (StateM World)) (p : Places) (version : String) (w : World)

/-- The calls that are made for a release. The second one needs the first one to succeed and the
release to refer to a branch. -/
inductive Calls : List Request → Prop where
  | none : Calls []
  | release : Calls [request p version]
  | branch {branch : String} (fetched : (w.execute (c.handle (request p version))).1 = .ok ())
      (found : ((c.after w [request p version]).execute (branchOf p.deps version)).1 = .ok branch) :
      Calls [request p version, branchRequest p branch]

/-- The world after both calls. -/
def fetchedWorld (branch : String) : World :=
  c.after w [request p version, branchRequest p branch]

/-- All that has to go well before the deps file for git is written with the text `patched`. -/
structure Prepared (branch patched : String) : Prop where
  /-- The release is fetched. -/
  fetched : (w.execute (c.handle (request p version))).1 = .ok ()
  /-- Its deps file refers to the branch. -/
  found : ((c.after w [request p version]).execute (branchOf p.deps version)).1 = .ok branch
  /-- The branch's deps file for git is fetched. -/
  branchFetched :
    ((c.after w [request p version]).execute (c.handle (branchRequest p branch))).1 = .ok ()
  /-- The diff is read, and it applies. -/
  applies : ∃ diff,
    ((fetchedWorld c p version w branch).execute (Host.readText p.diff)).1 = .ok diff ∧
    Diff.Patched (fetchedWorld c p version w branch) p.branchGitDeps diff patched

/-- A release that is prepared has been asked for twice: itself, and the branch it refers to. -/
theorem Prepared.calls {c : Checkout (StateM World)} {p : Places} {version : String} {w : World}
    {branch patched : String} (h : Prepared c p version w branch patched) :
    Calls c p version w [request p version, branchRequest p branch] :=
  .branch h.fetched h.found

/-- The branch's deps file for git is asked for: the release is fetched, and its deps file, as it is
then, refers to the branch. -/
structure Asks (branch : String) : Prop where
  fetched : (w.execute (c.handle (request p version))).1 = .ok ()
  found : ∃ content, (c.after w [request p version]).files.read
      (c.after w [request p version]).current p.deps = .ok content ∧
    branchIn content = .ok (some branch)

/-- How the deps file for git is made: the branch is not asked for; or it is, and something behind
that goes wrong; or the file is written. What goes wrong changes nothing beyond what the calls
change. -/
theorem makeGitDeps_cases :
    ((∀ branch, ¬Asks c p version w branch) ∧
      ∃ e, w.execute (makeGitDeps c p version) = (.error e, c.after w [request p version])) ∨
    (∃ branch, Asks c p version w branch ∧
      (∀ patched, Prepared c p version w branch patched →
        ¬(fetchedWorld c p version w branch).files.Writable
          (fetchedWorld c p version w branch).current p.gitDeps) ∧
      ∃ e, w.execute (makeGitDeps c p version) = (.error e, fetchedWorld c p version w branch)) ∨
    ∃ branch patched l files, Prepared c p version w branch patched ∧
      (fetchedWorld c p version w branch).files.Puts (fetchedWorld c p version w branch).current
        p.gitDeps patched.toUTF8 l files ∧
      w.execute (makeGitDeps c p version) =
        (.ok branch, (fetchedWorld c p version w branch).withFiles files) := by
  unfold makeGitDeps
  rw [World.execute_bind_handle]
  -- The steps in turn; each that fails contradicts what asking for the branch, or a prepared text,
  -- says.
  cases fetched : (w.execute (c.handle (request p version))).1 with
  | error e =>
    refine .inl ⟨fun branch asks => ?_, e, rfl⟩
    cases fetched.symm.trans asks.fetched
  | ok =>
  dsimp only
  rw [World.execute_bind_of_readsOnly (readsOnly_branchOf p.deps version)]
  cases found : ((c.after w [request p version]).execute (branchOf p.deps version)).1 with
  | error e =>
    refine .inl ⟨fun branch asks => ?_, e, rfl⟩
    cases found.symm.trans (World.execute_branchOf_eq_ok_iff.2 asks.found)
  | ok branch =>
  -- From here on the branch has been asked for, so the second case is the one that can fail.
  have asks : Asks c p version w branch := ⟨fetched, World.execute_branchOf_eq_ok_iff.1 found⟩
  have both : c.after (c.after w [request p version]) [branchRequest p branch] =
      fetchedWorld c p version w branch := rfl
  refine .inr ?_
  dsimp only
  rw [World.execute_bind_handle, both]
  cases branchFetched :
    ((c.after w [request p version]).execute (c.handle (branchRequest p branch))).1 with
  | error e =>
    refine .inl ⟨branch, asks, fun patched prepared => ?_, e, rfl⟩
    cases branchFetched.symm.trans prepared.branchFetched
  | ok =>
  dsimp only
  rw [World.execute_bind_of_readsOnly (readsOnly_readText p.diff)]
  cases hdiff : ((fetchedWorld c p version w branch).execute (Host.readText p.diff)).1 with
  | error e =>
    refine .inl ⟨branch, asks, fun patched prepared => ?_, e, rfl⟩
    obtain ⟨diff, read, -⟩ := prepared.applies
    cases hdiff.symm.trans read
  | ok diff =>
  dsimp only
  rw [World.execute_bind]
  obtain ⟨full, e, h⟩ | ⟨patched, l, files, hpatched, puts, h⟩ :=
    Diff.execute_patchFile (fetchedWorld c p version w branch) p.branchGitDeps diff p.gitDeps
  · rw [h]
    refine .inl ⟨branch, asks, fun patched prepared => ?_, e, rfl⟩
    obtain ⟨diff', read, applies⟩ := prepared.applies
    cases hdiff.symm.trans read
    exact full patched applies
  · rw [h]
    exact .inr ⟨branch, patched, l, files,
      ⟨fetched, found, branchFetched, diff, hdiff, hpatched⟩, puts, rfl⟩

/-- The deps file for git is written after both calls, or not at all. -/
theorem execute_makeGitDeps :
    (∃ e calls, Calls c p version w calls ∧
      w.execute (makeGitDeps c p version) = (.error e, c.after w calls)) ∨
    ∃ branch patched l files, Prepared c p version w branch patched ∧
      (fetchedWorld c p version w branch).files.Puts (fetchedWorld c p version w branch).current
        p.gitDeps patched.toUTF8 l files ∧
      w.execute (makeGitDeps c p version) =
        (.ok branch, (fetchedWorld c p version w branch).withFiles files) := by
  obtain ⟨-, e, h⟩ | ⟨branch, asks, -, e, h⟩ | made := makeGitDeps_cases c p version w
  · exact .inl ⟨e, _, .release, h⟩
  · exact .inl ⟨e, _, .branch asks.fetched (World.execute_branchOf_eq_ok_iff.2 asks.found), h⟩
  · exact .inr made

end Release

end OverlaySync
