import OverlaySync.Proofs.Checkout.Repositories
import OverlaySync.Proofs.Manifest.Validity
import OverlaySync.RootFetch

/-! # The root at its pinned revision

Obtaining a branch leaves its tip in the working copy, and nothing that comes later would notice if
it stayed there. So what matters is which commands check out: in git mode it is one command for the
revision that the manifest pins, after all others, and outside git mode there is none. -/

namespace OverlaySync

namespace Git

/-- A run of the client that checks out. -/
def checksOut (c : Command) : Bool :=
  c.tool = tool && c.arguments.head? = some "checkout"

/-- To obtain a branch, the client is called for something else. -/
theorem checksOut_obtain (branch url : String) (dest : Path) (filesOnly : Bool)
    (found : Destination) :
    ∀ command ∈ obtain branch url dest filesOnly found, checksOut command = false := by
  cases found <;> simp [obtain, checksOut, commandIn]

end Git

namespace RootFetch

open Git (checksOut)

/-! ## The pinned revision -/

/-- The manifest of a workspace can be read, and pins a revision of the root. -/
def Pins (world : World) (w : Workspace) (revision : String) : Prop :=
  ∃ source m b, world.files.read world.current w.manifest = .ok source.toUTF8 ∧
    Manifest.parse source w.manifest = .ok m ∧ Deps.parse source = .ok b ∧
    b.get? "chromium_crosswalk_point" = some (.str revision)

/-- The manifest has the revision that its text binds. -/
theorem pins_iff {world : World} {w : Workspace} {revision : String} :
    Pins world w revision ↔ ∃ m, (world.execute (Manifest.ofFile w.manifest)).1 = .ok m ∧
      m.point = some revision := by
  constructor
  · rintro ⟨source, m, b, read, parsed, accepted, bound⟩
    refine ⟨m, World.execute_ofFile_eq_ok_iff.2 ⟨source, read, parsed⟩, ?_⟩
    exact (Manifest.HeldBy.of_parse accepted parsed).point_eq_some_iff.2 bound
  · rintro ⟨m, loaded, pinned⟩
    obtain ⟨source, read, parsed⟩ := World.execute_ofFile_eq_ok_iff.1 loaded
    obtain ⟨b, accepted, -⟩ := Manifest.parse_eq_ok_iff.1 parsed
    refine ⟨source, m, b, read, parsed, accepted, ?_⟩
    exact (Manifest.HeldBy.of_parse accepted parsed).point_eq_some_iff.1 pinned

/-! ## The command that checks out -/

/-- The command that checks the root out at a revision. -/
def pinnedCheckout (w : Workspace) (revision : String) : Command :=
  Git.commandIn w.sourceRoot ["checkout", "--force", "--quiet", revision]

/-- Commands have been carried out, and if one of them checks out, it is the given one, at the
end. -/
def ChecksOutLast (command : Command) (ran : List (Command × Exit)) : Prop :=
  ∀ front e back, ran = front ++ e :: back → checksOut e.1 = true → e.1 = command ∧ back = []

/-- The command has been carried out, and has ended well. -/
def Succeeds (command : Command) (ran : List (Command × Exit)) : Prop :=
  ∃ exit, (command, exit) ∈ ran ∧ exit.succeeded = true

section Commands

variable {front : List Command} {last : Command} {ran : List (Command × Exit)}
  {result : Except Failure Unit}

/-- No command that is carried out checks out. -/
theorem checksOutLast_of_idle (idle : ∀ e ∈ ran, checksOut e.1 = false) :
    ChecksOutLast last ran := by
  rintro before e back rfl checks
  rw [idle e (by simp)] at checks
  cases checks

/-- Commands of which only the last one checks out do so at the end, if at all. -/
theorem checksOutLast_of_carried (h : Chronicle.Carried (front ++ [last]) ran result)
    (idle : ∀ command ∈ front, checksOut command = false) : ChecksOutLast last ran := by
  obtain ⟨short, -⟩ | ⟨before, exit, rfl, rfl, -⟩ := h.concat_cases
  · exact checksOutLast_of_idle fun e there => idle e.1 (short.subset (List.mem_map_of_mem there))
  · intro front e back split checks
    obtain rfl | ⟨back', e', rfl⟩ := back.eq_nil_or_concat
    · obtain ⟨-, same⟩ := List.append_inj' split rfl
      cases same
      exact ⟨rfl, rfl⟩
    · -- The command comes before the last one, so it does not check out.
      rw [List.concat_eq_append, ← List.cons_append, ← List.append_assoc] at split
      obtain ⟨rfl, -⟩ := List.append_inj' split rfl
      rw [idle e.1 (by simp)] at checks
      cases checks

/-- They succeed if the last one is carried out and succeeds. -/
theorem succeeds_iff_of_carried (h : Chronicle.Carried (front ++ [last]) ran result)
    (other : last ∉ front) : Succeeds last ran ↔ result = .ok () := by
  obtain ⟨short, e, rfl⟩ | ⟨before, exit, rfl, rfl, decides⟩ := h.concat_cases
  · refine iff_of_false ?_ nofun
    rintro ⟨exit, there, -⟩
    exact other (short.subset (List.mem_map_of_mem there))
  · rw [decides]
    constructor
    · rintro ⟨exit', there, succeeds⟩
      rw [List.mem_append, List.mem_singleton] at there
      obtain before | same := there
      · exact absurd (List.mem_map_of_mem before) other
      · cases same
        exact succeeds
    · exact fun succeeds => ⟨exit, by simp, succeeds⟩

end Commands

/-! ## Runs -/

variable (c : Chronicle) (w : Workspace) (s : Settings) (wantsGit : Bool) (branch : String)

/-- The request for the root checks out at the end, and it succeeds if this does. -/
theorem execute_handle_request (revision : String) :
    let after := c.execute ((Git.checkout branch).handle (request w revision))
    ∃ ran, after.2.ended = c.ended ++ ran ∧ ChecksOutLast (pinnedCheckout w revision) ran ∧
      (Succeeds (pinnedCheckout w revision) ran ↔ after.1 = .ok ()) := by
  rw [Git.execute_handle]
  let found := Git.found c (request w revision).dest
  obtain ⟨ran, ended, course⟩ :=
    c.carried_carryOut (Git.plan branch found (request w revision)) (request w revision).dest
  have idle := Git.checksOut_obtain branch url w.sourceRoot false found
  refine ⟨ran, ended, ?_⟩
  obtain carried | ⟨rfl, e, failed⟩ := course
  · refine ⟨checksOutLast_of_carried carried idle, succeeds_iff_of_carried carried fun there => ?_⟩
    have checks : checksOut (pinnedCheckout w revision) = false := idle _ there
    cases checks
  · rw [failed]
    refine ⟨checksOutLast_of_idle nofun, iff_of_false ?_ nofun⟩
    rintro ⟨exit, ⟨⟩, -⟩

/-- Outside git mode nothing is looked at. -/
theorem execute_run_of_subversion (mode : s.transport wantsGit = .subversion) :
    c.execute (run w s wantsGit (Git.checkout branch)) = (.ok .nothing, c) := by
  unfold run
  rw [mode]
  rfl

/-- In git mode the manifest is read first, and a revision that it pins is requested. -/
theorem execute_run_of_git (mode : s.transport wantsGit = .git) :
    c.execute (run w s wantsGit (Git.checkout branch)) =
      match (c.world.execute (Manifest.ofFile w.manifest)).1 with
      | .error e => (.error e, c)
      | .ok m =>
        match m.point with
        | none => (.error (pointMissing w.manifest), c)
        | some revision => c.execute do
          (Git.checkout branch).handle (request w revision)
          return .checkedOut w.sourceRoot revision := by
  unfold run
  rw [mode]
  dsimp only
  rw [Chronicle.execute_bind, Chronicle.execute_ofFile]
  cases (c.world.execute (Manifest.ofFile w.manifest)).1 with
  | error e => rfl
  | ok m =>
    dsimp only
    cases m.point <;> rfl

/-- Without a pinned revision, nothing is requested. -/
theorem execute_run_of_not_pins (mode : s.transport wantsGit = .git)
    (unpinned : ¬∃ revision, Pins c.world w revision) :
    ∃ e, c.execute (run w s wantsGit (Git.checkout branch)) = (.error e, c) := by
  rw [execute_run_of_git c w s wantsGit branch mode]
  cases loaded : (c.world.execute (Manifest.ofFile w.manifest)).1 with
  | error e => exact ⟨e, rfl⟩
  | ok m =>
    dsimp only
    cases pinned : m.point with
    | none => exact ⟨_, rfl⟩
    | some revision => exact absurd ⟨revision, pins_iff.2 ⟨m, loaded, pinned⟩⟩ unpinned

/-- A pinned revision is requested. -/
theorem execute_run_of_pins (mode : s.transport wantsGit = .git) {revision : String}
    (pins : Pins c.world w revision) :
    c.execute (run w s wantsGit (Git.checkout branch)) = c.execute do
      (Git.checkout branch).handle (request w revision)
      return .checkedOut w.sourceRoot revision := by
  obtain ⟨m, loaded, pinned⟩ := pins_iff.1 pins
  rw [execute_run_of_git c w s wantsGit branch mode, loaded]
  dsimp only
  rw [pinned]

/-- Outside git mode nothing is done, whatever the files are. In git mode nothing is done either,
and the run fails, unless the manifest pins a revision of the root. If it does, no other revision is
checked out, and this one at most once, after all other commands; and however the commands end, the
run comes to this revision exactly if the command that checks it out has been carried out and has
succeeded. -/
theorem run_checksOut_pinned :
    let after := c.execute (run w s wantsGit (Git.checkout branch))
    ((wantsGit || s.wantsGit) = false → after = (.ok .nothing, c)) ∧
    ((wantsGit || s.wantsGit) = true →
      ((¬∃ revision, Pins c.world w revision) → (∃ e, after.1 = .error e) ∧ after.2 = c) ∧
      ∀ revision, Pins c.world w revision →
        ∃ ran, after.2.ended = c.ended ++ ran ∧ ChecksOutLast (pinnedCheckout w revision) ran ∧
          ∀ result, after.1 = .ok result ↔
            result = .checkedOut w.sourceRoot revision ∧
              Succeeds (pinnedCheckout w revision) ran) := by
  dsimp only
  constructor
  · intro plain
    have mode : s.transport wantsGit = .subversion := by simp [Settings.transport, plain]
    exact execute_run_of_subversion c w s wantsGit branch mode
  intro git
  have mode : s.transport wantsGit = .git := if_pos git
  constructor
  · intro unpinned
    obtain ⟨e, failed⟩ := execute_run_of_not_pins c w s wantsGit branch mode unpinned
    rw [failed]
    exact ⟨⟨e, rfl⟩, rfl⟩
  · intro revision pins
    obtain ⟨ran, ended, last, succeeds⟩ := execute_handle_request c w branch revision
    rw [execute_run_of_pins c w s wantsGit branch mode pins, Chronicle.execute_bind]
    -- The result is that of the request, which succeeds exactly if its last command does.
    rcases handled : c.execute ((Git.checkout branch).handle (request w revision)) with
      ⟨e | _, c'⟩ <;> rw [handled] at ended succeeds
    · refine ⟨ran, ended, last, fun result => iff_of_false nofun fun h => ?_⟩
      cases succeeds.1 h.2
    · refine ⟨ran, ended, last, fun result => ?_⟩
      rw [and_iff_left (succeeds.2 rfl)]
      exact ⟨fun h => (Except.ok.inj h).symm, fun h => h ▸ rfl⟩

/-! ## A small workspace -/

/-- Bindings of a manifest that pins a revision. -/
def smallBindings : List (String × Deps.Value) :=
  ("chromium_crosswalk_point", .str "9f") :: Manifest.smallBindings "src"

/-- A workspace whose overlay project lies beside its root. -/
def smallWorkspace : Workspace where
  overlay := ⟨"/o"⟩
  root := ⟨"/r"⟩

/-- There is a manifest, and a client that always succeeds. -/
def smallChronicle : Chronicle where
  world :=
    { files := ⟨.ofList [
        (["o"], .directory),
        (["o", "DEPS.xwalk"], .file (String.ofList (Deps.assignments smallBindings)).toUTF8),
        (["r"], .directory),
        (["r", "src"], .directory)]⟩
      current := []
      tools := ["git"]
      respond _ _ files := ⟨files, 0, .empty, .empty⟩
      runs := []
      requests := [] }
  ended := []

/-- The manifest pins the revision of the root. -/
theorem pins_smallChronicle : Pins smallChronicle.world smallWorkspace "9f" := by
  have accepted : Deps.parse (String.ofList (Deps.assignments smallBindings)) =
      .ok (.ofList smallBindings) :=
    Deps.parse_assignments (by decide +kernel) (by
      simp [smallBindings, Manifest.smallBindings, Deps.Value.CanonicalEntries,
        Deps.Value.Canonical, Entries.Ascending]) (by decide +kernel)
  refine ⟨_, ⟨.ofList [("src", none)], ∅, "9", some "9f"⟩, _, ?_, ?_, accepted, ?_⟩
  · exact Outcome.eq_ok_of_toOption (by decide +kernel)
  · rw [Manifest.parse_of_parse accepted]
    exact Outcome.eq_ok_of_toOption (by decide +kernel)
  · rw [Deps.sameScope_ofList]
    rfl

/-- The client gets to the end of the request. -/
theorem execute_run_smallChronicle :
    (smallChronicle.execute (run smallWorkspace (.ofLookup fun _ => none) true
      (Git.checkout "b"))).1 = .ok (.checkedOut smallWorkspace.sourceRoot "9f") := by
  have handled : (smallChronicle.execute
      ((Git.checkout "b").handle (request smallWorkspace "9f"))).1 = .ok () :=
    Outcome.eq_ok_of_toOption (by decide +kernel)
  rw [execute_run_of_pins _ _ _ _ _ rfl pins_smallChronicle, Chronicle.execute_bind]
  rcases hr : smallChronicle.execute
    ((Git.checkout "b").handle (request smallWorkspace "9f")) with ⟨e | _, final⟩
  · rw [hr] at handled
    cases handled
  · rfl

/-- Outside git mode nothing is done, and in git mode the pinned revision is checked out. -/
theorem run_checksOut_pinned_small :
    smallChronicle.execute (run smallWorkspace (.ofLookup fun _ => none) false
      (Git.checkout "b")) = (.ok .nothing, smallChronicle) ∧
    ∃ ran, (smallChronicle.execute (run smallWorkspace (.ofLookup fun _ => none) true
      (Git.checkout "b"))).2.ended = smallChronicle.ended ++ ran ∧
      ChecksOutLast (pinnedCheckout smallWorkspace "9f") ran ∧
      Succeeds (pinnedCheckout smallWorkspace "9f") ran := by
  have runs := run_checksOut_pinned smallChronicle smallWorkspace (.ofLookup fun _ => none)
  obtain ⟨ran, ended, last, succeeds⟩ := ((runs true "b").2 rfl).2 "9f" pins_smallChronicle
  have done := ((succeeds _).1 execute_run_smallChronicle).2
  exact ⟨(runs false "b").1 rfl, ran, ended, last, done⟩

end RootFetch

end OverlaySync
