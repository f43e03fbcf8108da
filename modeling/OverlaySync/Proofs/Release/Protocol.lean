import OverlaySync.Proofs.Generation.Effects

/-! # What is asked while the deps file for git is made

Making the deps file for git asks its checkout for the release, and then, if that went well and the
release refers to a branch, for the branch's deps file for git. It looks at nothing but what is
there after the calls, so it comes down to these and to four files: the release's deps file after
the first call, and the diff, the branch's deps file for git and the place of the new one after the
second (`makeGitDeps_follows_protocol`). -/

namespace OverlaySync

namespace Checkout

/-- The calls are on the record, in their order. -/
theorem requests_after_recorded (c : Checkout (StateM World)) (w : World) (calls : List Request) :
    (c.recorded.after w calls).requests = w.requests ++ calls := by
  induction calls generalizing w with
  | nil => exact (List.append_nil _).symm
  | cons call calls ih =>
    have first : (c.recorded.after w [call]).requests = w.requests ++ [call] := rfl
    change (c.recorded.after (c.recorded.after w [call]) calls).requests = _
    rw [ih, first, List.append_assoc, List.singleton_append]

end Checkout

namespace Release

/-- The branch's checkout is an entry of the release's directory. -/
theorem isEntryName_branchCheckoutName : Path.IsEntryName branchCheckoutName := by
  decide

/-- A branch's files are below those of the release. -/
theorem Places.locate_ne_of_branch {t : FileTree} {current l l' : Location} {ws : Workspace}
    {place name name' : String} {directories : List String} (hname : Path.IsEntryName name)
    (proper : ∀ name ∈ directories, Path.IsEntryName name) (hname' : Path.IsEntryName name')
    (h : t.locate current ((Places.of ws place).checkout.child name) = .ok l)
    (h' : t.locate current
      ((directories.foldl Path.child (Places.of ws place).branchCheckout).child name') = .ok l') :
    l' ≠ l := by
  refine FileTree.locate_ne_of_below hname (List.cons_ne_nil branchCheckoutName directories) ?_
    hname' h h'
  intro n there
  obtain rfl | there := List.mem_cons.1 there
  · exact isEntryName_branchCheckoutName
  · exact proper n there

/-- The new deps file for git is elsewhere than the one that the branch has. -/
theorem Places.locate_branchGitDeps_ne {t : FileTree} {current l l' : Location} {ws : Workspace}
    {place : String} (h : t.locate current (Places.of ws place).gitDeps = .ok l)
    (h' : t.locate current (Places.of ws place).branchGitDeps = .ok l') : l' ≠ l := by
  have nowhere : ∀ name ∈ ([] : List String), Path.IsEntryName name := nofun
  exact Places.locate_ne_of_branch isEntryName_gitDepsName nowhere isEntryName_gitDepsName h h'

/-- The diff is read as one for the deps file for git. -/
theorem fileName?_branchGitDeps (p : Places) : p.branchGitDeps.fileName? = some gitDepsName :=
  Path.fileName?_child _ isEntryName_gitDepsName

/-! ## The protocol -/

variable (c : Checkout (StateM World)) (p : Places) (version : String) (w : World)

/-- All that it takes for the deps file for git to be written: both calls succeed, and after them
the diff and the branch's deps file for git are texts, the diff is one for this file and makes it
the text `patched`, and a file can be put at the place of the new one. -/
structure Delivers (branch patched : String) : Prop extends Asks c p version w branch where
  branchFetched :
    ((c.after w [request p version]).execute (c.handle (branchRequest p branch))).1 = .ok ()
  applies : ∃ diff original d,
    (fetchedWorld c p version w branch).files.read (fetchedWorld c p version w branch).current
      p.diff = .ok diff.toUTF8 ∧
    (fetchedWorld c p version w branch).files.read (fetchedWorld c p version w branch).current
      p.branchGitDeps = .ok original.toUTF8 ∧
    Diff.FileDiff.parse gitDepsName diff = .ok d ∧ d.apply original = .ok patched
  writable : (fetchedWorld c p version w branch).files.Writable
    (fetchedWorld c p version w branch).current p.gitDeps

variable {c p version w} {branch branch' patched patched' : String}

/-- There is one branch that is asked for. -/
theorem Asks.unique (h : Asks c p version w branch) (h' : Asks c p version w branch') :
    branch = branch' := by
  obtain ⟨content, hread, hbranch⟩ := h.found
  obtain ⟨content', hread', hbranch'⟩ := h'.found
  cases hread.symm.trans hread'
  cases hbranch.symm.trans hbranch'
  rfl

/-- What it takes, up to the place of the new file. -/
theorem delivers_iff :
    Delivers c p version w branch patched ↔
      Prepared c p version w branch patched ∧
        (fetchedWorld c p version w branch).files.Writable
          (fetchedWorld c p version w branch).current p.gitDeps := by
  constructor
  · rintro ⟨asks, branchFetched, ⟨diff, original, d, hdiff, horiginal, parsed, applied⟩, writable⟩
    refine ⟨⟨asks.fetched, World.execute_branchOf_eq_ok_iff.2 asks.found, branchFetched,
      diff, World.execute_readText_eq_ok_iff.2 hdiff, d, original, ?_,
      World.execute_readText_eq_ok_iff.2 horiginal, applied⟩, writable⟩
    rwa [fileName?_branchGitDeps]
  · rintro ⟨⟨fetched, found, branchFetched, diff, hdiff, d, original, parsed, horiginal, applied⟩,
      writable⟩
    rw [fileName?_branchGitDeps] at parsed
    exact ⟨⟨fetched, World.execute_branchOf_eq_ok_iff.1 found⟩, branchFetched,
      ⟨diff, original, d, World.execute_readText_eq_ok_iff.1 hdiff,
        World.execute_readText_eq_ok_iff.1 horiginal, parsed, applied⟩, writable⟩

/-- There is one text that is written. -/
theorem Delivers.unique (h : Delivers c p version w branch patched)
    (h' : Delivers c p version w branch' patched') : branch = branch' ∧ patched = patched' := by
  obtain rfl := h.toAsks.unique h'.toAsks
  obtain ⟨diff, read, applies⟩ := (delivers_iff.1 h).1.applies
  obtain ⟨diff', read', applies'⟩ := (delivers_iff.1 h').1.applies
  cases read.symm.trans read'
  exact ⟨rfl, applies.unique applies'⟩

variable (c : Checkout (StateM World)) (ws : Workspace) (place version : String) (w : World)

/-- Making the deps file for git follows a protocol. The checkout is asked for the release, and for
the branch's deps file for git exactly if it should be. The branch is returned exactly if all goes
well; then the new deps file for git holds the patched text, and the branch's own one and all other
files are as the calls have left them. Otherwise there is a failure, and all files are as the calls
have left them. -/
theorem makeGitDeps_follows_protocol :
    ∃ result final calls,
      w.execute (makeGitDeps c.recorded (.of ws place) version) = (result, final) ∧
      final.requests = w.requests ++ calls ∧
      (∀ branch, Asks c.recorded (.of ws place) version w branch →
        calls = [request (.of ws place) version, branchRequest (.of ws place) branch]) ∧
      ((∀ branch, ¬Asks c.recorded (.of ws place) version w branch) →
        calls = [request (.of ws place) version]) ∧
      (∀ branch, result = .ok branch ↔
        ∃ patched, Delivers c.recorded (.of ws place) version w branch patched) ∧
      (∀ branch patched, Delivers c.recorded (.of ws place) version w branch patched →
        final.entryAt (Places.of ws place).gitDeps = some (.file patched.toUTF8) ∧
        final.entryAt (Places.of ws place).branchGitDeps =
          (c.recorded.after w calls).entryAt (Places.of ws place).branchGitDeps ∧
        ∀ l, (c.recorded.after w calls).files.locate (c.recorded.after w calls).current
            (Places.of ws place).gitDeps ≠ .ok l →
          final.files.lookup l = (c.recorded.after w calls).files.lookup l) ∧
      ∀ e, result = .error e → final = c.recorded.after w calls := by
  -- No branch is asked for, or one is and nothing is written, or all goes well.
  obtain ⟨unasked, e, h⟩ | ⟨branch, asks, unprepared, e, h⟩ |
      ⟨branch, patched, l, files, prepared, puts, h⟩ :=
    makeGitDeps_cases c.recorded (.of ws place) version w
  · refine ⟨_, _, _, h, Checkout.requests_after_recorded .., ?_, fun _ => rfl, ?_, ?_, ?_⟩
    · exact fun branch asks => absurd asks (unasked branch)
    · refine fun branch => ⟨nofun, ?_⟩
      rintro ⟨patched, delivers⟩
      exact absurd delivers.toAsks (unasked branch)
    · exact fun branch patched delivers => absurd delivers.toAsks (unasked branch)
    · exact fun _ _ => rfl
  · have undelivered (branch' patched : String) :
        ¬Delivers c.recorded (.of ws place) version w branch' patched := by
      intro delivers
      obtain rfl := asks.unique delivers.toAsks
      obtain ⟨prepared, writable⟩ := delivers_iff.1 delivers
      exact unprepared patched prepared writable
    refine ⟨_, _, _, h, Checkout.requests_after_recorded .., ?_, ?_, ?_, ?_, ?_⟩
    · exact fun branch' asks' => by rw [asks.unique asks']
    · exact fun unasked => absurd asks (unasked branch)
    · refine fun branch' => ⟨nofun, ?_⟩
      rintro ⟨patched, delivers⟩
      exact absurd delivers (undelivered branch' patched)
    · exact fun branch' patched delivers => absurd delivers (undelivered branch' patched)
    · exact fun _ _ => rfl
  · have delivers := delivers_iff.2 ⟨prepared, puts.writable⟩
    refine ⟨_, _, _, h, Checkout.requests_after_recorded .., ?_, ?_, ?_, ?_, nofun⟩
    · exact fun branch' asks' => by rw [delivers.toAsks.unique asks']
    · exact fun unasked => absurd delivers.toAsks (unasked branch)
    · intro branch'
      constructor
      · rintro ⟨⟩
        exact ⟨patched, delivers⟩
      · rintro ⟨patched', delivers'⟩
        rw [(delivers.unique delivers').1]
    · intro branch' patched' delivers'
      obtain ⟨rfl, rfl⟩ := delivers.unique delivers'
      refine ⟨World.entryAt_of_puts puts, ?_, fun l' ne => puts.lookup_of_ne ?_⟩
      · refine congrArg (Option.map Prod.snd) (puts.toOption_find_of_ne fun l' hl' => ?_)
        exact Places.locate_branchGitDeps_ne puts.locate hl'
      · rintro rfl
        exact ne puts.locate

/-- In the small world the file is written, and with a checkout whose second call fails it is asked
for the same and nothing is written. -/
theorem makeGitDeps_follows_protocol_small :
    (∃ final,
      Generation.smallWorld.execute (makeGitDeps (Generation.smallCheckout true).recorded
        (.of Generation.smallWorkspace "9") "9") = (.ok "7", final) ∧
      final.requests = [.tree "http://src.chromium.org/svn/releases/9" ⟨"/r/9"⟩ none,
        .files "http://src.chromium.org/svn/branches/7/src/" ⟨"/r/9/deps_git"⟩ [".DEPS.git"]] ∧
      final.entryAt ⟨"/r/9/.DEPS.git"⟩ = some (.file "b\n".toUTF8) ∧
      final.entryAt ⟨"/r/9/deps_git/.DEPS.git"⟩ = some (.file "a\n".toUTF8)) ∧
    ∃ e final,
      Generation.smallWorld.execute (makeGitDeps (Generation.smallCheckout false).recorded
        (.of Generation.smallWorkspace "9") "9") = (.error e, final) ∧
      final.files = Generation.smallWorld.files := by
  have asks (succeeds : Bool) : Asks (Generation.smallCheckout succeeds).recorded
      (.of Generation.smallWorkspace "9") "9" Generation.smallWorld "7" :=
    ⟨rfl, _, Outcome.eq_ok_of_toOption (by cases succeeds <;> rfl),
      Outcome.eq_ok_of_toOption (by decide +kernel)⟩
  constructor
  · obtain ⟨result, final, calls, h, record, asked, -, results, delivered, -⟩ :=
      makeGitDeps_follows_protocol (Generation.smallCheckout true) Generation.smallWorkspace "9" "9"
        Generation.smallWorld
    have delivers : Delivers (Generation.smallCheckout true).recorded
        (.of Generation.smallWorkspace "9") "9" Generation.smallWorld "7" "b\n" := by
      refine ⟨asks true, rfl, ⟨"@@ -1 +1 @@\n-a\n+b\n", "a\n",
        ⟨".DEPS.git", [⟨⟨1, 1, 1, 1⟩, [.removed ['a'], .added ['b']]⟩]⟩,
        Outcome.eq_ok_of_toOption rfl, Outcome.eq_ok_of_toOption rfl,
        Outcome.eq_ok_of_toOption (by decide +kernel),
        Outcome.eq_ok_of_toOption (by decide +kernel)⟩, ["r", "9", ".DEPS.git"],
        Outcome.eq_ok_of_toOption (by decide +kernel), by decide +kernel, by decide +kernel⟩
    obtain rfl := (results "7").2 ⟨_, delivers⟩
    obtain rfl := asked "7" (asks true)
    obtain ⟨written, kept, -⟩ := delivered "7" "b\n" delivers
    exact ⟨final, h, record, written, kept.trans (by decide +kernel)⟩
  · obtain ⟨result, final, calls, h, -, asked, -, results, -, failed⟩ :=
      makeGitDeps_follows_protocol (Generation.smallCheckout false) Generation.smallWorkspace "9"
        "9" Generation.smallWorld
    obtain rfl := asked "7" (asks false)
    cases result with
    | error e => exact ⟨e, final, h, (congrArg World.files (failed e rfl)).trans rfl⟩
    | ok branch =>
      obtain ⟨patched, delivers⟩ := (results branch).1 rfl
      obtain rfl := (asks false).unique delivers.toAsks
      cases delivers.branchFetched

end Release

end OverlaySync
