import Mathlib.Data.Finset.Card
import OverlaySync.Proofs.Files.Growth

/-! # Files that are replaced

A file is replaced by way of another one, which is made aside, filled and moved into place. Each of
these steps can be refused, and then nothing remains of the ones before it.

Main statements: `FileTree.replaceVia_cases`, for any name of the file aside and any hindrances, and
`FileTree.replace_cases`, for the name that is chosen. -/

namespace OverlaySync

/-! ## Names of files aside -/

/-- The zeros before a number do not count. -/
theorem Path.ofDigitChars_leftpad (count : Nat) (digits : List Char) :
    Nat.ofDigitChars 10 (digits.leftpad count '0') 0 = Nat.ofDigitChars 10 digits 0 := by
  rw [List.leftpad, Nat.ofDigitChars_append]
  congr 1
  induction count - digits.length with
  | zero => rfl
  | succ zeros ih => rwa [List.replicate_succ, Nat.ofDigitChars_cons]

/-- Files aside with different numbers have different names. -/
theorem Path.asideName_injective : Function.Injective Path.asideName := by
  intro number number' same
  have digits := congrArg String.toList same
  simp only [asideName, String.toList_append, String.toList_ofList] at digits
  have values := congrArg (fun ds => Nat.ofDigitChars 10 ds 0) (List.append_cancel_left digits)
  simpa only [ofDigitChars_leftpad, Nat.ofDigitChars_ten_toDigits] using values

namespace FileTree

variable {t t' t'' : FileTree} {current here l : Location} {p : Path} {content : ByteArray}
  {number : Nat}

/-- A number that is tried is free, or all that are tried are taken. -/
theorem isFree_firstFree_or (t : FileTree) (here : Location) (p : Path) (fuel number : Nat) :
    t.isFree here p (t.firstFree here p fuel number) = true ∨
      t.firstFree here p fuel number = number + fuel ∧
        ∀ i < fuel, t.isFree here p (number + i) = false := by
  induction fuel generalizing number with
  | zero => exact .inr ⟨rfl, nofun⟩
  | succ fuel ih =>
    rw [firstFree]
    split
    · next free => exact .inl free
    · next taken =>
      obtain free | ⟨last, rest⟩ := ih (number + 1)
      · exact .inl free
      · refine .inr ⟨by omega, fun i hi => ?_⟩
        cases i with
        | zero => exact Bool.eq_false_iff.2 taken
        | succ i =>
          rw [show number + (i + 1) = number + 1 + i by omega]
          exact rest i (by omega)

/-- The names that cannot be those of a file aside. -/
def takenNames (t : FileTree) (p : Path) : List String :=
  t.nodes.keys.map (fun l => l.getLast?.getD "") ++ p.steps

/-- A number that is not free has its name among those taken. -/
theorem mem_takenNames_of_isFree_eq_false (taken : t.isFree here p number = false) :
    Path.asideName number ∈ t.takenNames p := by
  rw [isFree, Bool.and_eq_false_iff, Option.isNone_eq_false_iff, Bool.not_eq_false',
    List.contains_iff_mem] at taken
  rw [takenNames, List.mem_append]
  refine taken.imp_left fun there => List.mem_map.2 ⟨here ++ [Path.asideName number], ?_, ?_⟩
  · rw [lookup, if_neg (by simp)] at there
    exact OrderedMap.contains_iff_mem_keys.1 there
  · rw [List.getLast?_concat]
    rfl

/-- There are more numbers than names that are taken. -/
theorem exists_isFree (t : FileTree) (here : Location) (p : Path) :
    ∃ i ≤ (t.takenNames p).length, t.isFree here p i = true := by
  -- Different numbers make different names, so they cannot all be taken.
  have more : (t.takenNames p).toFinset.card <
      ((Finset.range ((t.takenNames p).length + 1)).image Path.asideName).card := by
    rw [Finset.card_image_of_injective _ Path.asideName_injective, Finset.card_range]
    exact Nat.lt_succ_of_le (List.toFinset_card_le _)
  obtain ⟨name, tried, free⟩ := Finset.exists_mem_notMem_of_card_lt_card more
  obtain ⟨i, hi, rfl⟩ := Finset.mem_image.1 tried
  refine ⟨i, Nat.le_of_lt_succ (Finset.mem_range.1 hi), ?_⟩
  rw [← Bool.not_eq_false]
  intro taken
  refine free ?_
  exact List.mem_toFinset.2 (mem_takenNames_of_isFree_eq_false taken)

/-- The number that is chosen is free. -/
theorem isFree_asideNumber (held : t.holder current p = .ok here) :
    t.isFree here p (t.asideNumber current p) = true := by
  have chosen : t.asideNumber current p =
      t.firstFree here p (t.nodes.keys.length + p.steps.length) 0 := by
    unfold asideNumber
    rw [held]
  rw [chosen]
  obtain found | ⟨last, taken⟩ :=
    t.isFree_firstFree_or here p (t.nodes.keys.length + p.steps.length) 0
  · exact found
  -- Where all that are tried are taken, only the number behind them is left.
  obtain ⟨i, hi, free⟩ := t.exists_isFree here p
  rw [takenNames, List.length_append, List.length_map] at hi
  obtain hi | rfl := Nat.lt_or_eq_of_le hi
  · have tried := taken i hi
    rw [Nat.zero_add, free] at tried
    cases tried
  · rwa [last, Nat.zero_add]

/-! ## The steps -/

/-- What is put where there was nothing can be removed again. -/
theorem unlink_set (ne : l ≠ []) (free : t.lookup l = none) (n : Node) :
    (t.set l n).unlink l = t := by
  rw [lookup, if_neg ne] at free
  refine congrArg FileTree.mk (OrderedMap.ext fun k => ?_)
  rw [OrderedMap.get?_removeIf]
  by_cases same : k = l
  · rw [same, free]
    simp
  · rw [if_neg (by simpa using same)]
    exact OrderedMap.get?_insert_of_ne _ same _

/-- What is put last counts. -/
theorem set_set (t : FileTree) (l : Location) (n n' : Node) :
    (t.set l n).set l n' = t.set l n' := by
  refine congrArg FileTree.mk (OrderedMap.ext fun k => ?_)
  by_cases same : k = l
  · subst same
    exact (OrderedMap.get?_insert_self ..).trans (OrderedMap.get?_insert_self ..).symm
  · exact (OrderedMap.get?_insert_of_ne _ same _).trans <|
      (OrderedMap.get?_insert_of_ne _ same _).trans (OrderedMap.get?_insert_of_ne _ same _).symm

/-- A file that has been made is moved to a path if a file can be put there and the path ends in its
name. Then the path has the file, and there is nothing again where it has been made. -/
theorem moveFile_cases (ne : l ≠ []) (free : t.lookup l = none) (content : ByteArray)
    (current : Location) (p : Path) :
    ((t.Writable current p ∧ p.endsInName = true) ∧ ∃ l' t', t.Puts current p content l' t' ∧
        (t.set l (.file content)).moveFile current l p = .ok t') ∨
      ¬(t.Writable current p ∧ p.endsInName = true) ∧
        ∃ e, (t.set l (.file content)).moveFile current l p = .error e := by
  -- The file that has been made changes no path's way, at most the reason why it leads nowhere.
  have bare : t.lookup l ≠ some .directory := by
    rw [free]
    nofun
  have place := toOption_locate_set bare content current p
  unfold moveFile
  cases found : t.locate current p with
  | error e =>
    cases found' : (t.set l (.file content)).locate current p with
    | ok l' =>
      rw [found, found'] at place
      cases place
    | error e' =>
      refine .inr ⟨?_, e', rfl⟩
      rintro ⟨⟨l', there, -⟩, -⟩
      cases found.symm.trans there
  | ok l' =>
    have found' : (t.set l (.file content)).locate current p = .ok l' :=
      Outcome.eq_ok_of_toOption (by rw [place, found]; rfl)
    -- A file aside is as little a directory as nothing.
    have same : (t.set l (.file content)).lookup l' = some .directory ↔
        t.lookup l' = some .directory := by
      by_cases hl : l' = l
      · rw [hl, lookup_set_self t ne, free]
        exact ⟨nofun, nofun⟩
      · rw [lookup_set_of_ne t hl]
    rw [found']
    simp only [bind, Except.bind, same, lookup_set_self t ne, unlink_set ne free]
    cases named : p.endsInName with
    | false => exact .inr ⟨fun h => Bool.noConfusion h.2, _, rfl⟩
    | true =>
      cases slash : p.hasTrailingSlash with
      | true =>
        refine .inr ⟨?_, _, rfl⟩
        rintro ⟨⟨-, -, noSlash, -⟩, -⟩
        cases slash.symm.trans noSlash
      | false =>
        by_cases directory : t.lookup l' = some .directory
        · refine .inr ⟨?_, _, if_pos directory⟩
          rintro ⟨⟨l'', there, -, file⟩, -⟩
          cases found.symm.trans there
          exact file directory
        · exact .inl ⟨⟨⟨l', found, slash, directory⟩, rfl⟩, l', _,
            ⟨found, slash, directory, rfl⟩, if_neg directory⟩

/-! ## All or nothing -/

/-- A file can be replaced at a path: its directory is there, a file can be put at the path, and the
path ends in its name. -/
structure Replaceable (t : FileTree) (current : Location) (p : Path) : Prop where
  held : ∃ here, t.holder current p = .ok here
  writable : t.Writable current p
  named : p.endsInName = true

/-- A file can be made aside under the name of a number. -/
def IsFreeAside (t : FileTree) (current : Location) (p : Path) (number : Nat) : Prop :=
  ∃ here, t.holder current p = .ok here ∧ t.lookup (here ++ [Path.asideName number]) = none

/-- A file is made aside where there was nothing. -/
theorem createAside_cases (t : FileTree) (current : Location) (p : Path) (number : Nat) :
    (t.IsFreeAside current p number ∧ ∃ l, l ≠ [] ∧ t.lookup l = none ∧
        t.createAside current p number = .ok (l, t.set l (.file .empty))) ∨
      ¬t.IsFreeAside current p number ∧ ∃ e, t.createAside current p number = .error e := by
  unfold createAside
  cases held : t.holder current p with
  | error e =>
    refine .inr ⟨?_, e, rfl⟩
    rintro ⟨here, there, -⟩
    cases held.symm.trans there
  | ok here =>
    simp only [bind, Except.bind]
    cases free : t.lookup (here ++ [Path.asideName number]) with
    | some n =>
      refine .inr ⟨?_, _, rfl⟩
      rintro ⟨here', there, nothing⟩
      cases held.symm.trans there
      cases free.symm.trans nothing
    | none => exact .inl ⟨⟨here, held, free⟩, _, by simp, free, rfl⟩

/-- By way of any name and with any hindrances, the file is put at the path, or the tree is as it
was. The file is put there if it can be replaced, the name is free and nothing hinders it. -/
theorem replaceVia_cases (t : FileTree) (current : Location) (p : Path) (content : ByteArray)
    (number : Nat) (hindrances : Hindrances) :
    ((t.Replaceable current p ∧ t.IsFreeAside current p number ∧ hindrances = .none) ∧
        ∃ l t', t.Puts current p content l t' ∧
          t.replaceVia current p content number hindrances = (.ok (), t')) ∨
      ¬(t.Replaceable current p ∧ t.IsFreeAside current p number ∧ hindrances = .none) ∧
        ∃ e, t.replaceVia current p content number hindrances = (.error e, t) := by
  obtain ⟨create, stop, move⟩ := hindrances
  unfold replaceVia
  cases create with
  | some e => exact .inr ⟨fun h => Option.some_ne_none _ (congrArg Hindrances.create h.2.2), e, rfl⟩
  | none =>
    dsimp only [hindered]
    obtain ⟨⟨here, held, free⟩, l, ne, nothing, created⟩ | ⟨taken, e, refused⟩ :=
      t.createAside_cases current p number
    · rw [created]
      cases stop with
      | some stop =>
        refine .inr ⟨fun h => Option.some_ne_none _ (congrArg Hindrances.fill h.2.2), stop.1, ?_⟩
        -- Removing the file aside undoes what has been done, however much of it is filled.
        dsimp only [fill]
        rw [set_set, unlink_set ne nothing]
      | none =>
        dsimp only [fill]
        rw [set_set, unlink_set ne nothing]
        cases move with
        | some e =>
          exact .inr ⟨fun h => Option.some_ne_none _ (congrArg Hindrances.move h.2.2), e, rfl⟩
        | none =>
          obtain ⟨⟨writable, named⟩, l', t', puts, moved⟩ | ⟨cannot, e, refused⟩ :=
            moveFile_cases ne nothing content current p
          · rw [moved]
            have can : t.Replaceable current p := ⟨⟨here, held⟩, writable, named⟩
            exact .inl ⟨⟨can, ⟨here, held, free⟩, rfl⟩, l', t', puts, rfl⟩
          · rw [refused]
            exact .inr ⟨fun h => cannot ⟨h.1.writable, h.1.named⟩, e, rfl⟩
    · rw [refused]
      exact .inr ⟨fun h => taken h.2.1, e, rfl⟩

/-- A file is replaced if it can be, and otherwise the tree is as it was. -/
theorem replace_cases (t : FileTree) (current : Location) (p : Path) (content : ByteArray) :
    (t.Replaceable current p ∧ ∃ l t', t.Puts current p content l t' ∧
        t.replace current p content = (.ok (), t')) ∨
      ¬t.Replaceable current p ∧ ∃ e, t.replace current p content = (.error e, t) := by
  obtain ⟨⟨can, -⟩, put⟩ | ⟨cannot, refused⟩ :=
    t.replaceVia_cases current p content (t.asideNumber current p) .none
  · exact .inl ⟨can, put⟩
  · refine .inr ⟨fun can => cannot ⟨can, ?_, rfl⟩, refused⟩
    obtain ⟨here, held⟩ := can.held
    have free := isFree_asideNumber held
    rw [isFree, Bool.and_eq_true, Option.isNone_iff_eq_none] at free
    exact ⟨here, held, free.1⟩

/-- A file that could be replaced can be replaced after it has been. -/
theorem Replaceable.again {changed : List Location} (can : t.Replaceable current p)
    (h : t.Puts current p content l t') (later : t'.Grows changed t'') :
    t''.Replaceable current p where
  held := by
    obtain ⟨here, held⟩ := can.held
    exact ⟨here, later.approach (h.grows.approach held)⟩
  writable := (h.again later).writable
  named := can.named

/-- What has been replaced can be replaced again. -/
theorem replace_again {changed : List Location}
    (replaced : t.replace current p content = (.ok (), t'))
    (h : t.Puts current p content l t') (later : t'.Grows changed t'') :
    t''.replace current p content = (.ok (), t''.set l (.file content)) := by
  obtain ⟨can, -⟩ | ⟨-, e, refused⟩ := t.replace_cases current p content
  · obtain ⟨-, l', t₁, puts, replaced'⟩ | ⟨cannot, -⟩ := t''.replace_cases current p content
    · cases puts.locate.symm.trans (h.again later).locate
      rw [replaced', puts.result]
    · exact absurd (can.again h later) cannot
  · rw [refused] at replaced
    cases replaced

/-! ## The directory of an entry -/

/-- A path leads where the first of its steps lead, as long as it is not longer than the system
takes. -/
theorem locate_parent? {q : Path} {names : List String} (h : t.locate current p = .ok l)
    (parent : p.parent? = some q) (some : q.text.isEmpty = false)
    (hsteps : p.steps = q.steps ++ names) :
    ∃ here, t.locate current q = .ok here ∧ names.foldlM t.step here = .ok l := by
  obtain ⟨rest, htext, -⟩ := Path.exists_text_of_parent? parent
  rw [locate, follow] at h
  split at h
  · cases h
  split at h
  · cases h
  split at h
  · cases h
  · next zero _ long =>
    rw [hsteps, List.foldlM_append, Outcome.bind_eq_ok_iff,
      ← Path.isAbsolute_of_parent? parent] at h
    -- The parent's text is the start of the path's, so it is no longer and holds no other
    -- characters.
    have text : p.text = q.text ++ String.ofList rest := by
      rw [← String.toList_inj, String.toList_append, htext, String.toList_ofList]
    have zero : '\x00' ∉ q.text.toList := fun there =>
      zero (htext ▸ List.mem_append_left rest there)
    have long : ¬pathLimit < q.text.utf8ByteSize := by
      rw [text, String.utf8ByteSize_append] at long
      omega
    obtain ⟨here, first, last⟩ := h
    refine ⟨here, ?_, last⟩
    rw [locate, follow, if_neg zero, some, if_neg Bool.false_ne_true, if_neg long, first]

/-- A dot leads to the current directory. -/
theorem locate_dot (there : t.lookup current = some .directory) :
    t.locate current ⟨"."⟩ = .ok current := by
  have hsteps : Path.steps ⟨"."⟩ = ["."] := by decide
  have relative : Path.isAbsolute ⟨"."⟩ = false := by decide
  have short : ¬pathLimit < String.utf8ByteSize "." := by decide
  rw [locate, follow, if_neg (by decide), if_neg (by decide), if_neg short, hsteps, relative,
    if_neg Bool.false_ne_true, List.foldlM_cons, step, there]
  rfl

/-- The directory of a path's entry is there if the path leads anywhere and ends in its name. -/
theorem isDirectory_holder (writable : t.Writable current p) (named : p.endsInName = true) :
    t.isDirectory current p.holder = true := by
  obtain ⟨l, place, noSlash, -⟩ := writable
  obtain ⟨q, parent⟩ := Path.exists_parent?_of_endsInName named noSlash
  obtain ⟨name, names, hsteps⟩ := Path.exists_steps_of_parent? named noSlash parent
  refine isDirectory_iff.2 ?_
  rw [Path.holder, parent]
  dsimp only
  cases empty : q.text.isEmpty with
  | true =>
    obtain rfl : q = ⟨""⟩ := congrArg Path.mk (String.isEmpty_iff.1 empty)
    have walk := walk_of_locate place
    rw [FileTree.walk, hsteps, ← Path.isAbsolute_of_parent? parent] at walk
    obtain ⟨_, first, -⟩ := Outcome.bind_eq_ok_iff.1 walk
    have there : t.lookup current = some .directory := directory_of_step first
    refine ⟨current, ?_, there⟩
    exact locate_dot there
  | false =>
    obtain ⟨here, found, rest⟩ := locate_parent? place parent empty hsteps
    rw [List.foldlM_cons, Outcome.bind_eq_ok_iff] at rest
    obtain ⟨_, first, -⟩ := rest
    exact ⟨here, found, directory_of_step first⟩

end FileTree

end OverlaySync
