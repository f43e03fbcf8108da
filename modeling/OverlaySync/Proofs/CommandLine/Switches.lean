import OverlaySync.CommandLine.Arguments
import OverlaySync.Proofs.Outcome

/-! # One more option without a value

Arguments are understood from left to right, and what has been given is looked at again only when
the same is given a second time. So a switch that is not among the arguments can be given before
them, and makes no difference to how they are understood (`ignores_readBehind`). A command line
on which the descriptor is to be made becomes one for a dry run in this way (`exists_dryRun`). -/

namespace OverlaySync.CommandLine

namespace Progress

variable {s t : Switch} {p q : Progress}

/-- The same progress, with a switch that has been given before. -/
def withSwitch (p : Progress) (s : Switch) : Progress :=
  { p with given := { p.given with switches := p.given.switches ++ [s] } }

/-! ## What is settled -/

/-- An option with a value is nothing to the switches. -/
theorem give_withSwitch {o : Parameter} {text : String} (h : p.give o text = .ok q) :
    q.given.switches = p.given.switches ∧
      ∀ s, (p.withSwitch s).give o text = .ok (q.withSwitch s) := by
  rw [give] at h
  split at h
  · next acceptable =>
    cases h
    exact ⟨rfl, fun _ => if_pos acceptable⟩
  · cases h

/-- An option that is settled, with a value or none, is nothing to the switches. -/
theorem settle_withSwitch (h : p.settle = .ok q) :
    q.given.switches = p.given.switches ∧ ∀ s, (p.withSwitch s).settle = .ok (q.withSwitch s) := by
  obtain ⟨scope, given, waiting⟩ := p
  match waiting with
  | none =>
    cases h
    exact ⟨rfl, fun _ => rfl⟩
  | some (.awaiting o) => cases h
  | some (.value o text) => exact give_withSwitch (p := ⟨scope, given, none⟩) h
  | some (.shell name) =>
    cases known : Shell.ofName? name with
    | none =>
      simp only [settle, known] at h
      cases h
    | some shell =>
      simp only [settle, withSwitch, known] at h ⊢
      cases h
      exact ⟨rfl, fun _ => rfl⟩

/-- A switch is turned on unless it has been, or ends the reading. -/
theorem turnOn_eq_ok_iff : p.turnOn t = .ok q ↔
    t ∉ [Switch.help, .version] ∧ t ∉ p.given.switches ∧ ∃ settled, p.settle = .ok settled ∧
      q = { settled with given := { settled.given with switches := t :: p.given.switches } } := by
  rw [turnOn, Outcome.bind_eq_ok_iff]
  cases t with
  | help | version => simp
  | wantsGit | dryRun =>
    simp only [List.contains_iff_mem, misuse]
    split <;> simp_all [eq_comm]

/-! ## Steps to which a switch makes no difference -/

/-- The step takes no switch away. If it does not give `s`, it does the same when `s` has been
given. -/
def Ignores (s : Switch) (step : Progress → Except Stop Progress) : Prop :=
  ∀ p q, step p = .ok q → (s ∈ p.given.switches → s ∈ q.given.switches) ∧
    (s ∉ q.given.switches → step (p.withSwitch s) = .ok (q.withSwitch s))

namespace Ignores

variable {f g : Progress → Except Stop Progress}

/-- A step that leaves the switches alone ignores all of them if it does the same under each. -/
theorem of_same (h : ∀ p q, f p = .ok q → q.given.switches = p.given.switches ∧
    f (p.withSwitch s) = .ok (q.withSwitch s)) : Ignores s f := by
  intro p q hf
  obtain ⟨same, goes⟩ := h p q hf
  exact ⟨fun on => same ▸ on, fun _ => goes⟩

/-- To do nothing is to ignore every switch. -/
theorem ok : Ignores s .ok :=
  of_same fun _ _ h => by
    cases h
    exact ⟨rfl, rfl⟩

/-- Two steps in turn ignore what each of them ignores. -/
theorem bind (hf : Ignores s f) (hg : Ignores s g) : Ignores s fun p => f p >>= g := by
  intro p r h
  obtain ⟨q, first, second⟩ := Outcome.bind_eq_ok_iff.1 h
  obtain ⟨keeps, same⟩ := hf p q first
  obtain ⟨keeps', same'⟩ := hg q r second
  refine ⟨keeps' ∘ keeps, fun off => Outcome.bind_eq_ok_iff.2 ⟨_, same fun on => ?_, same' off⟩⟩
  exact off (keeps' on)

/-- Steps for the elements of a list, one after another, ignore what all of them ignore. -/
theorem foldlM {α : Type} {step : Progress → α → Except Stop Progress} {xs : List α}
    (h : ∀ x ∈ xs, Ignores s (step · x)) : Ignores s (xs.foldlM step) := by
  induction xs with
  | nil => exact ok
  | cons x xs ih =>
    exact (h x List.mem_cons_self).bind (ih fun y there => h y (List.mem_cons_of_mem x there))

/-- Settling an option that still waits for its value asks for no switch. -/
theorem settle : Ignores s Progress.settle :=
  of_same fun _ _ h => (settle_withSwitch h).imp_right fun same => same s

/-- Giving a parameter its value asks for no switch. -/
theorem give (o : Parameter) (text : String) : Ignores s (Progress.give · o text) :=
  of_same fun _ _ h => (give_withSwitch h).imp_right fun same => same s

/-- Turning a switch on asks for that switch only, which must not be on yet. -/
theorem turnOn (t : Switch) : Ignores s (Progress.turnOn · t) := by
  intro p q h
  obtain ⟨continues, new, settled, hsettle, rfl⟩ := turnOn_eq_ok_iff.1 h
  obtain ⟨-, same⟩ := settle_withSwitch hsettle
  refine ⟨List.mem_cons_of_mem t, fun off => ?_⟩
  rw [List.mem_cons, not_or] at off
  -- `t` is still new: it is neither among the switches of `p` nor `s`, which stays off.
  refine turnOn_eq_ok_iff.2 ⟨continues, fun on => ?_, _, same s, rfl⟩
  obtain on | on := List.mem_append.1 on
  · exact new on
  · exact off.1 (List.mem_singleton.1 on).symm

/-- A long option settles what waits, and then gives a value, waits for one, or is a switch. -/
theorem takeNamed (name : String) (value : Option String) :
    Ignores s (Progress.takeNamed · name value) := by
  have awaiting (o : Parameter) : Ignores s fun p =>
      p.settle >>= fun settled => .ok { settled with unsettled := some (.awaiting o) } :=
    settle.bind <| of_same fun _ _ h => by
      cases h
      exact ⟨rfl, rfl⟩
  intro p q h
  have scope : (p.withSwitch s).scope = p.scope := rfl
  unfold Progress.takeNamed at h ⊢
  dsimp only at h ⊢
  rw [scope]
  split at h
  · exact (settle.bind (give _ _)) p q h
  · exact awaiting _ p q h
  · exact turnOn _ p q h
  · cases h
  · cases h

/-- The first letter of a group is a switch that ends the reading, or the group is refused. -/
theorem takeLettered (letters : List Char) : Ignores s (Progress.takeLettered · letters) := by
  cases letters with
  | nil => exact ok
  | cons c cs =>
    intro p q h
    have scope : (p.withSwitch s).scope = p.scope := rfl
    unfold Progress.takeLettered at h ⊢
    dsimp only at h ⊢
    rw [scope]
    split at h
    · exact turnOn _ p q h
    · cases h

/-- A plain argument is a value that is waited for, the name of a shell, or refused. -/
theorem takePlain (text : String) : Ignores s (Progress.takePlain · text) := by
  intro p q h
  -- What follows the settling looks at the scope of `p` as well.
  have naming : Ignores s fun settled : Progress =>
      if p.scope = .behind .completions && settled.given.shell.isNone then
        .ok { settled with unsettled := some (.shell text) }
      else p.misuse := by
    refine of_same fun settled q h => ?_
    split at h
    · next free =>
      cases h
      exact ⟨rfl, if_pos free⟩
    · cases h
  exact settle.bind naming p q h

end Ignores

end Progress

/-! ## Arguments -/

open Progress (Ignores)

/-- All arguments behind the name of a subcommand are understood as they are without the switch. -/
theorem ignores_readBehind (s : Switch) (arguments : List String) :
    Ignores s (readBehind · arguments) := by
  induction arguments with
  | nil => exact .settle
  | cons argument arguments ih =>
    intro p q h
    have waiting : (p.withSwitch s).unsettled = p.unsettled := rfl
    dsimp only at h ⊢
    rw [readBehind] at h ⊢
    rw [waiting]
    split at h
    · exact Ignores.bind (.foldlM fun text _ => .takePlain text) .settle p q h
    · exact Ignores.bind (.takeNamed _ _) ih p q h
    · exact Ignores.bind (.takeLettered _) ih p q h
    · exact ih _ q h
    · exact Ignores.bind (.takePlain _) ih p q h

/-- A word that is no option is the argument itself. -/
theorem Word.of_eq_plain {argument text : String} (h : Word.of argument = .plain text) :
    argument = text := by
  unfold Word.of at h
  split at h
  · cases h
  · dsimp only at h
    split at h <;> cases h
  · cases h
  · exact Word.plain.inj h

/-- A subcommand is found under its own name. -/
theorem Subcommand.name_of_ofName? {text : String} {c : Subcommand}
    (h : Subcommand.ofName? text = some c) : c.name = text := by
  simpa using List.find?_some h

/-- At the name of a subcommand the reading goes over to what stands behind it. -/
theorem readTop_name {p : Progress} {name : String} {c : Subcommand}
    (word : Word.of name = .plain name) (ready : ∀ o, p.unsettled ≠ some (.awaiting o))
    (known : Subcommand.ofName? name = some c) (rest : List String) :
    readTop p (name :: rest) = (do
      let behind ← readBehind (.start (.behind c)) rest
      let atTop ← p.settle
      .ok { subcommand := c, atTop := atTop.given, behind := behind.given }) := by
  have noHelp : name ≠ helpName := by
    rintro rfl
    cases known
  rw [readTop, word]
  split
  · next h => cases h
  · next h => cases h
  · next h => cases h
  · next waiting => exact absurd waiting (ready _)
  · next h _ =>
    obtain rfl := Word.plain.inj h
    rw [if_neg noHelp, known]

/-- The arguments are understood as `u`. The subcommand's name stands between `front` and `rest`,
and what stands behind it is understood apart from what stands before. -/
structure Splits (p : Progress) (arguments : List String) (u : Understood)
    (front rest : List String) : Prop where
  whole : arguments = front ++ u.subcommand.name :: rest
  behind : ∃ q, readBehind (.start (.behind u.subcommand)) rest = .ok q ∧ u.behind = q.given
  others {rest' : List String} {q : Progress}
    (h : readBehind (.start (.behind u.subcommand)) rest' = .ok q) :
    readTop p (front ++ u.subcommand.name :: rest') = .ok { u with behind := q.given }

/-- An argument before the name leads from one progress to another. -/
theorem Splits.cons {p p' : Progress} {argument : String} {arguments front rest : List String}
    {u : Understood} (h : Splits p' arguments u front rest)
    (step : ∀ more, readTop p (argument :: more) = readTop p' more) :
    Splits p (argument :: arguments) u (argument :: front) rest where
  whole := congrArg (argument :: ·) h.whole
  behind := h.behind
  others h' := (step _).trans (h.others h')

/-- Whatever is understood has the name of a subcommand in it, where it falls apart. -/
theorem exists_splits {p : Progress} {arguments : List String} {u : Understood}
    (h : readTop p arguments = .ok u) : ∃ front rest, Splits p arguments u front rest := by
  induction arguments generalizing p with
  | nil => cases h
  | cons argument arguments ih =>
    have onwards {p' : Progress} (h : readTop p' arguments = .ok u)
        (step : ∀ more, readTop p (argument :: more) = readTop p' more) :
        ∃ front rest, Splits p (argument :: arguments) u front rest := by
      obtain ⟨front, rest, splits⟩ := ih h
      exact ⟨_, rest, splits.cons step⟩
    have whole := h
    rw [readTop] at h
    -- All words but the name lead onwards.
    split at h
    · cases h
    · next name value word =>
      obtain ⟨p', taken, h⟩ := Outcome.bind_eq_ok_iff.1 h
      exact onwards h fun more => by rw [readTop, word]; simp only [taken]; rfl
    · next letters word =>
      obtain ⟨p', taken, h⟩ := Outcome.bind_eq_ok_iff.1 h
      exact onwards h fun more => by rw [readTop, word]; simp only [taken]; rfl
    · next text o word waiting =>
      exact onwards h fun more => by rw [readTop, word, waiting]
    · next text word ready =>
      obtain rfl := Word.of_eq_plain word
      split at h
      · cases h
      split at h
      · cases h
      next c known =>
      have steps := readTop_name (p := p) word ready known
      rw [steps] at whole
      obtain ⟨q, hbehind, whole⟩ := Outcome.bind_eq_ok_iff.1 whole
      obtain ⟨top, settled, whole⟩ := Outcome.bind_eq_ok_iff.1 whole
      cases whole
      obtain rfl := Subcommand.name_of_ofName? known
      refine ⟨[], arguments, rfl, ⟨q, hbehind, rfl⟩, fun {rest' q'} h' => ?_⟩
      rw [List.nil_append, steps, h', settled]
      rfl

/-! ## Dry runs -/

/-- The same is asked for, but that the descriptor is not to be written. -/
structure Understood.Previews (u' u : Understood) : Prop where
  subcommand : u'.subcommand = u.subcommand
  value (o : Parameter) : u'.value o = u.value o
  isOn (s : Switch) : u'.isOn s = (s == .dryRun || u.isOn s)

/-- Wherever a descriptor is to be made, a dry run of this can be asked for, behind the name of the
subcommand. -/
theorem exists_dryRun {arguments : List String} {u : Understood} (h : read arguments = .ok u)
    (making : u.subcommand = .generate) (off : u.isOn .dryRun = false) :
    ∃ front rest u', arguments = front ++ "generate" :: rest ∧
      read (front ++ "generate" :: "--dry-run" :: rest) = .ok u' ∧ u'.Previews u := by
  obtain ⟨front, rest, whole, ⟨q, hbehind, given⟩, others⟩ := exists_splits h
  have unasked : .dryRun ∉ q.given.switches := by
    simpa [Understood.isOn, given] using off
  rw [making] at whole hbehind others
  obtain ⟨-, again⟩ := ignores_readBehind .dryRun rest _ q hbehind
  have first : readBehind (.start (.behind .generate)) ("--dry-run" :: rest) =
      readBehind ((Progress.start (.behind .generate)).withSwitch .dryRun) rest := by
    rw [readBehind, show Word.of "--dry-run" = .named "dry-run" none by decide]
    rfl
  refine ⟨front, rest, _, whole, others (first.trans (again unasked)), ?_⟩
  refine ⟨making.symm, fun o => ?_, fun s => ?_⟩
  · rw [Understood.value, Understood.value, given]
    rfl
  · rw [Bool.eq_iff_iff]
    simp [Understood.isOn, given, Progress.withSwitch, or_comm]

end OverlaySync.CommandLine
