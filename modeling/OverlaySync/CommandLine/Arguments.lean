/-! # Command line arguments

Arguments are read from left to right, first at the top and then, behind its name, for a subcommand.
An option's value is the rest of its word behind an equals sign, or else the next word. A value of
the second kind is settled when the next option or the end is reached, so a request for help behind
it comes too late if it is refused, except where the subcommand's name stands between them. -/

namespace OverlaySync.CommandLine

/-! ## What can be asked for -/

/-- The shells that completions can be made for. -/
inductive Shell where
  /-- Bash. -/
  | bash
  /-- Z shell. -/
  | zsh
  /-- Fish. -/
  | fish
  /-- PowerShell. -/
  | powershell
  /-- Elvish. -/
  | elvish
  deriving DecidableEq, Repr

/-- The shell of a name. -/
def Shell.ofName? : String → Option Shell
  | "bash" => some bash
  | "zsh" => some zsh
  | "fish" => some fish
  | "powershell" => some powershell
  | "elvish" => some elvish
  | _ => none

/-- The subcommands. -/
inductive Subcommand where
  /-- Make the descriptor. -/
  | generate
  /-- Fetch the root. -/
  | fetchRoot
  /-- Print completions for a shell. -/
  | completions
  deriving DecidableEq, Repr

/-- How a subcommand is called. -/
def Subcommand.name : Subcommand → String
  | generate => "generate"
  | fetchRoot => "fetch-chromium"
  | completions => "completions"

/-- The subcommand of a name. -/
def Subcommand.ofName? (name : String) : Option Subcommand :=
  [generate, fetchRoot, completions].find? fun c => c.name = name

/-- The name that asks for help in place of a subcommand. -/
def helpName : String := "help"

/-- Where an argument stands: at the top, or behind the name of a subcommand. -/
inductive Scope where
  /-- At the top. -/
  | top
  /-- Behind the name of a subcommand. -/
  | behind (c : Subcommand)
  deriving DecidableEq, Repr

/-- The options that have no value. -/
inductive Switch where
  /-- Print how the program is used. -/
  | help
  /-- Print the version. -/
  | version
  /-- Use git mode. -/
  | wantsGit
  /-- Do not write the descriptor. -/
  | dryRun
  deriving DecidableEq, Repr

/-- The options that have a value. -/
inductive Parameter where
  /-- When to use color. -/
  | color
  /-- What to log. -/
  | logLevel
  /-- The manifest. -/
  | manifest
  /-- The directory where repositories are cached. -/
  | cacheDir
  /-- The overlay project. -/
  | overlay
  deriving DecidableEq, Repr

/-- The values that a log level may have. -/
def logLevels : List String :=
  ["off", "error", "warn", "info", "debug", "trace"]

/-- Whether an option may have a value. -/
def Parameter.accepts : Parameter → String → Bool
  | color, _ => true
  | logLevel, value => logLevels.contains value
  | manifest, value | cacheDir, value | overlay, value => !value.isEmpty

/-- An option: a switch, or one with a value. -/
inductive Choice where
  /-- An option without a value. -/
  | switch (s : Switch)
  /-- An option with a value. -/
  | parameter (p : Parameter)
  deriving DecidableEq, Repr

/-- The options that may stand in a scope, by name. -/
def Scope.choices : Scope → List (String × Choice)
  | top => common ++ [("version", .switch .version)]
  | behind .generate =>
    common ++ overlaid ++
      [("deps", .parameter .manifest), ("cache-dir", .parameter .cacheDir),
        ("dry-run", .switch .dryRun)]
  | behind .fetchRoot => common ++ overlaid
  | behind .completions => common
where
  /-- The options that may stand anywhere. -/
  common : List (String × Choice) :=
    [("help", .switch .help), ("color", .parameter .color), ("log-level", .parameter .logLevel)]
  /-- The options of the subcommands that work on an overlay project. -/
  overlaid : List (String × Choice) :=
    [("xwalk-dir", .parameter .overlay), ("use-git", .switch .wantsGit)]

/-- The options of one letter that may stand in a scope. -/
def Scope.letters : Scope → List (Char × Switch)
  | top => [('h', .help), ('V', .version)]
  | behind _ => [('h', .help)]

/-! ## Words -/

/-- The form of an argument. -/
inductive Word where
  /-- Two dashes: what follows is no option. -/
  | escape
  /-- An option by its name, perhaps with a value. -/
  | named (name : String) (value : Option String)
  /-- Options by their letters. -/
  | lettered (letters : List Char)
  /-- Anything else. -/
  | plain (text : String)
  deriving DecidableEq, Repr

/-- The form of an argument. A dash on its own is no option. -/
def Word.of (argument : String) : Word :=
  match argument.toList with
  | ['-', '-'] => .escape
  | '-' :: '-' :: cs =>
    let name := cs.takeWhile (· ≠ '=')
    match cs.drop name.length with
    | [] => .named (String.ofList name) none
    | _ :: value => .named (String.ofList name) (some (String.ofList value))
  | '-' :: c :: cs => .lettered (c :: cs)
  | _ => .plain argument

/-! ## Reading -/

/-- Why there is nothing to be done. -/
inductive Stop where
  /-- Help is asked for. -/
  | help (scope : Scope)
  /-- The version is asked for. -/
  | version
  /-- The arguments are not understood. -/
  | misuse (scope : Scope)
  deriving DecidableEq, Repr

/-- What has been given in a scope. -/
structure Given where
  /-- The options without a value. -/
  switches : List Switch
  /-- The options with a value. -/
  values : List (Parameter × String)
  /-- The shell. -/
  shell : Option Shell
  deriving DecidableEq, Repr

/-- What has been read and not yet been settled. -/
inductive Unsettled where
  /-- An option that still lacks its value. -/
  | awaiting (p : Parameter)
  /-- An option and its value. -/
  | value (p : Parameter) (text : String)
  /-- The name of a shell. -/
  | shell (name : String)
  deriving DecidableEq, Repr

/-- How far a scope has been read. -/
structure Progress where
  /-- The scope. -/
  scope : Scope
  /-- What has been given. -/
  given : Given
  /-- What is still to be settled. -/
  unsettled : Option Unsettled
  deriving DecidableEq, Repr

namespace Progress

/-- Nothing has been read yet. -/
def start (scope : Scope) : Progress :=
  { scope, given := { switches := [], values := [], shell := none }, unsettled := none }

/-- Arguments that are not understood. -/
def misuse {α : Type} (p : Progress) : Except Stop α :=
  .error (.misuse p.scope)

/-- Take an option's value, unless it is not acceptable or there is one already. -/
def give (p : Progress) (o : Parameter) (text : String) : Except Stop Progress :=
  if o.accepts text && (p.given.values.lookup o).isNone then
    .ok { p with given := { p.given with values := (o, text) :: p.given.values } }
  else p.misuse

/-- Settle what has been read. -/
def settle (p : Progress) : Except Stop Progress :=
  let settled := { p with unsettled := none }
  match p.unsettled with
  | none => .ok settled
  | some (.awaiting _) => p.misuse
  | some (.value o text) => settled.give o text
  | some (.shell name) =>
    match Shell.ofName? name with
    | some shell => .ok { settled with given := { p.given with shell := some shell } }
    | none => p.misuse

/-- Take an option without a value. Help and the version end the reading; no other option may be
given twice. -/
def turnOn (p : Progress) (s : Switch) : Except Stop Progress := do
  let settled ← p.settle
  match s with
  | .help => .error (.help p.scope)
  | .version => .error .version
  | _ =>
    if p.given.switches.contains s then p.misuse
    else .ok { settled with given := { settled.given with switches := s :: p.given.switches } }

/-- Take an option by its name. -/
def takeNamed (p : Progress) (name : String) (value : Option String) : Except Stop Progress :=
  match p.scope.choices.lookup name, value with
  | some (.parameter o), some text => do (← p.settle).give o text
  | some (.parameter o), none => do .ok { ← p.settle with unsettled := some (.awaiting o) }
  | some (.switch s), none => p.turnOn s
  | some (.switch _), some _ | none, _ => p.misuse

/-- Take options by their letters. Each of them ends the reading. -/
def takeLettered (p : Progress) : List Char → Except Stop Progress
  | c :: _ =>
    match p.scope.letters.lookup c with
    | some s => p.turnOn s
    | none => p.misuse
  | [] => .ok p

/-- Take a word that is no option and no option's value: the shell, which only completions have, and
only once. -/
def takePlain (p : Progress) (text : String) : Except Stop Progress := do
  let settled ← p.settle
  if p.scope = .behind .completions && settled.given.shell.isNone then
    .ok { settled with unsettled := some (.shell text) }
  else p.misuse

end Progress

/-- Read the arguments behind the name of a subcommand. -/
def readBehind (p : Progress) : List String → Except Stop Progress
  | [] => p.settle
  | argument :: arguments =>
    match Word.of argument, p.unsettled with
    | .escape, _ => do (← arguments.foldlM Progress.takePlain p).settle
    | .named name value, _ => do readBehind (← p.takeNamed name value) arguments
    | .lettered letters, _ => do readBehind (← p.takeLettered letters) arguments
    | .plain text, some (.awaiting o) =>
      readBehind { p with unsettled := some (.value o text) } arguments
    | .plain text, _ => do readBehind (← p.takePlain text) arguments

/-- What is asked for when the arguments are understood. -/
structure Understood where
  /-- The subcommand. -/
  subcommand : Subcommand
  /-- What is given at the top. -/
  atTop : Given
  /-- What is given behind the subcommand's name. -/
  behind : Given
  deriving DecidableEq, Repr

/-- The help that the words behind its name ask for. -/
def helpOn : List String → Stop
  | [] => .help .top
  | [name] =>
    if name = helpName then .help .top
    else match Subcommand.ofName? name with
      | some c => .help (.behind c)
      | none => .misuse .top
  | _ => .misuse .top

/-- Read the arguments at the top. -/
def readTop (p : Progress) : List String → Except Stop Understood
  | [] => p.misuse
  | argument :: arguments =>
    match Word.of argument, p.unsettled with
    | .escape, _ => p.misuse
    | .named name value, _ => do readTop (← p.takeNamed name value) arguments
    | .lettered letters, _ => do readTop (← p.takeLettered letters) arguments
    | .plain text, some (.awaiting o) =>
      readTop { p with unsettled := some (.value o text) } arguments
    | .plain text, _ =>
      if text = helpName then .error (helpOn arguments)
      else match Subcommand.ofName? text with
        | none => p.misuse
        | some subcommand => do
          let behind ← readBehind (.start (.behind subcommand)) arguments
          let atTop ← p.settle
          .ok { subcommand, atTop := atTop.given, behind := behind.given }

namespace Understood

/-- The value of an option. What stands behind the subcommand's name goes first. -/
def value (u : Understood) (o : Parameter) : Option String :=
  (u.behind.values.lookup o).or (u.atTop.values.lookup o)

/-- Whether an option without a value is given. -/
def isOn (u : Understood) (s : Switch) : Bool :=
  u.behind.switches.contains s

end Understood

/-- Read the arguments of the program. -/
def read (arguments : List String) : Except Stop Understood :=
  readTop (.start .top) arguments

end OverlaySync.CommandLine
