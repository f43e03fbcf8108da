import OverlaySync.CommandLine.Arguments

/-! # Texts of the command line

How the program is used, and the completions that shells can load. -/

namespace OverlaySync.CommandLine

/-- The name of the program. -/
def programName : String := "xwalk-sync"

/-- The version of the program. -/
def programVersion : String := "0.1.0"

/-- What a subcommand does. -/
def Subcommand.summary : Subcommand → String
  | generate => "Make the checkout descriptor from the manifest"
  | fetchRoot => "Check out the root of the tree when syncing through git"
  | completions => "Print completions for a shell"

/-- What follows the name of a subcommand. -/
def Subcommand.operands : Subcommand → String
  | generate =>
    "[--deps <FILE>] [--cache-dir <DIR>] [--use-git] [--xwalk-dir <DIR>] [--dry-run]"
  | fetchRoot => "[--xwalk-dir <DIR>] [--use-git]"
  | completions => "<bash|zsh|fish|powershell|elvish>"

/-- The options that may stand anywhere. -/
def commonOperands : String :=
  "[--color <WHEN>] [--log-level <LEVEL>] [--help]"

/-- How a scope is used. -/
def usage : Scope → String
  | .top =>
    let line (c : Subcommand) : String := s!"  {c.name}: {c.summary}\n"
    s!"Usage: {programName} {commonOperands} [--version] <COMMAND>\n" ++
      line .generate ++ line .fetchRoot ++ line .completions
  | .behind c => s!"Usage: {programName} {c.name} {c.operands} {commonOperands}\n"

/-- The words that are completed: the names of the subcommands. -/
def completionWords : String :=
  " ".intercalate [Subcommand.generate.name, Subcommand.fetchRoot.name, Subcommand.completions.name]

/-- The completions for a shell. -/
def completionScript : Shell → String
  | .bash => "complete -W '" ++ completionWords ++ "' " ++ programName ++ "\n"
  | .zsh =>
    "#compdef " ++ programName ++ "\n_arguments '1:command:(" ++ completionWords ++ ")'\n"
  | .fish => "complete -c " ++ programName ++ " -f -a '" ++ completionWords ++ "'\n"
  | .powershell =>
    "Register-ArgumentCompleter -Native -CommandName " ++ programName ++
      " -ScriptBlock \x7b -split '" ++ completionWords ++ "' \x7d\n"
  | .elvish =>
    "set edit:completion:arg-completer[" ++ programName ++ "] = \x7b|@words| put " ++
      completionWords ++ " \x7d\n"

end OverlaySync.CommandLine
