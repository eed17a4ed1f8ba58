import Peano.Command.Flag
import Peano.Text.Fold
namespace Peano.Command

inductive Script where
  | bash
  | fish
  | powershell
  | zsh
  deriving DecidableEq, Repr

def Script.name : Script → String
  | bash => "bash"
  | fish => "fish"
  | powershell => "powershell"
  | zsh => "zsh"

end Peano.Command

namespace Peano
open Command

inductive Command where
  | root
  | tokenize
  | parse
  | check
  | run
  | lsp
  | init
  | version
  | help
  | completion
  | script (s : Script)
  deriving DecidableEq, Repr

namespace Command

variable (c : Command)

/-- How many arguments a command takes. -/
inductive Arity where
  | any
  | none
  | exactly (n : Nat)
  | atLeast (n : Nat)
  | atMost (n : Nat)
  deriving DecidableEq, Repr

/-- The complaint about a wrong number of arguments of the command at a path. -/
def Arity.complaint? (a : Arity) (path : String) (args : List String) : Option String :=
  let count := args.length
  let orSay (ok : Bool) (text : String) : Option String := if ok then Option.none else some text
  match a with
  | any => Option.none
  | none => args.head?.map fun arg => "unknown command " ++ Text.quote arg ++ " for " ++ Text.quote path
  | exactly n => orSay (count = n) s!"accepts {n} arg(s), received {count}"
  | atLeast n => orSay (n ≤ count) s!"requires at least {n} arg(s), only received {count}"
  | atMost n => orSay (count ≤ n) s!"accepts at most {n} arg(s), received {count}"

def generates (shell : String) : String := "Generate the autocompletion script for " ++ shell ++ ".\n\n"

/-- What to do once, and what to do for every new session. -/
def loads (now later : String) : String :=
  "To load completions in your current shell session:\n\n\t" ++ now ++
  "\n\nTo load completions for every new session, " ++ later

def restarts (places : List (String × String)) : String :=
  "execute once:\n\n" ++ String.join (places.map fun (heading, line) => heading ++ "\t" ++ line ++ "\n\n") ++
  "You will need to start a new shell for this setup to take effect."

def onBoth (linux mac : String) : List (String × String) :=
  [("#### Linux:\n\n", linux), ("#### macOS:\n\n", mac)]

def Script.long : Script → String
  | bash => generates "the bash shell" ++
    "This script depends on the 'bash-completion' package.\n" ++
    "If it is not installed already, you can install it via your OS's package manager.\n\n" ++
    loads "source <(peano completion bash)" (restarts (onBoth
      "peano completion bash > /etc/bash_completion.d/peano"
      "peano completion bash > $(brew --prefix)/etc/bash_completion.d/peano"))
  | fish => generates "the fish shell" ++ loads "peano completion fish | source"
    (restarts [("", "peano completion fish > ~/.config/fish/completions/peano.fish")])
  | powershell => generates "powershell" ++
    loads "peano completion powershell | Out-String | Invoke-Expression"
      "add the output of the above command\nto your powershell profile."
  | zsh => generates "the zsh shell" ++
    "If shell completion is not already enabled in your environment you will need\n" ++
    "to enable it.  You can execute the following once:\n\n" ++
    "\techo \"autoload -U compinit; compinit\" >> ~/.zshrc\n\n" ++
    loads "source <(peano completion zsh)" (restarts (onBoth
      "peano completion zsh > \"$\x7bfpath[1]\x7d/_peano\""
      "peano completion zsh > $(brew --prefix)/share/zsh/site-functions/_peano"))

def use : Command → String
  | root => "peano"
  | tokenize => "tokenize [flags] file.peano"
  | parse => "parse [flags] file.peano"
  | check => "check [flags] <file.peano|directory>..."
  | run => "run [flags] file.peano"
  | lsp => "lsp"
  | init => "init [dir]"
  | version => "version"
  | help => "help [command]"
  | completion => "completion"
  | script s => s.name

def name : String := String.ofList (c.use.toList.takeWhile (· != ' '))

def short : Command → String
  | root => "PeanoScript proof checker and toolchain"
  | tokenize => "Tokenize a PeanoScript source file"
  | parse => "Parse a PeanoScript source file and output its syntax tree"
  | check => "Check PeanoScript proofs"
  | run => "Check a PeanoScript file and evaluate its console.log calls"
  | lsp => "Run the PeanoScript language server over stdio"
  | init => "Create a peano.toml project file"
  | version => "Show peano build information"
  | help => "Help about any command"
  | completion => "Generate the autocompletion script for the specified shell"
  | script s => "Generate the autocompletion script for " ++ s.name

def long : Command → String
  | root => "peano checks PeanoScript proofs, evaluates their console.log output and serves them to editors"
  | tokenize => "Tokenize breaks down a PeanoScript source file into its tokens and the trivia attached to them"
  | parse => "Parse reads a PeanoScript file from one of the grammar entry points and\n" ++
      "prints the result as normalized source, as JSON or as an indented tree"
  | check => "Check type-checks PeanoScript files, or every *.peano and *.ps file below the\n" ++
      "given directories, in parallel. The exit status is 1 when any file has errors."
  | run => "Run checks a PeanoScript file and, when it has no errors, evaluates every\n" ++
      "console.log argument in order. Proofs are programs: the output shows the\n" ++
      "values their realizers compute."
  | init => "Initialize a PeanoScript project by writing peano.toml and, when missing, a\n" ++
      "main.peano with a first proof. Without [dir] the current directory is used;\n" ++
      "a missing directory is created."
  | help => "Help provides help for any command in the application.\n" ++
      "Simply type peano help [path to command] for full details."
  | completion => "Generate the autocompletion script for peano for the specified shell.\n" ++
      "See each sub-command's help for details on how to use the generated script."
  | script s => s.long
  | _ => ""

def arity : Command → Arity
  | tokenize | parse | run => .exactly 1
  | check => .atLeast 1
  | init => .atMost 1
  | script _ => .none
  | _ => .any

/-- Commands that do nothing but have others below them. -/
def isGroup : Command → Bool
  | root | completion => true
  | _ => false

def exerciseFlags : List Flag :=
  [⟨"exercise-var", .text "", "name of the proof the program must define", none⟩,
    ⟨"exercise-type", .text "", "statement the exercise proof must have", none⟩]

def shortcutsFlag : Flag :=
  ⟨"hardcoded-impls", .switch, "replace decision procedure realizers with direct computations", none⟩

def globalFlags : List Flag :=
  [⟨"color", .text "auto", "colorize output (auto|on|off)", none⟩,
    ⟨"quiet", .switch, "suppress non-essential output", none⟩,
    ⟨"timings", .switch, "show timing information", none⟩,
    ⟨"max-diagnostics", .integer 100, "maximum number of diagnostics to show", none⟩,
    ⟨"log-level", .text "warn", "log level (debug|info|warn|error)", none⟩,
    ⟨"log-file", .text "", "append JSON logs to this file", none⟩,
    ⟨"config", .text "", "path to peano.toml (default: search upwards)", none⟩,
    ⟨"cpu-profile", .text "", "write CPU profile to file", none⟩,
    ⟨"mem-profile", .text "", "write heap profile to file on exit", none⟩,
    ⟨"runtime-trace", .text "", "write runtime trace to file", none⟩]

def flags : Command → List Flag
  | tokenize => [⟨"format", .text "pretty", "output format (pretty|json)", none⟩]
  | parse =>
    [⟨"start", .text "code", "grammar entry point (code|expr|logic)", none⟩,
      ⟨"format", .text "source", "output format (source|json|tree)", none⟩]
  | check =>
    [⟨"format", .text "pretty", "output format (pretty|short|json|records)", none⟩,
      ⟨"ui", .text "auto", "progress view (auto|on|off)", none⟩,
      ⟨"jobs", .integer 0, "max parallel workers (0=from peano.toml or GOMAXPROCS)", none⟩,
      shortcutsFlag,
      ⟨"no-cache", .switch, "do not read or write the check cache", none⟩,
      ⟨"with-notes", .switch, "include diagnostic notes in output", none⟩,
      ⟨"suggest", .switch, "include fix suggestions in output", none⟩,
      ⟨"fix", .switch, "apply suggested fixes to the checked files", none⟩] ++ exerciseFlags
  | run =>
    [⟨"timeout", .duration, "stop evaluation after this long (0 = no limit)", none⟩,
      shortcutsFlag,
      ⟨"show-type", .switch, "print the type of the program", none⟩]
  | lsp => ⟨"debounce", .duration, "delay between an edit and its check (0 = 300ms)", none⟩ :: exerciseFlags
  | version => [⟨"format", .text "pretty", "output format (pretty|json)", none⟩]
  | script _ => [⟨"no-descriptions", .switch, "disable completion descriptions", none⟩]
  | _ => []

/-- Flags that ask about a command in place of running it. -/
def askingFlags : List Flag :=
  ⟨"help", .switch, "help for " ++ c.name, some 'h'⟩ ::
    if c = root then [⟨"version", .switch, "version for peano", some 'v'⟩] else []

/-- The commands below a command, in the order in which they are looked at. -/
def children : Command → List Command
  | root => [tokenize, parse, check, run, lsp, init, version, help, completion]
  | completion => [script .bash, script .zsh, script .fish, script .powershell]
  | _ => []

def parent? : Command → Option Command
  | root => none
  | script _ => some completion
  | _ => some root

/-- The names of a command and all above it. -/
def path : String :=
  match c with
  | root => root.name
  | script s => "peano completion " ++ s.name
  | c => "peano " ++ c.name

/-- Whether an argument is a flag whose value is the next argument, as far as is known before the command is
found. -/
def takesNext (flags : List Flag) (arg : String) : Bool :=
  let isSwitchNamed (p : Flag → Bool) : Bool := flags.any fun f => p f && f.isSwitch
  !arg.contains '=' &&
    ((arg.startsWith "--" && !isSwitchNamed fun f => "--" ++ f.name == arg) ||
      (arg.startsWith "-" && arg.utf8ByteSize == 2 &&
        !isSwitchNamed fun f => f.short.any fun s => "-" ++ String.singleton s == arg))

def bareArgs (flags : List Flag) : List String → List String
  | [] => []
  | arg :: rest =>
    if arg == "--" then []
    else if takesNext flags arg then
      match rest with
      | _ :: next :: more => bareArgs flags (next :: more)
      | _ => []
    else if arg != "" && !arg.startsWith "-" then arg :: bareArgs flags rest
    else bareArgs flags rest

/-- Takes out the first argument that is the name of a command. -/
def withoutName (flags : List Flag) (name : String) : List String → List String
  | [] => []
  | arg :: rest =>
    if arg == "--" then arg :: rest
    else if takesNext flags arg then
      match rest with
      | value :: more => arg :: value :: withoutName flags name more
      | [] => [arg]
    else if !arg.startsWith "-" && arg == name then rest
    else arg :: withoutName flags name rest

def knownFlags : List Flag := c.flags ++ globalFlags

/-- The command that a command line names below another one, and the arguments that remain. Commands are
at most `depth` levels below each other. -/
def findBelow : Nat → Command → List String → Command × List String
  | 0, c, args => (c, args)
  | depth + 1, c, args =>
    match bareArgs c.knownFlags args with
    | [] => (c, args)
    | first :: _ =>
      match c.children.find? (·.name == first) with
      | some child => findBelow depth child (withoutName c.knownFlags first args)
      | none => (c, args)

def distanceRow (c : UInt8) : Nat → Nat → Bytes → List Nat → List Nat
  | left, diagonal, d :: ds, up :: ups =>
    let here := if c == d then diagonal else 1 + min (min left up) diagonal
    here :: distanceRow c here up ds ups
  | _, _, _, _ => []

/-- How many bytes have to be added, removed or changed, whatever the case of letters. -/
def distance (a b : String) : Nat :=
  let bs := Bytes.ofString (Text.small b)
  let start := List.range (bs.length + 1)
  let row (above : List Nat) (c : UInt8) : List Nat :=
    match above with
    | [] => []
    | first :: ups => (first + 1) :: distanceRow c (first + 1) first bs ups
  ((Bytes.ofString (Text.small a)).foldl row start).getLastD 0

def suggestions (typed : String) : List String :=
  let near (d : Command) : Bool :=
    d ≠ .help && (distance typed d.name ≤ 2 || d.name.toLower.startsWith (Text.small typed))
  (c.children.filter near).map (·.name)

structure Unknown where
  typed : String
  deriving DecidableEq, Repr

def Unknown.message (u : Unknown) : String :=
  let meant := root.suggestions u.typed
  "unknown command " ++ Text.quote u.typed ++ " for " ++ Text.quote root.path ++
    if meant.isEmpty then ""
    else "\n\nDid you mean this?\n" ++ String.join (meant.map fun s => "\t" ++ s ++ "\n")

/-- The command that a command line names, and the arguments that remain. -/
def find (args : List String) : Except Unknown (Command × List String) :=
  let (c, rest) := findBelow 3 root args
  match c, bareArgs c.knownFlags rest with
  | root, typed :: _ => .error ⟨typed⟩
  | _, _ => .ok (c, rest)

end Command
end Peano
