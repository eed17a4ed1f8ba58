import Peano.Command.Basic
import Peano.Text.Blank
namespace Peano.Command

def FlagKind.word : FlagKind → String
  | text _ => " string"
  | switch => ""
  | integer _ => " int"
  | duration => " duration"

/-- What a flag is if it is not given, unless that goes without saying. -/
def FlagKind.remark : FlagKind → String
  | text "" | switch | integer 0 | duration => ""
  | text s => " (default " ++ Text.quote s ++ ")"
  | integer n => s!" (default {n})"

def Flag.heading (f : Flag) : String :=
  (match f.short with
    | some c => "  -" ++ String.singleton c ++ ", --"
    | none => "      --") ++ f.name ++ f.kind.word

def flagTable (flags : List Flag) : String :=
  let sorted := flags.mergeSort fun a b => a.name ≤ b.name
  let width := (sorted.map (·.heading.length)).foldl max 0
  let row (f : Flag) : String := Text.padEnd (width + 3) f.heading ++ f.usage ++ f.kind.remark
  String.intercalate "\n" (sorted.map row)

def useLine (c : Command) : String :=
  let line := match c.parent? with
    | some p => p.path ++ " " ++ c.use
    | none => c.use
  let showsFlags := match c with
    | .script .bash => false
    | _ => (line.splitOn "[flags]").length = 1
  if showsFlags then line ++ " [flags]" else line

/-- How a command is used. The flags that ask for help are shown only once they are there. -/
def usage (c : Command) (asking : Bool) : String :=
  let own := c.flags ++ if asking then c.askingFlags else []
  let own := if c = .root then own ++ globalFlags else own
  let row (d : Command) : String := "\n  " ++ Text.padEnd 11 d.name ++ " " ++ d.short
  let children := c.children.mergeSort fun a b => a.name ≤ b.name
  "Usage:" ++
    (if c.isGroup then "\n  " ++ c.path ++ " [command]" else "\n  " ++ useLine c) ++
    (if children.isEmpty then "" else "\n\nAvailable Commands:" ++ String.join (children.map row)) ++
    (if own.isEmpty then "" else "\n\nFlags:\n" ++ flagTable own) ++
    (if c = .root then "" else "\n\nGlobal Flags:\n" ++ flagTable globalFlags) ++
    (if children.isEmpty then ""
      else "\n\nUse \"" ++ c.path ++ " [command] --help\" for more information about a command.") ++
    "\n"

def helpPage (c : Command) : String :=
  (if c.long == "" then c.short else c.long) ++ "\n\n" ++ usage c true

end Peano.Command
