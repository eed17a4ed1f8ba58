import Peano.Text.Style
namespace Peano.Version

def current : String := "0.1.0-dev"

def tagline : String := "proofs are programs"

def toolchain : String := "GO"

/-- A version with its three numbers coloured. What is no dotted triple stays as it is. -/
def pretty (colored : Bool) (version : String) : String :=
  let core := (version.splitOn "-").headD ""
  let suffix := String.intercalate "-" ((version.splitOn "-").drop 1)
  match core.splitOn "." with
  | [major, minor, patch] =>
    Text.styled colored [.yellow, .bold] major ++ "." ++ Text.styled colored [.green, .bold] minor ++ "." ++
      Text.styled colored [.blue, .bold] patch ++ if suffix == "" then "" else "-" ++ suffix
  | _ => version

end Peano.Version
