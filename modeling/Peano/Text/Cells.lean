import Peano.Text.Cluster
namespace Peano.Text

/-- Wide characters that stand in one cell. -/
def oneCellRanges : List (Nat × Nat) := rangesOf ["2F:FC-FF 30:30 3D 31:EF 32:97 99 1F2:02 37 60-65"]

def cells (c : Char) : Nat :=
  match clusterClass c with
  | .cr | .lf | .control | .extend | .joiner => 0
  | .regional => 2
  | _ =>
    if c.toNat = 0x2E3A then 3
    else if c.toNat = 0x2E3B then 4
    else if inRanges wideRanges c.toNat && !inRanges oneCellRanges c.toNat then 2
    else 1

def clusterCells (c : Char) (rest : List Char) : Nat :=
  match clusterClass c with
  | .pictograph =>
    rest.foldl (fun n d => if d.toNat = 0xFE0E then 1 else if d.toNat = 0xFE0F then 2 else n) (cells c)
  | .regional | .leadingJamo => cells c
  | _ => rest.foldl (fun n d => n + cells d) (cells c)

/-- Where a line stands in a control sequence, if it stands in one. -/
inductive Control where
  | outside
  | escape
  | intermediate
  | parameters
  /-- A text that ends at an escape, or also at a bell. -/
  | text (bell : Bool)
  deriving DecidableEq, Repr

/-- Where the line stands after an ASCII character. -/
def Control.next (s : Control) (c : Char) : Control :=
  let n := c.toNat
  if n = 0x1B then .escape
  else if n = 0x18 ∨ n = 0x1A then .outside
  else match s with
    | .outside => .outside
    | .escape =>
      if n < 0x20 ∨ n = 0x7F then .escape
      else if n < 0x30 then .intermediate
      else if c = '[' then .parameters
      else if c = ']' then .text true
      else if c ∈ ['P', 'X', '^', '_'] then .text false
      else .outside
    | .intermediate => if n < 0x30 ∨ n = 0x7F then .intermediate else .outside
    | .parameters => if n < 0x40 ∨ n = 0x7F then .parameters else .outside
    | .text bell => if bell ∧ n = 7 then .outside else .text bell

def cellsFrom (s : Control) : List Char → Nat
  | [] => 0
  | c :: rest =>
    if c.toNat < 0x80 then
      (if s = .outside ∧ 0x20 ≤ c.toNat ∧ c.toNat < 0x7F then 1 else 0) + cellsFrom (s.next c) rest
    else
      let split := clusterRest (some ∘ clusterClass) (.start (clusterClass c)) rest
      clusterCells c split.1 + cellsFrom .outside split.2
termination_by cs => cs.length
decreasing_by
  · simp
  · exact Nat.lt_succ_of_le (clusterRest_length _ _ _)

def lineCells (line : String) : Nat := cellsFrom .outside line.toList

end Peano.Text
