namespace Peano.Text

/-- The characters in the rows of a table. -/
def charsOf (rows : List String) : List Char := rows.flatMap String.toList

def hexDigit (c : Char) : Nat :=
  if c.isDigit then c.toNat - 48 else if 'a' ≤ c then c.toNat - 87 else c.toNat - 55

def isHexDigit (c : Char) : Bool := c.isDigit || ('a' ≤ c && c ≤ 'f') || ('A' ≤ c && c ≤ 'F')

def natIn (base : Nat) (digits : List Char) : Nat := digits.foldl (fun n c => base * n + hexDigit c) 0

/-- The ranges in a row of a table, after some digits of a code. Ranges are written by their first and last
code, or by their only one, and codes by their last two hexadecimal digits, with the digits before them and
a colon where these change. -/
def rangesFrom (page : Nat) (low? : Option Nat) (digits : Nat) : List Char → List (Nat × Nat)
  | [] => [(low?.getD (256 * page + digits), 256 * page + digits)]
  | ':' :: rest => rangesFrom digits low? 0 rest
  | '-' :: rest => rangesFrom page (some (256 * page + digits)) 0 rest
  | ' ' :: rest => (low?.getD (256 * page + digits), 256 * page + digits) :: rangesFrom page none 0 rest
  | c :: rest => rangesFrom page low? (16 * digits + hexDigit c) rest

def rangesOf (rows : List String) : List (Nat × Nat) := rows.flatMap fun row => rangesFrom 0 none 0 row.toList

def inRanges (ranges : List (Nat × Nat)) (code : Nat) : Bool :=
  ranges.any fun (low, high) => low ≤ code && code ≤ high

end Peano.Text
