namespace Peano.Text

def isWhite (c : Char) : Bool :=
  let n := c.toNat
  (9 ≤ n && n ≤ 13) || n == 0x20 || n == 0x85 || n == 0xA0 || n == 0x1680 ||
    (0x2000 ≤ n && n ≤ 0x200A) || n == 0x2028 || n == 0x2029 || n == 0x202F || n == 0x205F ||
    n == 0x3000

def trim (s : String) : String :=
  String.ofList (((s.toList.dropWhile isWhite).reverse.dropWhile isWhite).reverse)

def blanks (n : Nat) : String := String.ofList (List.replicate n ' ')

def padStart (width : Nat) (s : String) : String := blanks (width - s.length) ++ s

def padEnd (width : Nat) (s : String) : String := s ++ blanks (width - s.length)

end Peano.Text
