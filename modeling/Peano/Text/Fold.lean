namespace Peano.Text

/-- Letters that differ only in case fold to one. -/
def foldCase (c : Char) : Char :=
  if c.toNat = 0x17F then 's' else if c.toNat = 0x212A then 'k' else c.toLower

/-- Whether a name in ASCII and another name differ in case only. -/
def sameFold (a b : String) : Bool := a.toList.map foldCase == b.toList.map foldCase

/-- The letters beyond ASCII whose small form takes another number of bytes. -/
def smallForms : List (Nat × Nat) := [
  (0x130, 0x69), (0x23A, 0x2C65), (0x23E, 0x2C66), (0x1E9E, 0xDF), (0x2126, 0x3C9), (0x212A, 0x6B),
  (0x212B, 0xE5), (0x2C62, 0x26B), (0x2C64, 0x27D), (0x2C6D, 0x251), (0x2C6E, 0x271),
  (0x2C6F, 0x250), (0x2C70, 0x252), (0x2C7E, 0x23F), (0x2C7F, 0x240), (0xA78D, 0x265),
  (0xA7AA, 0x266), (0xA7AB, 0x25C), (0xA7AC, 0x261), (0xA7AD, 0x26C), (0xA7AE, 0x26A),
  (0xA7B0, 0x29E), (0xA7B1, 0x287), (0xA7B2, 0x29D), (0xA7C5, 0x282), (0xA7CB, 0x264),
  (0xA7DC, 0x19B)]

/-- A name in small letters, as far as its length in bytes and its letters in ASCII show them. -/
def small (s : String) : String :=
  String.ofList (s.toList.map fun c => ((smallForms.lookup c.toNat).map Char.ofNat).getD c.toLower)

/-- A name in capitals, as far as these are in ASCII. -/
def capitals (s : String) : String :=
  String.ofList (s.toList.map fun c =>
    if c.toNat = 0x131 then 'I' else if c.toNat = 0x17F then 'S' else c.toUpper)

end Peano.Text
