import Peano.Path
import Peano.Text.Blank
import Peano.Text.Bytes
namespace Peano.Editor.Address

def isDigit (b : UInt8) : Bool := 48 ≤ b && b ≤ 57

def isLetter (b : UInt8) : Bool := (65 ≤ b && b ≤ 90) || (97 ≤ b && b ≤ 122)

def hexDigit? (b : UInt8) : Option UInt8 :=
  if isDigit b then some (b - 48)
  else if 97 ≤ b && b ≤ 102 then some (b - 87)
  else if 65 ≤ b && b ≤ 70 then some (b - 55)
  else none

def parts (separator : UInt8) : Bytes → List Bytes
  | [] => [[]]
  | b :: rest =>
    match parts separator rest with
    | [] => [[b]]
    | first :: more => if b = separator then [] :: first :: more else (b :: first) :: more

def isGroup (bs : Bytes) : Bool := !bs.isEmpty && bs.length ≤ 4 && bs.all fun b => (hexDigit? b).isSome

/-- A number below 256 without a needless zero. -/
def isOctet (bs : Bytes) : Bool :=
  let n := bs.foldl (fun n b => 10 * n + (b.toNat - 48)) 0
  !bs.isEmpty && bs.length ≤ 3 && bs.all isDigit && n < 256 && (bs.length = 1 || bs.head? != some 48)

def isDotted (bs : Bytes) : Bool :=
  let octets := parts 46 bs
  octets.length = 4 && octets.all isOctet

/-- How many groups a text has; four numbers with dots stand for the last two. -/
def groups? (endsAddress : Bool) (bs : Bytes) : Option Nat :=
  let texts := parts 58 bs
  let last := texts.getLastD []
  if bs.isEmpty then some 0
  else if texts.all isGroup then some texts.length
  else if endsAddress && texts.dropLast.all isGroup && isDotted last then some (texts.length + 1)
  else none

/-- What stands before the first pair of colons, and what stands behind it. -/
def ellipsis? : Bytes → Option (Bytes × Bytes)
  | 58 :: 58 :: rest => some ([], rest)
  | b :: rest => (ellipsis? rest).map fun (before, after) => (b :: before, after)
  | [] => none

/-- Eight groups, or fewer with a pair of colons for those that are zero. -/
def isValid (bs : Bytes) : Bool :=
  match ellipsis? bs with
  | none => groups? true bs == some 8
  | some (before, after) =>
    match groups? false before, groups? true after with
    | some n, some m => n + m < 8
    | _, _ => false

end Peano.Editor.Address

namespace Peano.Editor.Uri
open Address (isDigit isLetter hexDigit?)

/-- Puts bytes in place of their escapes; nothing if a percent sign starts no escape. -/
def unescape? : Bytes → Option Bytes
  | [] => some []
  | 37 :: a :: b :: rest => do
    let high ← hexDigit? a
    let low ← hexDigit? b
    return (16 * high + low) :: (← unescape? rest)
  | b :: rest => if b = 37 then none else (unescape? rest).map (b :: ·)

def isAlphanumeric (b : UInt8) : Bool := isDigit b || isLetter b

def isIn (symbols : String) (b : UInt8) : Bool := (Bytes.ofString symbols).contains b

/-- Bytes that stand for themselves in a path. -/
def isPlain (b : UInt8) : Bool := isAlphanumeric b || isIn "-_.~$&+,/:;=@" b

def upperHex (n : UInt8) : UInt8 := if n < 10 then 48 + n else 55 + n

def escape (path : Bytes) : Bytes :=
  path.flatMap fun b => if isPlain b then [b] else [37, upperHex (b / 16), upperHex (b % 16)]

/-- The part before the first such byte, and the part after it if there is one. -/
def cut (b : UInt8) (bs : Bytes) : Bytes × Option Bytes :=
  (bs.takeWhile (· != b), if bs.contains b then some ((bs.dropWhile (· != b)).drop 1) else none)

/-- The part after the last such byte, and the part before it if there is one. -/
def cutLast (b : UInt8) (bs : Bytes) : Option Bytes × Bytes :=
  (if bs.contains b then some ((bs.reverse.dropWhile (· != b)).drop 1).reverse else none,
    (bs.reverse.takeWhile (· != b)).reverse)

/-- The scheme in front of a colon and the rest; no scheme if something else comes first, nothing at all
if the colon does. -/
def scheme? (uri : Bytes) : Option (Bytes × Bytes) :=
  let name := uri.takeWhile fun b => isAlphanumeric b || isIn "+-." b
  match name, uri.drop name.length with
  | [], 58 :: _ => none
  | first :: _, 58 :: rest => some (if isLetter first then (name, rest) else ([], uri))
  | _, _ => some ([], uri)

def isPort (bs : Bytes) : Bool :=
  match bs with
  | [] => true
  | b :: digits => b == 58 && digits.all isDigit

/-- Whether the escapes in a host are allowed there, and its other characters too. -/
def isHostText : Bytes → Bool
  | [] => true
  | 37 :: a :: b :: rest =>
    (hexDigit? a).isSome && (hexDigit? b).isSome && (56 ≤ a || (a == 50 && b == 53)) && isHostText rest
  | b :: rest =>
    b != 37 && (128 ≤ b || isAlphanumeric b || isIn "!$&'()*+,;=:[]<>\"-_.~" b) && isHostText rest

/-- Where the zone of an address starts: at an escaped percent sign. -/
def zoneStart : Bytes → Nat
  | 37 :: 50 :: 53 :: _ => 0
  | _ :: rest => zoneStart rest + 1
  | [] => 0

/-- Whether the name of a zone has only characters that a host may have, or blanks if they are escaped. -/
def isZoneText : Bytes → Bool
  | [] => true
  | 37 :: a :: b :: rest =>
    match hexDigit? a, hexDigit? b with
    | some high, some low =>
      let c := 16 * high + low
      (c == 37 || c == 32 || (c < 128 && isHostText [c])) && isZoneText rest
    | _, _ => false
  | b :: rest => isHostText [b] && isZoneText rest

/-- Whether an address stands between brackets, with the zone that it is valid in if there is one. -/
def isBracketed (bs : Bytes) : Bool :=
  let start := zoneStart bs
  let zone := bs.drop (start + 3)
  if start = bs.length then isHostText bs && Address.isValid bs
  else Address.isValid (bs.take start) && !zone.isEmpty && isZoneText zone

def isHost (host : Bytes) : Bool :=
  if host.contains 91 then
    let (inside, after) := cutLast 93 host
    host.head? == some 91 && isPort after && inside.any fun bs => isBracketed (bs.drop 1)
  else
    let (before, port) := cutLast 58 host
    (before.isNone || isPort (58 :: port)) && isHostText host

def isUserText (bs : Bytes) : Bool :=
  bs.all (fun b => isAlphanumeric b || isIn "-._:~!$&'()*+,;=%@" b) && (unescape? bs).isSome

def isAuthority (authority : Bytes) : Bool :=
  let (user, host) := cutLast 64 authority
  isHost host && user.all isUserText

def afterAuthority? (hasScheme : Bool) (rest : Bytes) : Option Bytes :=
  match rest with
  | 47 :: 47 :: more =>
    if hasScheme || more.head? != some 47 then
      let authority := more.takeWhile (· != 47)
      if isAuthority authority then some (more.drop authority.length) else none
    else some rest
  | _ => some rest

/-- Scheme, in small letters, and path of a URI; nothing if it is malformed. The path of something like
a mail address is empty. -/
def parse? (uri : Bytes) : Option (Bytes × Bytes) := do
  let (main, fragment) := cut 35 uri
  if main.any fun b => b < 32 || b == 127 then none
  let _ ← unescape? (fragment.getD [])
  let (scheme, rest) ← scheme? main
  let lower := scheme.map fun b => if 65 ≤ b && b ≤ 90 then b + 32 else b
  let (rest, _) := cut 63 rest
  if rest.head? != some 47 && !scheme.isEmpty then return (lower, [])
  if rest.head? != some 47 && (rest.takeWhile (· != 47)).contains 58 then none
  let path ← afterAuthority? (!scheme.isEmpty) rest
  return (lower, ← unescape? path)

/-- A path of bytes as a text with one character for each byte, and back. -/
def latin (bs : Bytes) : String := String.ofList (bs.map fun b => Char.ofNat b.toNat)

def unlatin (s : String) : Bytes := s.toList.map fun c => c.toNat.toUInt8

/-- The absolute path that a URI stands for. Without a scheme it is a path itself. -/
def path? (cwd : String) (uri : String) : Option Bytes := do
  let bytes := Bytes.ofString uri
  let (scheme, path) ← parse? bytes
  if bytes.isEmpty ∨ (scheme ≠ [] ∧ scheme ≠ Bytes.ofString "file") then none
  let path := if scheme.isEmpty then bytes else path
  let path := (unescape? path).getD path
  return unlatin (Path.absolute (latin (Bytes.ofString cwd)) (latin path))

def ofPath (path : Bytes) : String := "file://" ++ Bytes.toText (escape path)

/-- The one URI of a file; other URIs stay as they are. -/
def canonical (cwd : String) (uri : String) : String :=
  let uri := Text.trim uri
  if uri.startsWith "file:" then ((path? cwd uri).map ofPath).getD uri else uri

def documentName (cwd : String) (uri : String) : String := ((path? cwd uri).map Bytes.toText).getD uri

end Peano.Editor.Uri
