import Peano.Text.Bytes
import Peano.Text.Canonical
namespace Peano.Text

/-- The leading consonant, vowel and trailing consonant a Hangul syllable is made of. -/
def syllableParts? (code : Nat) : Option (List Nat) :=
  if 0xAC00 ≤ code ∧ code ≤ 0xD7A3 then
    let index := code - 0xAC00
    let parts := [0x1100 + index / 588, 0x1161 + index % 588 / 28]
    some (if index % 28 = 0 then parts else parts ++ [0x11A7 + index % 28])
  else none

def mappingOf? (code : Nat) : Option (List Nat) :=
  match decompositions.find? (·.1 == code) with
  | some (_, a, b) => some [a, b]
  | none => (singletons.find? (·.1 == code)).map fun (_, a) => [a]

/-- Applies the canonical mappings to the given depth; no character needs more than four steps. -/
def decomposeWithin : Nat → Nat → List Nat
  | 0, code => [code]
  | depth + 1, code =>
    if code < 0xC0 then [code]
    else match syllableParts? code with
      | some parts => parts
      | none =>
        match mappingOf? code with
        | some parts => parts.flatMap (decomposeWithin depth)
        | none => [code]

def decompose (code : Nat) : List Nat := decomposeWithin 4 code

/-- Two parts of a Hangul syllable make a larger part of it. -/
def composeSyllable? (a b : Nat) : Option Nat :=
  if 0x1100 ≤ a ∧ a ≤ 0x1112 ∧ 0x1161 ≤ b ∧ b ≤ 0x1175 then
    some (0xAC00 + ((a - 0x1100) * 21 + (b - 0x1161)) * 28)
  else if 0xAC00 ≤ a ∧ a ≤ 0xD7A3 ∧ (a - 0xAC00) % 28 = 0 ∧ 0x11A8 ≤ b ∧ b ≤ 0x11C2 then
    some (a + (b - 0x11A7))
  else none

/-- Pairs are told apart by the low sixteen bits of their codes, which no two of them share. -/
def composePair? (a b : Nat) : Option Nat :=
  (composites.find? fun (_, x, y) =>
    x % 0x10000 == a % 0x10000 && y % 0x10000 == b % 0x10000).map (·.1)

/-- Whether a character can be the second of a pair that composes. -/
def joinsBefore (code : Nat) : Bool :=
  (0x1161 ≤ code && code ≤ 0x1175) || (0x11A7 ≤ code && code ≤ 0x11C2) ||
    composites.any fun (_, _, y) => y == code

/-- Whether a character can attach to what stands before it. -/
def attaches (code : Nat) : Bool := combiningClass code != 0 || joinsBefore code

def Rune.code (r : Rune) : Nat := r.shown.toNat

def Rune.combining (r : Rune) : Nat := combiningClass r.code

def Rune.parts : Rune → List Rune
  | .char c => (decompose c.toNat).map fun code => .char (Char.ofNat code)
  | .bad b => [.bad b]

/-- How many attaching characters a character brings to what stands before it and to what follows. -/
def edges (code : Nat) : Nat × Nat :=
  if code < 0xA8 then (0, 0)
  else match looseEdges.find? fun (_, _, ranges) => inRanges ranges code with
    | some (front, back, _) => (front, back)
    | none =>
      let parts := decompose code
      ((parts.takeWhile attaches).length, (parts.reverse.takeWhile attaches).length)

/-- At most this many attaching characters stand in a row. -/
def longestRun : Nat := 30

/-- U+034F parts a run of attaching characters that is too long. -/
def divider : Rune := .char (Char.ofNat 0x34F)

/-- Cuts a text into segments, where `current` holds the runes of the segment so far, latest first,
and `count` the attaching characters at its end. -/
def segments (count : Nat) (current : List Rune) : List Rune → List (List Rune)
  | [] => [current.reverse]
  | r :: rest =>
    let (front, back) := edges r.code
    if front = 0 then current.reverse :: segments back [r] rest
    else if count + front > longestRun then
      (divider :: current).reverse :: segments front [r] rest
    else segments (count + front) (r :: current) rest

/-- Puts a mark behind the marks of the same or a lower class. -/
def insertMark (r : Rune) : List Rune → List Rune
  | [] => [r]
  | x :: xs => if x.combining ≤ r.combining then x :: insertMark r xs else r :: x :: xs

/-- One step of putting marks in order: what is done, and the marks at its end. -/
def reorderStep : List Rune × List Rune → Rune → List Rune × List Rune
  | (done, run), r => if r.combining = 0 then (r :: (run.reverse ++ done), []) else (done, insertMark r run)

/-- Sorts every run of marks by combining class and keeps the order within a class. -/
def reorder (rs : List Rune) : List Rune :=
  let (done, run) := rs.foldl reorderStep ([], [])
  (run.reverse ++ done).reverse

/-- A segment of which a part is composed: the base, which the next character may compose with, and
what stands before and after it, latest first. -/
structure Composing where
  before : List Rune
  base : Rune
  after : List Rune
  /-- Whether a part of a syllable stands behind the first character. -/
  syllabic : Bool

namespace Composing

def start (r : Rune) : Composing := ⟨[], r, [], false⟩

def last (s : Composing) : Rune := s.after.headD s.base

/-- Makes the last character the base. -/
def rebase (s : Composing) : Composing :=
  match s.after with
  | [] => s
  | last :: between => { s with before := between ++ s.base :: s.before, base := last, after := [] }

/-- A mark between blocks the marks of the same or a lower class. -/
def blocks (s : Composing) (r : Rune) : Bool :=
  match s.after with
  | [] => false
  | last :: _ => r.combining ≤ last.combining

/-- Only a character that can compose looks for a base. It takes the one before it if that is no mark,
and otherwise the base that was last taken. -/
def add (s : Composing) (r : Rune) : Composing :=
  let syllabic := s.syllabic || (0x1100 ≤ r.code && r.code ≤ 0x11FF)
  if syllabic || joinsBefore r.code then
    let based := { (if s.last.combining = 0 then s.rebase else s) with syllabic }
    let joined? := if based.blocks r then none
      else if syllabic then composeSyllable? based.base.code r.code
      else composePair? based.base.code r.code
    match joined? with
    | some code => { based with base := .char (Char.ofNat code) }
    | none => { based with after := r :: based.after }
  else { s with after := r :: s.after }

def runes (s : Composing) : List Rune := s.before.reverse ++ s.base :: s.after.reverse

end Composing

def recompose : List Rune → List Rune
  | [] => []
  | r :: rest => (rest.foldl Composing.add (.start r)).runes

def composeSegment (rs : List Rune) : List Rune := recompose (reorder (rs.flatMap Rune.parts))

/-- Canonical composition. ASCII text is its own normal form. -/
def compose (bs : Bytes) : Bytes :=
  if bs.isAscii then bs
  else ((segments 0 [] (runes bs)).flatMap composeSegment).flatMap Rune.bytes

end Peano.Text
