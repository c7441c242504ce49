/-
# Matching

A pattern relates places of a text: it leads from a place to the places where a match that
starts there may end. The matcher computes the places reached from a set of places, the set
being one flag for each place, from the place before the first character to the place after
the last. Every operator is an operation on sets, so matching takes no backtracking.
-/

import Targeting.Regex.Syntax

namespace Targeting.Regex

/-- A set of places of a text. -/
abbrev Places := List Bool

/-- What surrounds a place: the characters before and after it. -/
structure Surroundings where
  before : Option Char
  after : Option Char
  deriving Repr, DecidableEq

/-- The surroundings of all places of a text, the character before it given. -/
def surroundings (before : Option Char) : List Char → List Surroundings
  | [] => [⟨before, none⟩]
  | c :: rest => ⟨before, some c⟩ :: surroundings (some c) rest

/-- Whether there is a word character. -/
def isWord (ascii : Bool) : Option Char → Bool
  | some c => (if ascii then CharClass.asciiWord else CharClass.word).has c.toNat
  | none => false

/-- Whether a place meets a condition. -/
def Place.holds (p : Place) (s : Surroundings) : Bool :=
  match p with
  | textStart => s.before.isNone
  | textEnd => s.after.isNone
  | lineStart => s.before.isNone || s.before = some '\n'
  | lineEnd => s.after.isNone || s.after = some '\n'
  | anyLineStart =>
    s.before.isNone || s.before = some '\n' || (s.before = some '\r' && s.after ≠ some '\n')
  | anyLineEnd =>
    s.after.isNone || s.after = some '\r' || (s.after = some '\n' && s.before ≠ some '\r')
  | wordBoundary ascii => isWord ascii s.before != isWord ascii s.after
  | noWordBoundary ascii => isWord ascii s.before == isWord ascii s.after
  | wordStart ascii => !isWord ascii s.before && isWord ascii s.after
  | wordEnd ascii => isWord ascii s.before && !isWord ascii s.after
  | noWordBefore ascii => !isWord ascii s.before
  | noWordAfter ascii => !isWord ascii s.after

namespace Places

/-- Places in either set. -/
def union (a b : Places) : Places := List.zipWith (· || ·) a b

/-- Places that meet a condition. -/
def meeting (p : Place) (around : List Surroundings) (places : Places) : Places :=
  List.zipWith (fun on s => on && p.holds s) places around

/-- Places one character of a class further on. -/
def past (members : CharClass) (text : List Char) (places : Places) : Places :=
  false :: List.zipWith (fun on c => on && members.has c.toNat) places text

/-- Repeat a step a number of times; nothing is reached from nothing. -/
def times (step : Places → Places) : Nat → Places → Places
  | 0, places => places
  | count + 1, places => if places.any id then times step count (step places) else places

/-- Places reached by at most a number of steps. -/
def upTo (step : Places → Places) : Nat → Places → Places
  | 0, places => places
  | count + 1, places =>
    let more := union places (step places)
    if more = places then places else upTo step count more

end Places

/-- The places that matches starting in a set may lead to. Repeating a pattern more often than
the text has places reaches nothing new. -/
def reach (text : List Char) : Regex → Places → Places
  | empty, places => places
  | one members, places => Places.past members text places
  | place p, places => Places.meeting p (surroundings none text) places
  | seq first second, places => reach text second (reach text first places)
  | either first second, places => Places.union (reach text first places) (reach text second places)
  | repeated body least most, places =>
    let extra := match most with
      | some most => most - least
      | none => text.length + 1
    Places.upTo (reach text body) extra (Places.times (reach text body) least places)

/-- Whether a pattern occurs in a text. -/
def occursIn (r : Regex) (text : String) : Bool :=
  let chars := text.toList
  (reach chars r (List.replicate (chars.length + 1) true)).any id

end Targeting.Regex
