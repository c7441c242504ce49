/-
# Reading patterns

The written form of patterns: literals, escapes, classes in brackets, groups with flags,
repetitions and alternatives. A pattern that is not well formed has no tree. Looking around,
references to groups, and names of properties that are not known are refused like any other
mistake.

Some flags change how the rest of the group they stand in is read: letter case, lines, blanks
and comments, and whether classes reach beyond ASCII. The last of these may make a class
match single bytes, which texts do not have, and is then refused.
-/

import Targeting.Number.Digits
import Targeting.Regex.Syntax
import Targeting.Text.Blank
import Targeting.Text.Split

namespace Targeting.Regex

/-- How the pattern is read at some point. -/
structure Flags where
  ignoreCase : Bool
  multiline : Bool
  dotAll : Bool
  ascii : Bool
  anyLineEnd : Bool
  ignoreBlanks : Bool
  deriving Repr, DecidableEq

/-- No flag set. -/
def Flags.standard : Flags := ⟨false, false, false, false, false, false⟩

namespace Parser

/-- The text after a comment. -/
def afterLine : List Char → List Char
  | [] => []
  | '\n' :: rest => '\n' :: rest
  | _ :: rest => afterLine rest

/-- Pass over blanks and comments if they are ignored. The fuel bounds their number. -/
def skipBlanks (flags : Flags) (text : List Char) : List Char :=
  if flags.ignoreBlanks then go text.length text else text
where
  go : Nat → List Char → List Char
    | 0, text => text
    | _, [] => []
    | fuel + 1, c :: rest =>
      if Blank.isUnicode c then go fuel rest
      else if c = '#' then go fuel (afterLine rest)
      else c :: rest

/-- A single member of a class or of the pattern, as an escape or a character writes it. -/
inductive Atom where
  /-- A character; written as a byte if it is two hexadecimal digits. -/
  | char (c : Char) (byte : Bool)
  | members (c : CharClass)
  | place (p : Place)
  deriving Repr

/-- Value of hexadecimal digits. -/
def hexValue? (digits : List Char) : Option Nat :=
  digits.foldlM (fun total c =>
    if c.isDigit then some (16 * total + (c.toNat - 48))
    else if 'a' ≤ c ∧ c ≤ 'f' then some (16 * total + (c.toNat - 87))
    else if 'A' ≤ c ∧ c ≤ 'F' then some (16 * total + (c.toNat - 55))
    else none) 0

/-- The character of a code point. -/
def charOf? (point : Nat) : Option Char :=
  if h : point.isValidChar then some (Char.ofNatAux point h) else none

/-- Take a number of characters, blanks between them passed over if they are ignored. -/
def takeChars (flags : Flags) : Nat → List Char → Option (List Char × List Char)
  | 0, text => some ([], text)
  | _ + 1, [] => none
  | count + 1, c :: rest =>
    (takeChars flags count (skipBlanks flags rest)).map fun (taken, rest) => (c :: taken, rest)

/-- Everything up to a closing brace, and what follows it. -/
def braced (flags : Flags) (text : List Char) : Option (List Char × List Char) :=
  go text.length (skipBlanks flags text)
where
  go : Nat → List Char → Option (List Char × List Char)
    | _, [] => none
    | 0, _ => none
    | fuel + 1, c :: rest =>
      if c = '\x7d' then some ([], rest)
      else (go fuel (skipBlanks flags rest)).map fun (inner, rest) => (c :: inner, rest)

/-- A character by its code point, in a fixed number of digits or in braces. -/
def hexEscape (flags : Flags) (width : Nat) (text : List Char) : Option (Atom × List Char) :=
  match skipBlanks flags text with
  | '\x7b' :: rest => do
    let (digits, rest) ← braced flags rest
    if digits = [] then none
    else
      let c ← (← hexValue? digits) |> charOf?
      some (.char c false, rest)
  | text => do
    let (digits, rest) ← takeChars flags width text
    let c ← (← hexValue? digits) |> charOf?
    some (.char c (width = 2), rest)

/-- A class by its name, which may say what it is a value of. -/
def property? (name : List Char) : Option CharClass :=
  let valued := fun (negated : Bool) (key value : List Char) =>
    let value := CharClass.normalizedName value
    let members := match CharClass.normalizedName key with
      | "gc" | "generalcategory" => CharClass.category? value
      | "sc" | "script" => CharClass.script? value
      | _ => none
    members.map (CharClass.negatedIf negated)
  match Split.once '=' name with
  | some (key, value) =>
    if key.getLast? = some '!' then valued true key.dropLast value
    else
      match Split.once ':' name with
      | some (key, value) => valued false key value
      | none => valued false key value
  | none =>
    match Split.once ':' name with
    | some (key, value) => valued false key value
    | none => CharClass.named? (CharClass.normalizedName name)

/-- A class by a letter or by a name in braces. -/
def propertyEscape (flags : Flags) (negated : Bool) (text : List Char) :
    Option (Atom × List Char) := do
  let (name, rest) ← match skipBlanks flags text with
    | '\x7b' :: rest => braced flags rest
    | '\\' :: _ => none
    | c :: rest => some ([c], rest)
    | [] => none
  let members ← property? name
  if flags.ascii then none
  else some (.members ((members.anyCaseIf flags.ignoreCase).negatedIf negated), rest)

/-- The classes of digits, blanks and word characters. -/
def shortClass (flags : Flags) (letter : Char) : Option CharClass :=
  let plain := match letter.toLower with
    | 'd' => if flags.ascii then CharClass.ascii? "digit" else some CharClass.digit
    | 's' => if flags.ascii then CharClass.ascii? "space" else some CharClass.space
    | 'w' => if flags.ascii then some CharClass.asciiWord else some CharClass.word
    | _ => none
  if letter.isUpper then if flags.ascii then none else plain.map .other else plain

/-- Characters that may be escaped to stand for themselves. -/
def isEscapable (c : Char) : Bool :=
  c.toNat < 128 && !c.isAlphanum && c ≠ '<' && c ≠ '>'

/-- A boundary between word and other characters; a name in braces may say which. -/
def boundary (flags : Flags) (text : List Char) : Option (Atom × List Char) :=
  let nameChar := fun (c : Char) => c.isAlpha || c = '-'
  match text with
  | '\x7b' :: rest =>
    match skipBlanks flags rest with
    | [] => none
    | c :: inner =>
      if nameChar c then do
        let (name, rest) ← braced flags (c :: inner)
        let place ← match String.ofList name with
          | "start" => some (Place.wordStart flags.ascii)
          | "end" => some (Place.wordEnd flags.ascii)
          | "start-half" => some (Place.noWordBefore flags.ascii)
          | "end-half" => some (Place.noWordAfter flags.ascii)
          | _ => none
        some (.place place, rest)
      else some (.place (.wordBoundary flags.ascii), text)
  | _ => some (.place (.wordBoundary flags.ascii), text)

/-- What follows a backslash. -/
def escape (flags : Flags) : List Char → Option (Atom × List Char)
  | [] => none
  | c :: rest =>
    match c with
    | 'x' => hexEscape flags 2 rest
    | 'u' => hexEscape flags 4 rest
    | 'U' => hexEscape flags 8 rest
    | 'p' => propertyEscape flags false rest
    | 'P' => propertyEscape flags true rest
    | 'd' | 's' | 'w' | 'D' | 'S' | 'W' =>
      (shortClass flags c).map fun members => (.members members, rest)
    | 'a' => some (.char '\x07' false, rest)
    | 'f' => some (.char '\x0c' false, rest)
    | 't' => some (.char '\t' false, rest)
    | 'n' => some (.char '\n' false, rest)
    | 'r' => some (.char '\r' false, rest)
    | 'v' => some (.char '\x0b' false, rest)
    | 'A' => some (.place .textStart, rest)
    | 'z' => some (.place .textEnd, rest)
    | 'b' => boundary flags rest
    | 'B' => some (.place (.noWordBoundary flags.ascii), rest)
    | '<' => some (.place (.wordStart flags.ascii), rest)
    | '>' => some (.place (.wordEnd flags.ascii), rest)
    | c => if isEscapable c then some (.char c false, rest) else none

/-- A part of a pattern, how deeply it is nested, and whether it can be repeated. -/
structure Piece where
  regex : Regex
  height : Nat
  repeatable : Bool
  deriving Repr

/-- A class in brackets under construction. -/
structure Members where
  members : CharClass
  height : Nat

/-- Operators on classes in brackets. -/
inductive ClassOp where
  | both | without | exclusive
  deriving Repr, DecidableEq

/-- The class operator at the front of a text. -/
def classOp? : List Char → Option (ClassOp × List Char)
  | '&' :: '&' :: rest => some (.both, rest)
  | '-' :: '-' :: rest => some (.without, rest)
  | '~' :: '~' :: rest => some (.exclusive, rest)
  | _ => none

/-- Apply a class operator. -/
def ClassOp.apply : ClassOp → CharClass → CharClass → CharClass
  | both => CharClass.both
  | without => CharClass.without
  | exclusive => CharClass.exclusive

/-- A named ASCII class in brackets and colons, at the opening bracket. -/
def asciiClass? (text : List Char) : Option (CharClass × List Char) := do
  let rest ← Split.afterStart? ['[', ':'] text
  let (negated, rest) := match rest with
    | '^' :: rest => (true, rest)
    | rest => (false, rest)
  let name := rest.takeWhile (· ≠ ':')
  let rest ← Split.afterStart? [':', ']'] (rest.drop name.length)
  let members ← CharClass.ascii? (String.ofList name)
  some (members.negatedIf negated, rest)

/-- A member of a class: an escape, or a character for itself. -/
def classAtom (flags : Flags) : List Char → Option (Atom × List Char)
  | [] => none
  | '\\' :: rest => escape flags rest
  | c :: rest => some (.char c false, rest)

/-- The class of a character that stands in brackets. Without Unicode it has to be a byte. -/
def charMember (flags : Flags) (c : Char) (byte : Bool) : Option Nat :=
  if flags.ascii && !byte && 128 ≤ c.toNat then none else some c.toNat

/-- A member or a range of members of a class. A dash before the closing bracket or another
dash makes no range. -/
def classRange (flags : Flags) (text : List Char) : Option (CharClass × List Char) := do
  let (first, rest) ← classAtom flags text
  let rest := skipBlanks flags rest
  let alone := do
    match first with
    | .char c byte => do
      let point ← charMember flags c byte
      some (CharClass.range point point, rest)
    | .members members => some (members, rest)
    | .place _ => none
  match rest with
  | [] => none
  | '-' :: afterDash =>
    match skipBlanks flags afterDash with
    | [] => none
    | ']' :: _ | '-' :: _ => alone
    | second => do
      let (last, rest) ← classAtom flags second
      match first, last with
      | .char low lowByte, .char high highByte => do
        let low ← charMember flags low lowByte
        let high ← charMember flags high highByte
        if low ≤ high then some (CharClass.range low high, rest) else none
      | _, _ => none
  | _ => alone

/-- Apply a pending operator to what stands before it. -/
def joined (flags : Flags) (pending : Option (CharClass × ClassOp)) (current : CharClass) :
    CharClass :=
  match pending with
  | none => current
  | some (left, op) =>
    op.apply (left.anyCaseIf flags.ignoreCase) (current.anyCaseIf flags.ignoreCase)

/-- Dashes at the front of a class in brackets, and a closing bracket there, stand for
themselves. -/
def leadingMembers (flags : Flags) (text : List Char) : Option (CharClass × List Char) :=
  go text.length false text
where
  go : Nat → Bool → List Char → Option (CharClass × List Char)
    | fuel + 1, _, '-' :: rest => do
      let (_, rest) ← go fuel true (skipBlanks flags rest)
      some (CharClass.single '-', rest)
    | _, dashed, ']' :: rest =>
      if dashed then some (.none, ']' :: rest)
      else if (skipBlanks flags rest).isEmpty then none
      else some (CharClass.single ']', skipBlanks flags rest)
    | _, _, [] => none
    | _, _, text => some (.none, text)

/-- The rest of a class in brackets, up to and with its closing bracket. `current` holds the
members since the last operator, `pending` what that operator applies to. -/
def classBody (flags : Flags) : Nat → Bool → Option (CharClass × ClassOp) → Members →
    List Char → Option (Members × List Char)
  | 0, _, _, _, _ => none
  | fuel + 1, negated, pending, current, text =>
    let text := skipBlanks flags text
    let goOn := fun (members : CharClass) (height : Nat) (rest : List Char) =>
      classBody flags fuel negated pending
        ⟨.either current.members members, max current.height height⟩ rest
    match text with
    | [] => none
    | ']' :: rest =>
      let members := (joined flags pending current.members).anyCaseIf flags.ignoreCase
      let members := members.negatedIf negated
      some (⟨members, current.height + 1⟩, rest)
    | '[' :: rest =>
      match asciiClass? text with
      | some (members, rest) => goOn (members.anyCaseIf flags.ignoreCase) 0 rest
      | none => do
        let rest := skipBlanks flags rest
        let (negated', rest) := match rest with
          | '^' :: rest => (true, skipBlanks flags rest)
          | rest => (false, rest)
        let (first, rest) ← leadingMembers flags rest
        let (inner, rest) ← classBody flags fuel negated' none ⟨first, 0⟩ rest
        goOn inner.members inner.height rest
    | text =>
      match classOp? text with
      | some (op, rest) =>
        classBody flags fuel negated (some (joined flags pending current.members, op))
          ⟨.none, current.height + 1⟩ rest
      | none => do
        let (members, rest) ← classRange flags text
        goOn members 0 rest

/-- A class in brackets, after its opening bracket. -/
def bracketClass (flags : Flags) (text : List Char) : Option (Piece × List Char) := do
  let rest := skipBlanks flags text
  let (negated, rest) := match rest with
    | '^' :: rest => (true, skipBlanks flags rest)
    | rest => (false, rest)
  let (first, rest) ← leadingMembers flags rest
  let (inner, rest) ← classBody flags (text.length + 1) negated none ⟨first, 0⟩ rest
  if flags.ascii && !(CharClass.both (.range 0 255) inner.members).isAscii then none
  else some (⟨.one inner.members, inner.height, true⟩, rest)

/-- Apply a flag letter. -/
def setFlag (flags : Flags) (on : Bool) : Char → Option Flags
  | 'i' => some { flags with ignoreCase := on }
  | 'm' => some { flags with multiline := on }
  | 's' => some { flags with dotAll := on }
  | 'U' => some flags
  | 'u' => some { flags with ascii := !on }
  | 'R' => some { flags with anyLineEnd := on }
  | 'x' => some { flags with ignoreBlanks := on }
  | _ => none

/-- Flag letters up to a colon or a closing parenthesis; letters after a dash are switched off.
Answers the flags, whether a letter or dash was there, and the text from the closing mark on. -/
def flagLetters (flags : Flags) (seen : List Char) (on : Bool) :
    List Char → Option (Flags × Bool × List Char)
  | [] => none
  | c :: rest =>
    if c = ':' ∨ c = ')' then
      if seen.head? = some '-' then none else some (flags, !seen.isEmpty, c :: rest)
    else if c ∈ seen then none
    else if c = '-' then flagLetters flags (c :: seen) false rest
    else do
      let flags ← setFlag flags on c
      flagLetters flags (c :: seen) on rest

/-- Whether a character may stand in the name of a group. -/
def isNameChar (first : Bool) (c : Char) : Bool :=
  let alphabetic := (CharClass.categories (CharClass.letters ++ [.nl])).has c.toNat
  let numeric := (CharClass.categories [.nd, .nl, .no]).has c.toNat
  c = '_' || alphabetic || (!first && (numeric || c = '.' || c = '[' || c = ']'))

/-- The name of a group up to a closing angle bracket. -/
def groupName (text : List Char) : Option (List Char × List Char) := do
  let (name, rest) ← Split.once '>' text
  match name with
  | [] => none
  | first :: others =>
    if isNameChar true first && others.all (isNameChar false) then some (name, rest) else none

/-- How a group starts: with flags for the rest of the group it stands in, or with a body. -/
inductive Opening where
  | flags (flags : Flags)
  | body (flags : Flags) (name : Option (List Char))

/-- Read the start of a group, after its parenthesis. -/
def opening (flags : Flags) (text : List Char) : Option (Opening × List Char) :=
  match skipBlanks flags text with
  | '?' :: rest =>
    match rest with
    | '=' :: _ | '!' :: _ | '<' :: '=' :: _ | '<' :: '!' :: _ => none
    | 'P' :: '<' :: rest | '<' :: rest =>
      (groupName rest).map fun (name, rest) => (.body flags (some name), rest)
    | rest => do
      let (flags, anyLetter, rest) ← flagLetters flags [] true rest
      match rest with
      | ')' :: rest => if anyLetter then some (.flags flags, rest) else none
      | _ :: rest => some (.body flags none, rest)
      | [] => none
  | text => some (.body flags none, text)

/-- A numeral with blanks around it. -/
def numeral (flags : Flags) (text : List Char) : Option (Nat × List Char) :=
  go text.length [] (text.dropWhile Blank.isUnicode)
where
  go : Nat → List Char → List Char → Option (Nat × List Char)
    | fuel + 1, digits, c :: rest =>
      if c.isDigit then go fuel (c :: digits) (skipBlanks flags rest) else finish digits (c :: rest)
    | _, digits, text => finish digits text
  finish (digits : List Char) (rest : List Char) : Option (Nat × List Char) := do
    let n ← Digits.natural? digits.reverse
    if n < Nat.pow 2 32 then some (n, rest.dropWhile Blank.isUnicode) else none

/-- How often a part is repeated, after an opening brace: an exact number, or a least number and
perhaps a most. -/
def counts (flags : Flags) (text : List Char) : Option (Nat × Option Nat × List Char) := do
  let (least, rest) ← numeral flags (skipBlanks flags text)
  match rest with
  | '\x7d' :: rest => some (least, some least, rest)
  | ',' :: rest =>
    match skipBlanks flags rest with
    | '\x7d' :: rest => some (least, none, rest)
    | rest => do
      let (most, rest) ← numeral flags rest
      match rest with
      | '\x7d' :: rest => if least ≤ most then some (least, some most, rest) else none
      | _ => none
  | _ => none

/-- A repetition mark at the front of a text. A question mark after it asks for short matches. -/
def repetition? (flags : Flags) (text : List Char) :
    Option (Option (Nat × Option Nat × List Char)) :=
  let shortest := fun (text : List Char) => match text with
    | '?' :: rest => rest
    | text => text
  match text with
  | '?' :: rest => some (some (0, some 1, shortest rest))
  | '*' :: rest => some (some (0, none, shortest rest))
  | '+' :: rest => some (some (1, none, shortest rest))
  | '\x7b' :: rest =>
    some ((counts flags rest).map fun (least, most, rest) =>
      (least, most, shortest (skipBlanks flags rest)))
  | _ => none

/-- The pattern of a character, in any case if case is ignored. -/
def literal (flags : Flags) (c : Char) (byte : Bool) : Option Regex :=
  if flags.ascii then
    if byte && 128 ≤ c.toNat then none
    else
      let members := if flags.ignoreCase ∧ c.isAlpha then
          CharClass.either (.single c.toLower) (.single c.toUpper)
        else CharClass.single c
      some (.one members)
  else some (.one ((CharClass.single c).anyCaseIf flags.ignoreCase))

/-- The pattern of a point. -/
def dot (flags : Flags) : Option Regex :=
  if flags.ascii then none
  else if flags.dotAll then some (.one .all)
  else if flags.anyLineEnd then some (.one (.other (CharClass.ofRanges [(10, 10), (13, 13)])))
  else some (.one (.other (CharClass.range 10 10)))

/-- The place that a caret or a dollar sign stands for. -/
def linePlace (flags : Flags) (atStart : Bool) : Place :=
  match flags.multiline, flags.anyLineEnd, atStart with
  | false, _, true => .textStart
  | false, _, false => .textEnd
  | true, false, true => .lineStart
  | true, false, false => .lineEnd
  | true, true, true => .anyLineStart
  | true, true, false => .anyLineEnd

/-- A part that is neither a group nor a class in brackets. -/
def primitive (flags : Flags) : List Char → Option (Piece × List Char)
  | [] => none
  | '\\' :: rest => do
    let (atom, rest) ← escape flags rest
    let regex ← match atom with
      | .char c byte => literal flags c byte
      | .members members => some (.one members)
      | .place p => some (.place p)
    some (⟨regex, 0, true⟩, rest)
  | '.' :: rest => (dot flags).map fun regex => (⟨regex, 0, true⟩, rest)
  | '^' :: rest => some (⟨.place (linePlace flags true), 0, true⟩, rest)
  | '$' :: rest => some (⟨.place (linePlace flags false), 0, true⟩, rest)
  | c :: rest => (literal flags c false).map fun regex => (⟨regex, 0, true⟩, rest)

/-- Parts in order, as one part. -/
def sequence (parts : List Piece) : Piece :=
  match parts with
  | [only] => only
  | parts =>
    let height := parts.foldl (fun height part => max height part.height) 0
    ⟨seqAll (parts.map Piece.regex), if parts.isEmpty then 0 else height + 1, true⟩

/-- Alternatives, as one part. -/
def alternatives (branches : List Piece) : Piece :=
  match branches with
  | [only] => only
  | branches =>
    let height := branches.foldl (fun height part => max height part.height) 0
    ⟨anyOf (branches.map Piece.regex), height + 1, true⟩

/-- What has been read of a group: flags in force, names of groups so far, finished
alternatives and the parts of the current one, last first. -/
structure State where
  flags : Flags
  names : List (List Char)
  branches : List Piece
  parts : List Piece

/-- Add a part. -/
def State.add (s : State) (part : Piece) : State := { s with parts := part :: s.parts }

/-- The body of a group, up to a closing parenthesis or the end. -/
def body : Nat → State → List Char → Option (Piece × List (List Char) × List Char)
  | 0, _, _ => none
  | fuel + 1, s, text =>
    let text := skipBlanks s.flags text
    let finished := (sequence s.parts.reverse :: s.branches).reverse
    match text with
    | [] => some (alternatives finished, s.names, [])
    | ')' :: rest => some (alternatives finished, s.names, ')' :: rest)
    | '|' :: rest =>
      body fuel { s with branches := sequence s.parts.reverse :: s.branches, parts := [] } rest
    | '(' :: rest => do
      let (opening, rest) ← opening s.flags rest
      match opening with
      | .flags flags => body fuel ({ s with flags := flags }.add ⟨.empty, 0, false⟩) rest
      | .body flags name =>
        let names ← match name with
          | some name => if name ∈ s.names then none else some (name :: s.names)
          | none => some s.names
        let (inner, names, rest) ← body fuel ⟨flags, names, [], []⟩ rest
        match rest with
        | ')' :: rest =>
          body fuel ({ s with names := names }.add ⟨inner.regex, inner.height + 1, true⟩) rest
        | _ => none
    | '[' :: rest => do
      let (part, rest) ← bracketClass s.flags rest
      body fuel (s.add part) rest
    | text =>
      match repetition? s.flags text with
      | some repetition => do
        let (least, most, rest) ← repetition
        match s.parts with
        | last :: others =>
          if last.repeatable then
            body fuel
              { s with parts := ⟨.repeated last.regex least most, last.height + 1, true⟩ :: others }
              rest
          else none
        | [] => none
      | none => do
        let (part, rest) ← primitive s.flags text
        body fuel (s.add part) rest

/-- Deepest nesting of a pattern. -/
def maxHeight : Nat := 250

/-- Largest size of a pattern. -/
def maxSize : Nat := 327680

end Parser

/-- Read a pattern. -/
def parse? (pattern : String) : Option Regex := do
  let chars := pattern.toList
  let (piece, _, rest) ← Parser.body (chars.length + 1) ⟨.standard, [], [], []⟩ chars
  if rest = [] ∧ piece.height ≤ Parser.maxHeight ∧ piece.regex.size ≤ Parser.maxSize then
    some piece.regex
  else none

end Targeting.Regex
