/-
# Cutting texts

Small functions that cut a text at a character or at line ends. Each returns the pieces in
order, and the pieces together with the separators give the text back.
-/

namespace Targeting.Split

/-- The parts before and after the first separator, if there is one. -/
def once (separator : Char) : List Char → Option (List Char × List Char)
  | [] => none
  | c :: rest =>
    if c = separator then some ([], rest)
    else (once separator rest).map fun (before, after) => (c :: before, after)

/-- The parts before and after the last separator, if there is one. -/
def onceLast (separator : Char) : List Char → Option (List Char × List Char)
  | [] => none
  | c :: rest =>
    match onceLast separator rest with
    | some (before, after) => some (c :: before, after)
    | none => if c = separator then some ([], rest) else none

/-- All parts between separators; a text without separator is one part. -/
def on (separator : Char) : List Char → List (List Char)
  | [] => [[]]
  | c :: rest =>
    if c = separator then [] :: on separator rest
    else match on separator rest with
      | first :: others => (c :: first) :: others
      | [] => [[c]]

/-- What follows a beginning, if the text has that beginning. -/
def afterStart? : List Char → List Char → Option (List Char)
  | [], text => some text
  | _ :: _, [] => none
  | s :: start, c :: text => if s = c then afterStart? start text else none

/-- Whether a text occurs in another. -/
def contains (needle : List Char) : List Char → Bool
  | [] => needle.isEmpty
  | c :: rest => (afterStart? needle (c :: rest)).isSome || contains needle rest

/-- Whether a text ends in another. -/
def endsWith (ending text : List Char) : Bool :=
  (afterStart? ending.reverse text.reverse).isSome

/-- The lines of a text. A carriage return before a line feed belongs to the line end, and the
last line needs no end. -/
def lines (text : List Char) : List (List Char) :=
  let parts := on '\n' text
  let ended := parts.dropLast.map fun line =>
    if line.getLast? = some '\r' then line.dropLast else line
  match parts.getLast? with
  | some (c :: rest) => ended ++ [c :: rest]
  | _ => ended

end Targeting.Split
