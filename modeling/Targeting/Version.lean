/-
# Version numbers

Version numbers as apps and operating systems write them: an optional `v`, numbers separated
by dots, and an optional suffix from the first dash on. The numbers are compared one by one;
of two versions that agree as far as both go, the longer one is greater; and a version is
greater than the same numbers with a suffix. Texts of suffixes are not compared.
-/

import Targeting.Number.Word
import Targeting.Text.Split

namespace Targeting

/-- A version number: its components, most significant first, and a suffix that is empty or
starts with a dash. -/
structure Version where
  components : List Int64
  suffix : String
  deriving Repr, DecidableEq

namespace Version

/-- The words that all texts stand for, if every one is a signed numeral of a word. -/
def parseComponents? : List (List Char) → Option (List Int64)
  | [] => some []
  | first :: rest => do
    let component ← Word.parse? first
    let components ← parseComponents? rest
    pure (component :: components)

/-- Read a version number. The suffix starts at the first dash, so a component never carries a
minus sign; it may carry a plus sign and leading zeros. -/
def parse? (text : String) : Option Version :=
  let chars := match text.toList with
    | 'v' :: rest => rest
    | chars => chars
  let numbers := chars.takeWhile (· ≠ '-')
  let suffix := chars.dropWhile (· ≠ '-')
  (parseComponents? (Split.on '.' numbers)).map fun components =>
    ⟨components, String.ofList suffix⟩

/-- Components joined by dots. -/
def renderComponents : List Int64 → List Char
  | [] => []
  | [only] => Digits.ofInt only.toInt
  | first :: rest => Digits.ofInt first.toInt ++ '.' :: renderComponents rest

/-- The text of a version number, without a leading `v`. -/
def render (v : Version) : String :=
  String.ofList (renderComponents v.components ++ v.suffix.toList)

/-- Compare components one by one; when one list ends first, the longer is greater. -/
def compareComponents : List Int64 → List Int64 → Ordering
  | [], [] => .eq
  | [], _ :: _ => .lt
  | _ :: _, [] => .gt
  | a :: as, b :: bs => if a < b then .lt else if b < a then .gt else compareComponents as bs

/-- The order of versions: components first, and with equal components a suffix makes a version
less. -/
def compare (a b : Version) : Ordering :=
  match compareComponents a.components b.components with
  | .eq =>
    match a.suffix.isEmpty, b.suffix.isEmpty with
    | true, false => .gt
    | false, true => .lt
    | _, _ => .eq
  | order => order

/-- The component at an index, if the text is a version and the index lies within it. -/
def componentOf? (text : String) (index : Int64) : Option Int64 := do
  let version ← parse? text
  if 0 ≤ index then version.components[index.toInt.toNat]? else none

/-- Whether two texts are versions that compare as expected. Texts that are not versions never
do. -/
def comparesAs (expected : Ordering) (a b : String) : Bool :=
  match parse? a, parse? b with
  | some a, some b => a.compare b = expected
  | _, _ => false

/-- What is said about a text that is no version number. -/
def invalidMessage (text : String) : String :=
  "invalid version number format: \"" ++ text ++ "\""

end Version

end Targeting
