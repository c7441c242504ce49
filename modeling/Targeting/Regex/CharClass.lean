/-
# Classes of characters

The sets of characters that a pattern can name. A class is an expression over ranges and
general categories; whether a character belongs to it is decided by evaluating the expression
on its code point, so classes need no normal form and their operations are the Boolean ones.
-/

import Targeting.Text.CaseFold
import Targeting.Text.Category
import Targeting.Text.Script

namespace Targeting.Regex

open Text (Category)

/-- A set of code points. -/
inductive CharClass where
  | none
  | range (low high : Nat)
  | categories (members : List Category)
  | either (a b : CharClass)
  | both (a b : CharClass)
  | other (a : CharClass)
  /-- All code points that differ from a member in case alone. -/
  | anyCase (a : CharClass)
  deriving Repr

namespace CharClass

/-- Whether a code point belongs to a class. -/
def has : CharClass → Nat → Bool
  | none, _ => false
  | range low high, point => low ≤ point && point ≤ high
  | categories members, point => members.contains (Category.ofPoint point)
  | either a b, point => a.has point || b.has point
  | both a b, point => a.has point && b.has point
  | other a, point => !a.has point
  | anyCase a, point => (Text.CaseFold.variants point).any a.has

/-- The class of one character. -/
def single (c : Char) : CharClass := range c.toNat c.toNat

/-- All code points. -/
def all : CharClass := range 0 0x10FFFF

/-- The members of some ranges. -/
def ofRanges : List (Nat × Nat) → CharClass
  | [] => none
  | (low, high) :: rest => either (range low high) (ofRanges rest)

/-- Members of the first class that are not in the second. -/
def without (a b : CharClass) : CharClass := both a (other b)

/-- Members of exactly one of two classes. -/
def exclusive (a b : CharClass) : CharClass := either (a.without b) (b.without a)

/-- The class, or all code points outside it. -/
def negatedIf (negated : Bool) (a : CharClass) : CharClass := if negated then other a else a

/-- The class, extended to any case if asked for. -/
def anyCaseIf (ignoreCase : Bool) (a : CharClass) : CharClass :=
  if ignoreCase then anyCase a else a

/-- Whether no byte beyond ASCII is a member. -/
def isAscii (a : CharClass) : Bool :=
  (List.range 128).all fun n => !a.has (128 + n)

/-- Letters by category. -/
def letters : List Category := [.lu, .ll, .lt, .lm, .lo]

/-- Marks by category. -/
def marks : List Category := [.mn, .mc, .me]

/-- Letters in circles and squares, which are symbols by category. -/
def enclosedLetters : List (Nat × Nat) :=
  [(0x24B6, 0x24E9), (0x1F130, 0x1F149), (0x1F150, 0x1F169), (0x1F170, 0x1F189)]

/-- Word characters: letters, marks, digits, letter numbers, connectors and joiners. -/
def word : CharClass :=
  either (categories (letters ++ marks ++ [.nl, .nd, .pc]))
    (ofRanges ((0x200C, 0x200D) :: enclosedLetters))

/-- Decimal digits of all scripts. -/
def digit : CharClass := categories [.nd]

/-- The Unicode property White_Space. -/
def space : CharClass :=
  ofRanges [(9, 13), (32, 32), (0x85, 0x85), (0xA0, 0xA0), (0x1680, 0x1680), (0x2000, 0x200A),
    (0x2028, 0x2029), (0x202F, 0x202F), (0x205F, 0x205F), (0x3000, 0x3000)]

/-- ASCII ranges by name. -/
def asciiRanges : List (String × List (Nat × Nat)) :=
  [("alnum", [(48, 57), (65, 90), (97, 122)]),
    ("alpha", [(65, 90), (97, 122)]),
    ("ascii", [(0, 127)]),
    ("blank", [(9, 9), (32, 32)]),
    ("cntrl", [(0, 31), (127, 127)]),
    ("digit", [(48, 57)]),
    ("graph", [(33, 126)]),
    ("lower", [(97, 122)]),
    ("print", [(32, 126)]),
    ("punct", [(33, 47), (58, 64), (91, 96), (123, 126)]),
    ("space", [(9, 13), (32, 32)]),
    ("upper", [(65, 90)]),
    ("word", [(48, 57), (65, 90), (95, 95), (97, 122)]),
    ("xdigit", [(48, 57), (65, 70), (97, 102)])]

/-- An ASCII class by name. -/
def ascii? (name : String) : Option CharClass :=
  (asciiRanges.lookup name).map ofRanges

/-- ASCII word characters. -/
def asciiWord : CharClass := ofRanges [(48, 57), (65, 90), (95, 95), (97, 122)]

/-- Categories by their normalized names. -/
def categoryNames : List (List String × List Category) :=
  [(["l", "letter"], letters),
    (["lc", "casedletter"], [.lu, .ll, .lt]),
    (["lu", "uppercaseletter"], [.lu]),
    (["ll", "lowercaseletter"], [.ll]),
    (["lt", "titlecaseletter"], [.lt]),
    (["lm", "modifierletter"], [.lm]),
    (["lo", "otherletter"], [.lo]),
    (["m", "mark", "combiningmark"], marks),
    (["mn", "nonspacingmark"], [.mn]),
    (["mc", "spacingmark"], [.mc]),
    (["me", "enclosingmark"], [.me]),
    (["n", "number"], [.nd, .nl, .no]),
    (["nd", "decimalnumber", "digit"], [.nd]),
    (["nl", "letternumber"], [.nl]),
    (["no", "othernumber"], [.no]),
    (["p", "punctuation", "punct"], [.pc, .pd, .ps, .pe, .pi, .pf, .po]),
    (["pc", "connectorpunctuation"], [.pc]),
    (["pd", "dashpunctuation"], [.pd]),
    (["ps", "openpunctuation"], [.ps]),
    (["pe", "closepunctuation"], [.pe]),
    (["pi", "initialpunctuation"], [.pi]),
    (["pf", "finalpunctuation"], [.pf]),
    (["po", "otherpunctuation"], [.po]),
    (["s", "symbol"], [.sm, .sc, .sk, .so]),
    (["sm", "mathsymbol"], [.sm]),
    (["sc", "currencysymbol"], [.sc]),
    (["sk", "modifiersymbol"], [.sk]),
    (["so", "othersymbol"], [.so]),
    (["z", "separator"], [.zs, .zl, .zp]),
    (["zs", "spaceseparator"], [.zs]),
    (["zl", "lineseparator"], [.zl]),
    (["zp", "paragraphseparator"], [.zp]),
    (["c", "other"], [.cc, .cf, .cs, .co, .cn]),
    (["cc", "control", "cntrl"], [.cc]),
    (["cf", "format"], [.cf]),
    (["cs", "surrogate"], [.cs]),
    (["co", "privateuse"], [.co]),
    (["cn", "unassigned"], [.cn])]

/-- A name as it is looked up: lowercase ASCII without blanks, underscores and dashes, and
without `is` in front. -/
def normalizedName (name : List Char) : String :=
  let start := match name with
    | a :: b :: rest =>
      if a.toLower = 'i' ∧ b.toLower = 's' then rest else name
    | short => short
  let kept := start.filter fun c => c.toNat < 128 && c ≠ ' ' && c ≠ '_' && c ≠ '-'
  String.ofList (kept.map Char.toLower)

/-- Characters of other categories that count as lowercase. -/
def smallOthers : List (Nat × Nat) :=
  [(0xAA, 0xAA), (0xBA, 0xBA), (0x2B0, 0x2B8), (0x2C0, 0x2C1), (0x2E0, 0x2E4), (0x345, 0x345),
    (0x37A, 0x37A), (0x10FC, 0x10FC), (0x1D2C, 0x1D6A), (0x1D78, 0x1D78), (0x1D9B, 0x1DBF),
    (0x2071, 0x2071), (0x207F, 0x207F), (0x2090, 0x209C), (0x2170, 0x217F), (0x24D0, 0x24E9),
    (0x2C7C, 0x2C7D), (0xA69C, 0xA69D), (0xA770, 0xA770), (0xA7F2, 0xA7F4), (0xA7F8, 0xA7F9),
    (0xAB5C, 0xAB5F), (0xAB69, 0xAB69), (0x10780, 0x10780), (0x10783, 0x10785),
    (0x10787, 0x107B0), (0x107B2, 0x107BA), (0x1E030, 0x1E06D)]

/-- Characters of other categories that count as uppercase. -/
def capitalOthers : List (Nat × Nat) :=
  [(0x2160, 0x216F), (0x24B6, 0x24CF), (0x1F130, 0x1F149), (0x1F150, 0x1F169),
    (0x1F170, 0x1F189)]

/-- A class of general categories, by a normalized name. -/
def category? (name : String) : Option CharClass :=
  match name with
  | "any" => some all
  | "ascii" => some (range 0 127)
  | "assigned" => some (other (categories [.cn]))
  | name => (categoryNames.find? fun (names, _) => names.contains name).map
      fun (_, members) => categories members

/-- The class of a script, by a normalized name. -/
def script? (name : String) : Option CharClass :=
  (Text.Script.code? name).map fun code => ofRanges (Text.Script.ranges code)

/-- A class by the normalized name of a Unicode property, a general category or a script. -/
def named? (name : String) : Option CharClass :=
  match name with
  | "alphabetic" | "alpha" =>
    some (either (categories (letters ++ [.nl])) (ofRanges enclosedLetters))
  | "lowercase" | "lower" => some (either (categories [.ll]) (ofRanges smallOthers))
  | "uppercase" | "upper" => some (either (categories [.lu]) (ofRanges capitalOthers))
  | "whitespace" | "wspace" | "space" => some space
  | name => category? name <|> script? name

end CharClass

end Targeting.Regex
