/-
# Number text

The written form of a floating-point number is its shortest decimal in one of two layouts:
positional, with the point among or beside the digits, or scientific, with an exponent.
A `Layout` records the decisions of a format; the digits do not depend on it.
-/

import Targeting.Number.Shortest

namespace Targeting.NumberText

/-- The decisions a number format makes. -/
structure Layout where
  /-- Exponents of the leading digit that are written positionally; `none` stands for all. -/
  positional : Option (Int × Int)
  /-- Whether a whole number in positional layout ends in `.0`. -/
  markWhole : Bool
  /-- Text of the numbers that have no decimal: NaN and the two infinities. -/
  nan : String
  infinity : String
  negativeInfinity : String

/-- Plain text of a number: always positional, whole numbers without a point. -/
def plain : Layout := ⟨none, false, "NaN", "inf", "-inf"⟩

/-- Number text inside JSON: positional for leading exponents from -5 to 15, whole numbers end
in `.0`, and numbers that are not finite have no text and become `null`. -/
def json : Layout := ⟨some (-5, 15), true, "null", "null", "null"⟩

/-- Digits with a point after the digit of exponent zero. -/
def positional (markWhole : Bool) (digits : List Char) (lead : Int) : List Char :=
  match lead with
  | .ofNat e =>
    if digits.length ≤ e + 1 then
      digits ++ List.replicate (e + 1 - digits.length) '0' ++ (if markWhole then ['.', '0'] else [])
    else digits.take (e + 1) ++ '.' :: digits.drop (e + 1)
  | .negSucc e => '0' :: '.' :: List.replicate e '0' ++ digits

/-- Digits with a point after the first one, and a signed exponent. -/
def scientific (digits : List Char) (lead : Int) : List Char :=
  let mantissa := match digits with
    | first :: rest@(_ :: _) => first :: '.' :: rest
    | short => short
  let sign := if lead < 0 then '-' else '+'
  mantissa ++ 'e' :: sign :: Digits.ofNat lead.natAbs

/-- The text of a floating-point number in a layout. Negative zero keeps its sign. -/
def render (layout : Layout) (x : Float) : String :=
  match Binary64.meaning x with
  | .nan => layout.nan
  | .infinite false => layout.infinity
  | .infinite true => layout.negativeInfinity
  | .finite p =>
    let shortest := Shortest.decimal p
    let digits := Digits.ofNat shortest.digits
    let lead := shortest.exponent + digits.length - 1
    let inside := match layout.positional with
      | none => true
      | some (low, high) => low ≤ lead && lead ≤ high
    let body := if inside then positional layout.markWhole digits lead else scientific digits lead
    String.ofList (if p.negative then '-' :: body else body)

end Targeting.NumberText
