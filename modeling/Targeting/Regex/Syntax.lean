/-
# Patterns

The trees of patterns. Only whether a pattern occurs in a text is ever asked, so groups and
the preference of short or long repetitions leave no trace here. A pattern has a size, so that
very large ones can be refused.
-/

import Targeting.Regex.CharClass

namespace Targeting.Regex

/-- How large a class is, in about as many steps as it takes to recognize a member by its bytes.
The categories are scattered over all code points. -/
def CharClass.size : CharClass → Nat
  | none => 1
  | range _ high => (Char.ofNat high).utf8Size
  | categories _ => 1500
  | either a b | both a b => a.size + b.size
  | other a => a.size + 8
  | anyCase a => 2 * a.size

/-- Conditions on a place between two characters. -/
inductive Place where
  | textStart | textEnd
  | lineStart | lineEnd
  /-- Line ends may also be a carriage return, alone or before a line feed. -/
  | anyLineStart | anyLineEnd
  | wordBoundary (ascii : Bool)
  | noWordBoundary (ascii : Bool)
  | wordStart (ascii : Bool)
  | wordEnd (ascii : Bool)
  | noWordBefore (ascii : Bool)
  | noWordAfter (ascii : Bool)
  deriving Repr, DecidableEq

end Targeting.Regex

namespace Targeting

/-- Patterns. -/
inductive Regex where
  | empty
  | one (members : Regex.CharClass)
  | place (p : Regex.Place)
  | seq (first second : Regex)
  | either (first second : Regex)
  | repeated (body : Regex) (least : Nat) (most : Option Nat)
  deriving Repr, Inhabited

namespace Regex

/-- One pattern after the other. -/
def seqAll : List Regex → Regex
  | [] => empty
  | [only] => only
  | first :: rest => seq first (seqAll rest)

/-- Any of the patterns. -/
def anyOf : List Regex → Regex
  | [] => empty
  | [only] => only
  | first :: rest => either first (anyOf rest)

/-- How large a pattern is when its repetitions are written out. -/
def size : Regex → Nat
  | empty | place _ => 1
  | one members => members.size
  | seq first second => first.size + second.size
  | either first second => first.size + second.size + 1
  | repeated body least most =>
    let most := most.getD least
    body.size * max 1 most + (most - least) + 1

end Regex

end Targeting
