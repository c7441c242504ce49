/-
# Tokens of conditions

The lexer cuts a source into tokens. Each token knows the byte offset of its first character,
and every stream of tokens ends with a mark at the length of the source. Of the operators the
longest that fits is taken.

A token is found by its first characters and has a number of further characters; the scan then
passes over those. This makes it evident that the scan ends, that it looks at every character,
and that offsets grow by the bytes of the characters passed over.
-/

import Targeting.Condition.Syntax
import Targeting.Number.Decimal
import Targeting.Text.Blank

namespace Targeting.Condition

/-- What is wrong with the text of a condition. -/
inductive SyntaxProblem where
  | unexpectedCharacter (c : Char)
  | unterminatedText
  | invalidNumber (text : String)
  | nestedTooDeeply
  | trailingToken
  | expected (what : String)
  | unexpectedKeyword (word : String)
  | unexpectedEnd
  | unexpectedToken
  deriving Repr, DecidableEq

/-- Description of a problem. -/
def SyntaxProblem.message : SyntaxProblem → String
  | unexpectedCharacter c => "unexpected character '" ++ String.singleton c ++ "'"
  | unterminatedText => "unterminated string literal"
  | invalidNumber text => "invalid number literal '" ++ text ++ "'"
  | nestedTooDeeply => "expression nested too deeply"
  | trailingToken => "unexpected token after end of expression"
  | expected what => "expected " ++ what
  | unexpectedKeyword word => "unexpected keyword '" ++ word ++ "'"
  | unexpectedEnd => "unexpected end of expression"
  | unexpectedToken => "unexpected token"

/-- A problem and the byte offset at which it was found. -/
structure SyntaxError where
  offset : Nat
  problem : SyntaxProblem
  deriving Repr, DecidableEq

/-- An operator as it is written. The minus sign is also a unary operator. -/
inductive Operator where
  | bang
  | binary (op : BinaryOp)
  deriving Repr, DecidableEq

/-- Kinds of tokens. -/
inductive TokenKind where
  | int (i : Int64)
  | float (x : Float)
  | text (s : String)
  | word (name : String)
  | operator (op : Operator)
  | leftParen | rightParen | leftBracket | rightBracket
  | comma | question | colon
  | stop
  deriving Repr, DecidableEq

/-- A token and the byte offset of its first character. -/
structure Token where
  kind : TokenKind
  offset : Nat
  deriving Repr, DecidableEq

namespace Lexer

/-- A token found at the front of a text: its kind, and how many characters follow its first. -/
abbrev Lexeme := Except SyntaxProblem (TokenKind × Nat)

/-- Operators with the characters that write them, longer ones first. -/
def operators : List (List Char × Operator) :=
  [(['=', '='], .binary .eq), (['!', '='], .binary .ne), (['<', '='], .binary .le),
    (['>', '='], .binary .ge), (['&', '&'], .binary .and), (['|', '|'], .binary .or),
    (['?', '?'], .binary .coalesce), (['<'], .binary .lt), (['>'], .binary .gt), (['!'], .bang),
    (['+'], .binary .add), (['-'], .binary .sub), (['*'], .binary .mul), (['/'], .binary .div),
    (['%'], .binary .rem)]

/-- Whether a character may start a name. -/
def startsWord (c : Char) : Bool := c.isAlpha || c = '_'

/-- Whether a character may go on a name. -/
def continuesWord (c : Char) : Bool := c.isAlphanum || c = '_'

/-- Whether a character may go on a run of digits. -/
def continuesDigits (c : Char) : Bool := c.isDigit || c = '_'

/-- What a backslash and a character stand for. -/
def unescape : Char → Char
  | 'n' => '\n'
  | 't' => '\t'
  | 'r' => '\r'
  | '0' => '\x00'
  | c => c

/-- The characters of a text literal up to its closing quote, and how many characters of source
they and the quote take. -/
def textBody (quote : Char) : List Char → Option (List Char × Nat)
  | [] => none
  | [c] => if c = quote then some ([], 1) else none
  | c :: escaped :: rest =>
    if c = quote then some ([], 1)
    else if c = '\\' then
      (textBody quote rest).map fun (value, width) => (unescape escaped :: value, width + 2)
    else (textBody quote (escaped :: rest)).map fun (value, width) => (c :: value, width + 1)

/-- The fraction after a run of digits: a point that is followed by a digit, and more digits. -/
def fractionPart : List Char → List Char
  | '.' :: digit :: rest =>
    if digit.isDigit then '.' :: digit :: rest.takeWhile continuesDigits else []
  | _ => []

/-- The exponent after a number: a letter, an optional sign, and digits. -/
def exponentPart : List Char → List Char
  | mark :: sign :: digit :: rest =>
    if mark = 'e' ∨ mark = 'E' then
      if sign.isDigit then mark :: sign :: (digit :: rest).takeWhile continuesDigits
      else if (sign = '+' ∨ sign = '-') ∧ digit.isDigit then
        mark :: sign :: digit :: rest.takeWhile continuesDigits
      else []
    else []
  | [mark, digit] => if (mark = 'e' ∨ mark = 'E') ∧ digit.isDigit then [mark, digit] else []
  | _ => []

/-- The digits of a run without the underscores that group them. -/
def ungrouped (run : List Char) : List Char := run.filter (· ≠ '_')

/-- A number literal at the front of a text that starts with a digit. Without fraction and
exponent it is an integer and has to be a word. -/
def number (text : List Char) : Lexeme :=
  let integer := text.takeWhile continuesDigits
  let afterInteger := text.drop integer.length
  let fraction := fractionPart afterInteger
  let exponent := exponentPart (afterInteger.drop fraction.length)
  let width := integer.length + fraction.length + exponent.length - 1
  if fraction.isEmpty && exponent.isEmpty then
    match Word.parse? (ungrouped integer) with
    | some i => .ok (.int i, width)
    | none => .error (.invalidNumber (String.ofList integer))
  else
    let power := (Digits.signed? (ungrouped (exponent.drop 1))).getD 0
    .ok (.float (Decimal.ofParts (ungrouped integer) (ungrouped (fraction.drop 1)) power), width)

/-- The token at the front of a text, given as its first character and the rest. -/
def lexeme (c : Char) (rest : List Char) : Lexeme :=
  match c with
  | '(' => .ok (.leftParen, 0)
  | ')' => .ok (.rightParen, 0)
  | '[' => .ok (.leftBracket, 0)
  | ']' => .ok (.rightBracket, 0)
  | ',' => .ok (.comma, 0)
  | ':' => .ok (.colon, 0)
  | c =>
    if c = '"' ∨ c = '\'' then
      match textBody c rest with
      | some (value, width) => .ok (.text (String.ofList value), width)
      | none => .error .unterminatedText
    else if c.isDigit then number (c :: rest)
    else if startsWord c then
      let tail := rest.takeWhile continuesWord
      .ok (.word (String.ofList (c :: tail)), tail.length)
    else if c = '?' ∧ rest.head? ≠ some '?' then .ok (.question, 0)
    else
      match operators.find? fun (symbol, _) => symbol.isPrefixOf (c :: rest) with
      | some (symbol, op) => .ok (.operator op, symbol.length - 1)
      | none => .error (.unexpectedCharacter c)

/-- Scan a text: `skip` characters still belong to the token before, `offset` is the byte offset
of the text in the source. -/
def scan : (skip offset : Nat) → List Char → Except SyntaxError (List Token)
  | _, offset, [] => .ok [⟨.stop, offset⟩]
  | skip + 1, offset, c :: rest => scan skip (offset + c.utf8Size) rest
  | 0, offset, c :: rest =>
    if Blank.isAscii c then scan 0 (offset + c.utf8Size) rest
    else
      match lexeme c rest with
      | .error problem => .error ⟨offset, problem⟩
      | .ok (kind, width) =>
        match scan width (offset + c.utf8Size) rest with
        | .error error => .error error
        | .ok tokens => .ok (⟨kind, offset⟩ :: tokens)

end Lexer

/-- The tokens of a source, ending with the mark of its end. -/
def tokenize (source : String) : Except SyntaxError (List Token) :=
  Lexer.scan 0 0 source.toList

end Targeting.Condition
