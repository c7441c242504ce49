/-
# URLs

A URL is read as far as the cache needs it: whether it is one at all, and where its query is.
Blanks around it and line ends within it do not count. The schemes of the web need a host, a
file needs none, and what other schemes say is hardly judged.
-/

import Targeting.Download.Host
import Targeting.Number.Digits

namespace Targeting

/-- A URL, cut at its query and its fragment. -/
structure Url where
  /-- Everything before the query. -/
  place : List Char
  query : Option (List Char)
  fragment : Option (List Char)
  deriving Repr, DecidableEq

namespace Url

open Download

/-- Drop control characters and spaces around a text, and tabs and line ends within. -/
def cleaned (text : List Char) : List Char :=
  let isBlank := fun (c : Char) => c.toNat ≤ 32
  let inner := ((text.dropWhile isBlank).reverse.dropWhile isBlank).reverse
  inner.filter fun c => c ≠ '\t' && c ≠ '\n' && c ≠ '\r'

/-- Whether a text is the name of a scheme. -/
def isScheme : List Char → Bool
  | [] => false
  | c :: rest => c.isAlpha && rest.all fun c => c.isAlphanum || c = '+' || c = '-' || c = '.'

/-- The schemes that need a host. -/
def webSchemes : List String := ["http", "https", "ws", "wss", "ftp"]

/-- Whether a character is a slash; the known schemes take a backslash for one. -/
def isSlash (known : Bool) (c : Char) : Bool := c = '/' || (known && c = '\\')

/-- Whether a character ends what names a host. -/
def endsAuthority (known : Bool) (c : Char) : Bool := isSlash known c || c = '?' || c = '#'

/-- The host of a text in which no user is named, and the number of the service behind it. A colon
within brackets belongs to the host. -/
def cutService : Bool → List Char → List Char × Option (List Char)
  | _, [] => ([], none)
  | inBrackets, c :: rest =>
    if c = ':' ∧ !inBrackets then ([], some rest)
    else
      let inside := c = '[' || (inBrackets && c ≠ ']')
      let (host, service) := cutService inside rest
      (c :: host, service)

/-- Whether a text is the number of a service; it may be empty. -/
def isService (text : List Char) : Bool :=
  text.all Char.isDigit && Digits.accumulate 0 text < 65536

/-- Whether a text names a host, with or without a user in front and a service behind. -/
def isAuthority (known : Bool) (text : List Char) : Bool :=
  let (hasUser, server) :=
    match Split.onceLast '@' text with
    | some (_, server) => (true, server)
    | none => (false, text)
  let (host, service) := cutService false server
  if host.isEmpty then !known && !hasUser && service.isNone
  else
    (if known then Host.isKnownSchemeHost host else Host.isOtherHost host) && service.all isService

/-- Whether a text is the letter of a drive. -/
def isDrive : List Char → Bool
  | [c, mark] => c.isAlpha && (mark = ':' || mark = '|')
  | _ => false

/-- Whether what follows a scheme and its colon is acceptable. -/
def isAcceptable (scheme : String) (rest : List Char) : Bool :=
  let authority := fun (known : Bool) (text : List Char) =>
    text.takeWhile fun c => !endsAuthority known c
  if webSchemes.contains scheme then
    isAuthority true (authority true (rest.dropWhile (isSlash true)))
  else
    match rest with
    | a :: b :: rest =>
      if scheme = "file" then
        if isSlash true a && isSlash true b then
          let host := authority true rest
          host.isEmpty || isDrive host || Host.isKnownSchemeHost host
        else true
      else if a = '/' ∧ b = '/' then isAuthority false (authority false rest)
      else true
    | _ => true

/-- Read a URL. -/
def parse? (text : String) : Option Url := do
  let text := cleaned text.toList
  let (scheme, rest) ← Split.once ':' text
  let scheme ← if isScheme scheme then some (String.ofList (scheme.map Char.toLower)) else none
  let _ ← if isAcceptable scheme rest then some () else none
  let (address, fragment) := (Split.once '#' text).elim (text, none) fun (a, f) => (a, some f)
  let (place, query) := (Split.once '?' address).elim (address, none) fun (p, q) => (p, some q)
  some ⟨place, query, fragment⟩

/-! ### Queries -/

/-- A name and a value of a query, decoded. -/
abbrev Parameter := List UInt8 × List UInt8

/-- Decode a name or a value; a plus sign is a space. -/
def decoded (text : List Char) : List UInt8 :=
  Host.percentDecoded (text.map fun c => if c = '+' then ' ' else c)

/-- The parameters of a query. -/
def parametersOf (query : List Char) : List Parameter :=
  ((Split.on '&' query).filter fun part => !part.isEmpty).map fun part =>
    match Split.once '=' part with
    | some (name, value) => (decoded name, decoded value)
    | none => (decoded part, [])

/-- A hexadecimal digit, in capitals. -/
def hexDigit (n : Nat) : Char :=
  if n < 10 then Char.ofNat ('0'.toNat + n) else Char.ofNat ('A'.toNat + n - 10)

/-- Write a byte of a name or a value. -/
def encodedByte (b : UInt8) : List Char :=
  let c := Char.ofNat b.toNat
  if b < 128 ∧ (c.isAlphanum ∨ c = '*' ∨ c = '-' ∨ c = '.' ∨ c = '_') then [c]
  else if b = 32 then ['+']
  else ['%', hexDigit (b.toNat / 16), hexDigit (b.toNat % 16)]

/-- Write a parameter. -/
def encodedParameter (p : Parameter) : List Char :=
  p.1.flatMap encodedByte ++ '=' :: p.2.flatMap encodedByte

/-- Write the parameters of a query. -/
def encodedParameters (ps : List Parameter) : List Char :=
  ['&'].intercalate (ps.map encodedParameter)

/-- The URL with a parameter set, behind all others. -/
def setParameter (url : Url) (name value : String) : Url :=
  let key := name.toUTF8.toList
  let others := (parametersOf (url.query.getD [])).filter fun p => p.1 ≠ key
  { url with query := some (encodedParameters (others ++ [(key, value.toUTF8.toList)])) }

/-- Text of a URL. -/
def render (url : Url) : String :=
  String.ofList (url.place ++ url.query.elim [] (fun q => '?' :: q) ++
    url.fragment.elim [] fun f => '#' :: f)

end Url

end Targeting
