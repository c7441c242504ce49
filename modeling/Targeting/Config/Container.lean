/-
# Signed configuration files

A configuration file is text with two armored blocks: a head with the version of the format,
and the configuration itself with its signature in front of it. Lines around the blocks are
passed over, blanks around lines do not matter, and the body may be cut into lines anywhere.
The signature is over the bytes of the body; they are only handed out once it is verified.
-/

import Targeting.Config.Basic
import Targeting.Signing.Key

namespace Targeting.Config

/-- A block: its label, its header lines as names and values, and its bytes. -/
structure Block where
  label : List Char
  headers : List (List Char × List Char)
  body : List UInt8
  deriving Repr, DecidableEq

namespace Block

/-- Labels of the two blocks. -/
def headLabel : String := "CM"
def bodyLabel : String := "CONFIG"

/-- Names of the header lines. -/
def versionHeader : String := "Container-Version"
def signatureHeader : String := "Signature"

/-- The first line of a block. -/
def firstLine (label : List Char) : List Char :=
  "-----BEGIN ".toList ++ label ++ "-----".toList

/-- The last line of a block. -/
def lastLine (label : List Char) : List Char :=
  "-----END ".toList ++ label ++ "-----".toList

/-- Value of the first header line with a name. -/
def header? (b : Block) (name : String) : Option String :=
  (b.headers.lookup name.toList).map String.ofList

/-- The label of a block that a line begins, blanks around it dropped. -/
def labelOf? (line : List Char) : Option (List Char) := do
  let rest ← Split.afterStart? "-----BEGIN ".toList (Blank.trim line)
  let rest ← Split.afterStart? "-----".toList rest.reverse
  some rest.reverse

/-- The header lines at the front of a block's lines, and the lines of its body. A blank line
ends the headers, and so does a line without colon, which belongs to the body. -/
def splitHeaders : List (List Char) → List (List Char × List Char) × List (List Char)
  | [] => ([], [])
  | line :: rest =>
    if line.isEmpty then ([], rest)
    else match Split.once ':' line with
      | some (name, value) =>
        let (headers, body) := splitHeaders rest
        ((Blank.trim name, Blank.trim value) :: headers, body)
      | none => ([], line :: rest)

/-- The lines before the last line of a block, blanks around them dropped, and those after. -/
def untilEnd? (label : List Char) : List (List Char) → Option (List (List Char) × List (List Char))
  | [] => none
  | line :: rest =>
    let line := Blank.trim line
    if line = lastLine label then some ([], rest)
    else (untilEnd? label rest).map fun (inner, rest) => (line :: inner, rest)

/-- The blocks of some lines, in order, up to the first one that does not end or whose body is
no base64. The fuel bounds the lines. -/
def all : Nat → List (List Char) → List Block
  | 0, _ => []
  | _, [] => []
  | fuel + 1, line :: rest =>
    match labelOf? line with
    | none => all fuel rest
    | some label =>
      match untilEnd? label rest with
      | none => []
      | some (inner, rest) =>
        let (headers, body) := splitHeaders inner
        match Base64.decode? body.flatten with
        | none => []
        | some bytes => ⟨label, headers, bytes⟩ :: all fuel rest

/-- The lines of base64 text, 64 characters each. The fuel bounds the characters. -/
def wrapped : Nat → List Char → List (List Char)
  | 0, _ => []
  | _, [] => []
  | fuel + 1, text => text.take 64 :: wrapped fuel (text.drop 64)

/-- The lines of a block with header lines. -/
def lines (b : Block) : List (List Char) :=
  let headers := b.headers.map fun (name, value) => name ++ [':', ' '] ++ value
  let encoded := Base64.encode b.body
  firstLine b.label :: headers ++ (if b.headers.isEmpty then [] else [[]]) ++
    wrapped encoded.length encoded ++ [lastLine b.label]

end Block

/-- The blocks of a text. -/
def blocksOf (text : List Char) : List Block :=
  let lines := Split.lines text
  Block.all lines.length lines

/-- The version of the format that is written. -/
def formatVersion : String := "v1"

/-- Whether a version of the format can be read. -/
def readsVersion (version : String) : Bool :=
  version = formatVersion || (Split.afterStart? "v1.".toList version.toList).isSome

/-- What has been found in the blocks of a file. -/
structure Contents where
  hasHead : Bool
  body : Option Block

/-- Go through the blocks of a file. Of several bodies the last one counts. -/
def contents : Contents → List Block → Except Error Contents
  | found, [] => .ok found
  | found, block :: rest =>
    if block.label = Block.headLabel.toList then
      let version := (block.header? Block.versionHeader).getD ""
      if readsVersion version then contents { found with hasHead := true } rest
      else .error (.unsupportedVersion version)
    else if block.label = Block.bodyLabel.toList then
      contents { found with body := some block } rest
    else contents found rest

/-- The signed bytes of a configuration file. -/
def openContainer (verifier : SigningKey) (file : List UInt8) : Except Error (List UInt8) :=
  match String.fromUTF8? ⟨file.toArray⟩ with
  | none => .error .notSigned
  | some text =>
    match contents ⟨false, none⟩ (blocksOf text.toList) with
    | .error error => .error error
    | .ok ⟨false, _⟩ => .error .notSigned
    | .ok ⟨true, none⟩ => .error .noConfigBlock
    | .ok ⟨true, some block⟩ =>
      if block.body.isEmpty then .error .noConfigBlock
      else
        match nonEmpty (block.header? Block.signatureHeader) with
        | none => .error .noSignature
        | some signature =>
          if verifier.verify block.body signature then .ok block.body
          else .error .wrongSignature

/-- The text of a file with a signed body. -/
def container (signature : String) (body : List UInt8) : String :=
  let head : Block :=
    ⟨Block.headLabel.toList, [(Block.versionHeader.toList, formatVersion.toList)], []⟩
  let config : Block :=
    ⟨Block.bodyLabel.toList, [(Block.signatureHeader.toList, signature.toList)], body⟩
  String.ofList ((head.lines ++ config.lines).flatMap fun line => line ++ ['\n'])

/-- What can go wrong when a configuration is signed. -/
inductive SealError where
  | config (error : Error)
  | key (error : KeyError)
  deriving Repr, DecidableEq

/-- Sign a configuration. It has to be valid under strict validation. -/
def sealContainer (signer : SigningKey) (body : List UInt8) : Except SealError String :=
  match ofJson ⟨.strict, []⟩ body with
  | .error error => .error (.config error)
  | .ok _ =>
    match signer.sign body with
    | .error error => .error (.key error)
    | .ok signature => .ok (container signature body)

/-- Read and check a signed configuration. -/
def ofContainer (verifier : SigningKey) (engine : Condition.Engine) (file : List UInt8) :
    Except Error Config := do
  let body ← openContainer verifier file
  ofJson engine body

end Targeting.Config
