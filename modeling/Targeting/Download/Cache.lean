/-
# The cache of downloads

Copies of files on the web, one for a name. The name of a copy carries the entity tag under
which the host knows its content, if it has a usable one; such a copy is current as long as the
host still answers with the tag. When a download fails an older copy is as good as none newer.

Every request carries a number that differs each time, so that nothing on the way answers in
the host's place.
-/

import Targeting.Download.Directory
import Targeting.Download.Url

namespace Targeting.Download

/-- What a host answers. The tag is the text of its header, as bytes. -/
structure Response where
  status : Nat
  etag : Option (List UInt8)
  body : List UInt8
  deriving Repr, DecidableEq

/-- How the web answers; a request that fails has no answer. -/
structure Web (σ : Type) where
  /-- Ask for the head of a file alone. -/
  head : Url → σ → Option Response × σ
  /-- Ask for a file. -/
  get : Url → σ → Option Response × σ

/-- Why there is no copy of a file. -/
inductive DownloadError where
  | malformedUrl
  | status (code : Nat)
  | unreachable
  | unwritable
  deriving Repr, DecidableEq

/-- Text of an error. -/
def DownloadError.message : DownloadError → String
  | malformedUrl => "config URL must start with https:// or file://"
  | status code => "failed to fetch config file: HTTP status " ++ String.ofList (Digits.ofNat code)
  | unreachable => "the config host can't be reached"
  | unwritable => "the config file can't be written"

/-! ### Entity tags -/

/-- The text of a header; bytes outside of printable ASCII and tabs are refused. -/
def headerText? (bytes : List UInt8) : Option (List Char) :=
  if bytes.all fun b => (32 ≤ b && b < 127) || b = 9 then
    some (bytes.map fun b => Char.ofNat b.toNat)
  else none

/-- A tag without its quotes, if it is strong and can be part of a file's name. -/
def strongTag? (text : List Char) : Option String := do
  let rest ← Split.afterStart? ['"'] text
  let rest ← Split.afterStart? ['"'] rest.reverse
  let tag := rest.reverse
  if tag.isEmpty || tag == ['.'] || tag == ['.', '.'] ||
      tag.any fun c => c = '/' || c = '\\' || c = '\x00' then none
  else some (String.ofList tag)

/-- The usable tag of an answer. -/
def Response.tag? (r : Response) : Option String :=
  r.etag.bind fun bytes => (headerText? bytes).bind strongTag?

/-! ### Names of copies -/

/-- What stands between the name and the tag of a copy. -/
def tagMark : String := "--etag--"

/-- What the names of copies end in. -/
def copyEnding : String := ".config"

/-- Name of a copy. -/
def copyName (name : String) : Option String → String
  | some tag => name ++ tagMark ++ tag ++ copyEnding
  | none => name ++ copyEnding

/-- A copy: its file and its tag. -/
structure Copy where
  file : String
  tag : Option String
  deriving Repr, DecidableEq

/-- The copy that a file is for a name, if it is one. -/
def copyOf? (name file : String) : Option Copy :=
  if file = copyName name none then some ⟨file, none⟩
  else do
    let rest ← Split.afterStart? (name.toList ++ tagMark.toList) file.toList
    let rest ← Split.afterStart? copyEnding.toList.reverse rest.reverse
    some ⟨file, if rest.isEmpty then none else some (String.ofList rest.reverse)⟩

/-- The first copy for a name in a directory. -/
def cached? (d : Directory) (name : String) : Option Copy :=
  d.listing.findSome? fun (file, entry) =>
    match entry with
    | .folder => none
    | .file _ => copyOf? name file

/-! ### Requests -/

/-- Name of the parameter that differs for every request. -/
def freshParameter : String := "cm_cache_buster"

/-- The address to ask, with a number that differs each time. -/
def freshUrl? (url : String) (nonce : Nat) : Option Url :=
  (Url.parse? url).map fun parsed =>
    parsed.setParameter freshParameter (String.ofList (Digits.ofNat nonce))

/-- The tag under which the host knows the file now. -/
def currentTag? {σ : Type} (web : Web σ) (url : Url) (s : σ) : Option String × σ :=
  match web.head url s with
  | (some answer, s) => (if answer.status = 200 then answer.tag? else none, s)
  | (none, s) => (none, s)

/-- Whether a copy is current. Only a copy with a tag can be, and only then the host is asked. -/
def isCurrent {σ : Type} (web : Web σ) (url : Url) (copy : Option Copy) (s : σ) : Bool × σ :=
  match copy with
  | some ⟨_, some tag⟩ =>
    let (now, s) := currentTag? web url s
    (now == some tag, s)
  | _ => (false, s)

/-- Download a file and put it in place. Answers the name of the new copy. -/
def download {σ : Type} (web : Web σ) (d : Directory) (url : Url) (name : String) (s : σ) :
    (Except DownloadError String × Directory) × σ :=
  match web.get url s with
  | (none, s) => ((.error .unreachable, d), s)
  | (some answer, s) =>
    if answer.status = 200 then
      let file := copyName name answer.tag?
      match d.install file answer.body with
      | (true, d) => ((.ok file, d), s)
      | (false, d) => ((.error .unwritable, d), s)
    else ((.error (.status answer.status), d), s)

/-- The file of a current copy. A download replaces the copy that was there before; when it fails
the copy that was there is the answer. -/
def fetch {σ : Type} (web : Web σ) (d : Directory) (url : String) (nonce : Nat) (name : String)
    (s : σ) : (Except DownloadError String × Directory) × σ :=
  match freshUrl? url nonce with
  | none => ((.error .malformedUrl, d), s)
  | some url =>
    let prior := cached? d name
    match isCurrent web url prior s, prior with
    | (true, s), some copy => ((.ok copy.file, d), s)
    | (_, s), prior =>
      match download web d url name s, prior with
      | ((.ok file, d), s), some copy =>
        ((.ok file, if copy.file = file then d else d.delete copy.file), s)
      | ((.ok file, d), s), none => ((.ok file, d), s)
      | ((.error _, d), s), some copy => ((.ok copy.file, d), s)
      | ((.error error, d), s), none => ((.error error, d), s)

end Targeting.Download
