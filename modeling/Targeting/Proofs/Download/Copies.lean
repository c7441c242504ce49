/-
# Copies of the latest download

The cache is visited again and again, for one name, while the web answers as it likes. After each
visit the directory holds one copy for the name, made of the last download that succeeded, or none
if there was none: the copy is named after the tag of that download, the tag is read from the name
again, and the copy that was there before is gone. This one invariant says what every visit answers
and what it asks of the web.

It is assumed that files can be written: no folder is where a copy belongs and no file where the
folder for temporary files does, and a name with a tag is not too long for a file.
-/

import Targeting.Download.Cache
import Targeting.Proofs.Download.Directory
import Targeting.Proofs.Text.Lines

namespace Targeting.Download

open Directory

variable {name tag : String} {r : Response} {d : Directory} {latest : Option Response}

/-! ## Names of copies -/

/-- The file that an answer is kept in. -/
def Response.file (name : String) (r : Response) : String := copyName name r.tag?

/-- A tag that can be part of a file's name. -/
structure IsTag (tag : String) : Prop where
  ne_empty : tag.toList ≠ []
  plain : ∀ c ∈ tag.toList, c ≠ '/' ∧ c ≠ '\x00'

theorem isTag_of_strongTag? {text : List Char} (h : strongTag? text = some tag) : IsTag tag := by
  obtain ⟨inner, -, hinner⟩ := Option.bind_eq_some_iff.1 h
  obtain ⟨rest, -, hrest⟩ := Option.bind_eq_some_iff.1 hinner
  simp only at hrest
  split at hrest
  case isTrue => cases hrest
  case isFalse hclean =>
    cases hrest
    simp only [Bool.or_eq_true, not_or] at hclean
    obtain ⟨⟨⟨hempty, -⟩, -⟩, hany⟩ := hclean
    constructor
    case ne_empty => simpa using hempty
    case plain =>
      intro c hc
      rw [String.toList_ofList] at hc
      simp only [List.any_eq_true, not_exists, not_and] at hany
      have := hany c hc
      simp_all

theorem Response.isTag (h : r.tag? = some tag) : IsTag tag := by
  obtain ⟨bytes, -, hbytes⟩ := Option.bind_eq_some_iff.1 h
  obtain ⟨text, -, htext⟩ := Option.bind_eq_some_iff.1 hbytes
  exact isTag_of_strongTag? htext

theorem toList_copyName_none (name : String) :
    (copyName name none).toList = name.toList ++ copyEnding.toList := by
  rw [copyName, String.toList_append]

theorem toList_copyName_some (name tag : String) : (copyName name (some tag)).toList =
    (name.toList ++ tagMark.toList) ++ (tag.toList ++ copyEnding.toList) := by
  simp only [copyName, String.toList_append, List.append_assoc]

theorem copyOf?_copyName (htag : IsTag tag) :
    copyOf? name (copyName name (some tag)) = some ⟨copyName name (some tag), some tag⟩ := by
  have hne : copyName name (some tag) ≠ copyName name none := by
    intro heq
    have hlength := congrArg (fun file => file.toList.length) heq
    simp only [toList_copyName_some, toList_copyName_none, List.length_append] at hlength
    have hmark : tagMark.toList.length = 8 := by decide
    omega
  have hstart := Split.afterStart?_eq_some_iff.2 (toList_copyName_some name tag)
  have hend : Split.afterStart? copyEnding.toList.reverse
      (tag.toList ++ copyEnding.toList).reverse = some tag.toList.reverse :=
    Split.afterStart?_eq_some_iff.2 List.reverse_append
  have htext : tag.toList.reverse.isEmpty = false := by
    rw [List.isEmpty_reverse]
    exact List.isEmpty_eq_false_iff.2 htag.ne_empty
  rw [copyOf?, if_neg hne]
  simp only [hstart, hend, htext, Option.bind_eq_bind, Option.bind_some, List.reverse_reverse,
    String.ofList_toList, Bool.false_eq_true, if_false]

/-- The tag of an answer is read from the name of its file again. -/
theorem Response.copyOf?_file (name : String) (r : Response) :
    copyOf? name (r.file name) = some ⟨r.file name, r.tag?⟩ := by
  rw [Response.file]
  cases htag : r.tag? with
  | none => rw [copyOf?, if_pos rfl]
  | some tag => exact copyOf?_copyName (r.isTag htag)

/-- A copy is named at least by the ending. -/
theorem length_le_of_copyOf? {file : String} {copy : Copy} (h : copyOf? name file = some copy) :
    copyEnding.toList.length ≤ file.toList.length := by
  rw [copyOf?] at h
  split at h
  case isTrue heq =>
    rw [heq, toList_copyName_none, List.length_append]
    exact Nat.le_add_left _ _
  case isFalse =>
    obtain ⟨rest, hstart, hrest⟩ := Option.bind_eq_some_iff.1 h
    obtain ⟨inner, hend, -⟩ := Option.bind_eq_some_iff.1 hrest
    have htext := congrArg List.length (Split.afterStart?_eq_some_iff.1 hstart)
    have hreverse := congrArg List.length (Split.afterStart?_eq_some_iff.1 hend)
    simp only [List.length_append, List.length_reverse] at htext hreverse
    omega

/-- The folder for temporary files is no copy. -/
theorem copyOf?_temporary : copyOf? name temporary = none := by
  cases hcopy : copyOf? name temporary with
  | none => rfl
  | some copy => exact absurd (length_le_of_copyOf? hcopy) (by decide)

theorem Response.file_ne_temporary (r : Response) : r.file name ≠ temporary := by
  intro heq
  have hcopy := r.copyOf?_file name
  rw [heq, copyOf?_temporary] at hcopy
  cases hcopy

theorem plain_of_isFileName {file : String} (h : isFileName file) :
    ∀ c ∈ file.toList, c ≠ '/' ∧ c ≠ '\x00' := by
  simp only [isFileName, Bool.and_eq_true, Bool.not_eq_true', List.any_eq_false] at h
  intro c hc
  simpa [not_or] using h.2 c hc

theorem Response.plain_file (hname : isFileName name) (r : Response) :
    ∀ c ∈ (r.file name).toList, c ≠ '/' ∧ c ≠ '\x00' := by
  have hplain := plain_of_isFileName hname
  have hmark : ∀ c ∈ tagMark.toList, c ≠ '/' ∧ c ≠ '\x00' := by simp [tagMark]
  have hending : ∀ c ∈ copyEnding.toList, c ≠ '/' ∧ c ≠ '\x00' := by simp [copyEnding]
  rw [Response.file]
  cases htag : r.tag? with
  | none =>
      rw [toList_copyName_none]
      exact List.forall_mem_append.2 ⟨hplain, hending⟩
  | some tag =>
      rw [toList_copyName_some]
      exact List.forall_mem_append.2 ⟨List.forall_mem_append.2 ⟨hplain, hmark⟩,
        List.forall_mem_append.2 ⟨(r.isTag htag).plain, hending⟩⟩

/-- The file of an answer can be written if its name is not too long. -/
theorem Response.isFileName_file (hname : isFileName name)
    (hfits : (r.file name).utf8ByteSize ≤ 255) : isFileName (r.file name) := by
  have hlength := length_le_of_copyOf? (r.copyOf?_file name)
  have hne : ∀ short : String, short.toList.length < copyEnding.toList.length →
      r.file name ≠ short := fun short hshort heq => absurd (heq ▸ hlength) (Nat.not_le.2 hshort)
  simp only [isFileName, Bool.and_eq_true, bne_iff_ne, decide_eq_true_eq, Bool.not_eq_true',
    List.any_eq_false]
  refine ⟨⟨⟨⟨hne "" (by decide), hne "." (by decide)⟩, hne ".." (by decide)⟩, hfits⟩, ?_⟩
  intro c hc
  simpa [not_or] using r.plain_file hname c hc

/-! ## The copies in a directory -/

/-- Whether an entry is a copy for a name. -/
def isCopy (name : String) : String × Entry → Bool
  | (_, .folder) => false
  | (file, .file _) => (copyOf? name file).isSome

/-- The copies for a name. -/
def copies (d : Directory) (name : String) : List (String × Entry) :=
  d.listing.filter (isCopy name)

/-- The entry of an answer that is kept. -/
def Response.entry (name : String) (r : Response) : String × Entry :=
  (r.file name, .file r.body)

/-- A directory has a copy of the latest download for a name, or none if there was no download, and
nothing is in the way of the next. -/
structure Holds (name : String) (latest : Option Response) (d : Directory) : Prop where
  copies_eq : copies d name = latest.toList.map (Response.entry name)
  writable : ∀ r ∈ latest, isFileName (r.file name)
  temporary : ∀ content, d.find? temporary ≠ some (.file content)
  noFolder : ∀ r : Response, d.find? (r.file name) ≠ some .folder

/-- The cached copy is the first of the copies. -/
theorem cached?_eq (d : Directory) (name : String) :
    cached? d name = (copies d name).head?.bind fun entry => copyOf? name entry.1 := by
  rw [cached?, copies]
  induction d.listing with
  | nil => rfl
  | cons first rest ih =>
      obtain ⟨file, entry⟩ := first
      cases entry with
      | folder =>
          rw [List.findSome?_cons, List.filter_cons_of_neg (by simp [isCopy])]
          exact ih
      | file content =>
          rw [List.findSome?_cons]
          cases hcopy : copyOf? name file with
          | none =>
              rw [List.filter_cons_of_neg (by simp [isCopy, hcopy])]
              simpa only [hcopy] using ih
          | some copy =>
              rw [List.filter_cons_of_pos (by simp [isCopy, hcopy])]
              simp only [List.head?_cons, Option.bind_some, hcopy]

theorem Holds.cached?_eq (h : Holds name latest d) :
    cached? d name = latest.map fun r => ⟨r.file name, r.tag?⟩ := by
  rw [Download.cached?_eq, h.copies_eq]
  cases latest with
  | none => rfl
  | some r => exact r.copyOf?_file name

/-- A file for a name is looked up among the copies. -/
theorem Holds.find?_file (h : Holds name latest d) (r : Response) :
    d.find? (r.file name) = (copies d name).lookup (r.file name) := by
  refine (lookup_filter fun entry hentry => ?_).symm
  cases entry with
  | folder => exact absurd hentry (h.noFolder r)
  | file content => exact Option.isSome_iff_exists.2 ⟨_, r.copyOf?_file name⟩

/-- The copy holds what was downloaded. -/
theorem Holds.find?_latest (h : Holds name (some r) d) :
    d.find? (r.file name) = some (.file r.body) := by
  rw [h.find?_file, h.copies_eq]
  exact List.lookup_cons_self

/-! ## A download -/

theorem copies_placed (h : Holds name latest d) (r : Response) :
    copies (d.placed (r.file name) r.body) name =
      put (r.file name) (.file r.body) (copies d name) := by
  have hfound : ∀ old, (put temporary .folder d.listing).lookup (r.file name) = some old →
      isCopy name (r.file name, old) := by
    intro old hold
    rw [lookup_put_of_ne r.file_ne_temporary] at hold
    cases old with
    | folder => exact absurd hold (h.noFolder r)
    | file content => exact Option.isSome_iff_exists.2 ⟨_, r.copyOf?_file name⟩
  have htemporary : ∀ entry, ¬ isCopy name (temporary, entry) := by
    intro entry
    cases entry <;> simp [isCopy, copyOf?_temporary]
  rw [copies, placed, listing_set, listing_set, filter_put hfound, filter_put_of_not htemporary,
    copies]
  exact Option.isSome_iff_exists.2 ⟨_, r.copyOf?_file name⟩

theorem copies_delete {file : String} {content : List UInt8}
    (h : d.find? file = some (.file content)) :
    copies (d.delete file) name = (copies d name).filter fun entry => entry.1 != file := by
  rw [copies, copies, listing_delete h, List.filter_filter, List.filter_filter]
  exact List.filter_congr fun entry _ => Bool.and_comm _ _

theorem find?_placed_self {file : String} {content : List UInt8} :
    (d.placed file content).find? file = some (.file content) := find?_set_self

theorem find?_placed_temporary (r : Response) :
    (d.placed (r.file name) r.body).find? temporary = some .folder := by
  rw [placed, find?_set_of_ne r.file_ne_temporary.symm, find?_set_self]

theorem find?_placed_of_ne {file : String} {q : Response} {content : List UInt8}
    (h : q.file name ≠ file) :
    (d.placed file content).find? (q.file name) = d.find? (q.file name) := by
  rw [placed, find?_set_of_ne h, find?_set_of_ne q.file_ne_temporary]

/-- No folder comes in the way. -/
theorem Holds.find?_placed_ne_folder (h : Holds name latest d) (r q : Response) :
    (d.placed (r.file name) r.body).find? (q.file name) ≠ some .folder := by
  by_cases heq : q.file name = r.file name
  · rw [heq, find?_placed_self]
    nofun
  · rw [find?_placed_of_ne heq]
    exact h.noFolder q

/-- The directory after a download, without the copy that was there before. -/
def replaced (name : String) (latest : Option Response) (d : Directory) (r : Response) :
    Directory :=
  let placed := d.placed (r.file name) r.body
  match latest with
  | some old => if old.file name = r.file name then placed else placed.delete (old.file name)
  | none => placed

/-- After a download there is its copy and no other. -/
theorem Holds.replaced (h : Holds name latest d) (hwritable : isFileName (r.file name)) :
    Holds name (some r) (replaced name latest d r) := by
  have hplaced := copies_placed h r
  rw [h.copies_eq] at hplaced
  have hcopied : copies (d.placed (r.file name) r.body) name = [r.entry name] →
      Holds name (some r) (d.placed (r.file name) r.body) := by
    intro hcopies
    refine ⟨hcopies, fun q hq => ?_, fun content => ?_, h.find?_placed_ne_folder r⟩
    · cases hq
      exact hwritable
    · rw [find?_placed_temporary]
      nofun
  cases latest with
  | none => exact hcopied hplaced
  | some old =>
      by_cases heq : old.file name = r.file name
      · rw [Download.replaced, if_pos heq]
        have hput := hplaced.trans (if_pos heq)
        rw [heq] at hput
        exact hcopied hput
      · have hboth : copies (d.placed (r.file name) r.body) name = [old.entry name, r.entry name] :=
          hplaced.trans (if_neg heq)
        have hold :
            (d.placed (r.file name) r.body).find? (old.file name) = some (.file old.body) := by
          rw [find?_placed_of_ne heq, h.find?_latest]
        rw [Download.replaced, if_neg heq]
        refine ⟨?_, fun q hq => ?_, fun content => ?_, fun q => ?_⟩
        · rw [copies_delete hold, hboth, List.filter_cons_of_neg, List.filter_cons_of_pos]
          · rfl
          · exact bne_iff_ne.2 (Ne.symm heq)
          · exact fun hne => bne_iff_ne.1 hne rfl
        · cases hq
          exact hwritable
        · rw [find?_delete_of_ne old.file_ne_temporary.symm, find?_placed_temporary]
          nofun
        · by_cases hsame : q.file name = old.file name
          · rw [hsame, find?_delete_self hold]
            nofun
          · rw [find?_delete_of_ne hsame]
            exact h.find?_placed_ne_folder r q

/-! ## Visits -/

/-- A visit of the cache, with what the web answers to each request that it may cause. -/
structure Visit where
  url : String
  nonce : Nat
  head : Option Response
  get : Option Response
  deriving Repr, DecidableEq

/-- A request and its answer. -/
inductive Exchange where
  | head (answer : Option Response)
  | get (answer : Option Response)
  deriving Repr, DecidableEq

/-- The answer of the web to a request for a file, if it is a download. -/
def Exchange.downloaded? : Exchange → Option Response
  | head _ => none
  | get answer => answer.filter fun r => r.status = 200

/-- The latest download. -/
def latest? (log : List Exchange) : Option Response :=
  (log.filterMap Exchange.downloaded?).getLast?

namespace Visit

variable {v : Visit} {log : List Exchange}

/-- The web during a visit; it keeps a log. -/
def web (v : Visit) : Web (List Exchange) where
  head _ log := (v.head, log ++ [.head v.head])
  get _ log := (v.get, log ++ [.get v.get])

/-- The download of a visit, if it makes one, has a name that is not too long for a file. -/
def Fits (name : String) (v : Visit) : Prop :=
  ∀ r ∈ v.get, r.status = 200 → (r.file name).utf8ByteSize ≤ 255

instance : Decidable (v.Fits name) :=
  inferInstanceAs (Decidable (∀ r ∈ v.get, r.status = 200 → (r.file name).utf8ByteSize ≤ 255))

/-- What a visit answers, and the directory and the log after it. -/
def fetch (name : String) (v : Visit) (s : Directory × List Exchange) :
    (Except DownloadError String × Directory) × List Exchange :=
  Download.fetch v.web s.1 v.url v.nonce name s.2

/-- The directory and the log after a visit. -/
def run (name : String) (s : Directory × List Exchange) (v : Visit) : Directory × List Exchange :=
  ((v.fetch name s).1.2, (v.fetch name s).2)

theorem latest?_head (log : List Exchange) (answer : Option Response) :
    latest? (log ++ [.head answer]) = latest? log := by
  rw [latest?, List.filterMap_append]
  exact congrArg List.getLast? (List.append_nil _)

theorem latest?_get (log : List Exchange) (answer : Option Response) :
    latest? (log ++ [.get answer]) = (answer.filter fun r => r.status = 200).or (latest? log) := by
  rw [latest?, List.filterMap_append, List.getLast?_append]
  cases hdownloaded : answer.filter fun r => r.status = 200 <;>
    simp [Exchange.downloaded?, hdownloaded, latest?]

/-- The tag under which the host knows the file during a visit. -/
def knownTag? (v : Visit) : Option String :=
  (v.head.filter fun r => r.status = 200).bind Response.tag?

/-- What a visit downloads if it asks for the file. -/
def download? (v : Visit) : Option Response :=
  v.get.filter fun r => r.status = 200

/-- Why a visit that asks for the file has no download. -/
def failure (v : Visit) : DownloadError :=
  v.get.elim .unreachable fun r => .status r.status

/-- What a visit asks first: about the copy, if it has a tag. -/
def questions (v : Visit) (latest : Option Response) : List Exchange :=
  match latest.bind Response.tag? with
  | some _ => [.head v.head]
  | none => []

theorem currentTag?_web (url : Url) :
    currentTag? v.web url log = (v.knownTag?, log ++ [.head v.head]) := by
  rw [currentTag?, knownTag?, web]
  cases v.head with
  | none => rfl
  | some r =>
      simp only [Option.filter_some, decide_eq_true_eq]
      split <;> rfl

/-- Only a copy with a tag can be current, and only then the host is asked. -/
theorem isCurrent_web (v : Visit) (name : String) (log : List Exchange) (url : Url)
    (latest : Option Response) :
    isCurrent v.web url (latest.map fun r => ⟨r.file name, r.tag?⟩) log =
      ((latest.bind Response.tag?).any fun tag => v.knownTag? == some tag,
        log ++ v.questions latest) := by
  cases latest with
  | none => exact Prod.ext rfl (List.append_nil log).symm
  | some r =>
      rw [Option.map_some, Option.bind_some, questions, Option.bind_some]
      cases htag : r.tag? with
      | none => exact Prod.ext rfl (List.append_nil log).symm
      | some tag => rw [isCurrent, currentTag?_web]; rfl

/-- A download is put in place; anything else changes nothing. -/
theorem download_web (h : Holds name latest d) (hname : isFileName name) (hfits : v.Fits name)
    (url : Url) :
    download v.web d url name log =
      ((v.download?.elim (.error v.failure) fun r => .ok (r.file name),
        v.download?.elim d fun r => d.placed (r.file name) r.body), log ++ [.get v.get]) := by
  rw [download, web, download?, failure]
  cases hget : v.get with
  | none => rfl
  | some r =>
      rw [Option.filter_some]
      by_cases hstatus : r.status = 200
      · have hplaced : d.install (r.file name) r.body = (true, d.placed (r.file name) r.body) :=
          install_eq_placed h.temporary (r.isFileName_file hname (hfits r hget hstatus))
            r.file_ne_temporary (h.noFolder r)
        simp only [hstatus, decide_true, if_true, Option.elim_some]
        rw [Response.file] at hplaced
        rw [hplaced]
        rfl
      · simp only [hstatus, decide_false, Bool.false_eq_true, if_false, Option.elim_none]
        rfl

theorem fetch_of_parse?_eq_none (h : Url.parse? v.url = none) (s : Directory × List Exchange) :
    v.fetch name s = ((.error .malformedUrl, s.1), s.2) := by
  rw [fetch, Download.fetch, freshUrl?, h]
  rfl

/-- The copy that the host confirms is the answer, and nothing else happens. -/
theorem fetch_of_knownTag? (h : Holds name (some r) d) (hurl : (Url.parse? v.url).isSome)
    (htag : r.tag? = some tag) (hknown : v.knownTag? = some tag) :
    v.fetch name (d, log) = ((.ok (r.file name), d), log ++ [.head v.head]) := by
  obtain ⟨url, hurl⟩ := Option.isSome_iff_exists.1 hurl
  have hcurrent := isCurrent_web v name log
    (url.setParameter freshParameter (String.ofList (Digits.ofNat v.nonce))) (some r)
  rw [Option.bind_some, htag, Option.any_some, hknown, beq_self_eq_true, questions,
    Option.bind_some, htag] at hcurrent
  rw [fetch, Download.fetch, freshUrl?, hurl, Option.map_some]
  simp only [h.cached?_eq, hcurrent]
  rfl

/-- Otherwise the visit asks for the file. Its download takes the place of the copy; without a
download the copy is the answer. -/
theorem fetch_of_knownTag?_ne (h : Holds name latest d) (hname : isFileName name)
    (hfits : v.Fits name) (hurl : (Url.parse? v.url).isSome)
    (hstale : ∀ tag, latest.bind Response.tag? = some tag → v.knownTag? ≠ some tag) :
    v.fetch name (d, log) =
      (match v.download? with
      | some r => (.ok (r.file name), replaced name latest d r)
      | none => (latest.elim (.error v.failure) fun r => .ok (r.file name), d),
        log ++ v.questions latest ++ [.get v.get]) := by
  obtain ⟨url, hurl⟩ := Option.isSome_iff_exists.1 hurl
  have hcurrent := isCurrent_web v name log
    (url.setParameter freshParameter (String.ofList (Digits.ofNat v.nonce))) latest
  have hno : ((latest.bind Response.tag?).any fun tag => v.knownTag? == some tag) = false := by
    cases htag : latest.bind Response.tag? with
    | none => rfl
    | some tag => exact beq_eq_false_iff_ne.2 (hstale tag htag)
  rw [hno] at hcurrent
  rw [fetch, Download.fetch, freshUrl?, hurl, Option.map_some]
  simp only [h.cached?_eq, hcurrent, download_web h hname hfits]
  cases hdownload : v.download? with
  | none => cases latest <;> rfl
  | some r => cases latest <;> rfl

theorem latest?_questions (v : Visit) (latest : Option Response) (log : List Exchange) :
    latest? (log ++ v.questions latest) = latest? log := by
  rw [questions]
  split
  case h_1 => exact latest?_head log v.head
  case h_2 => rw [List.append_nil]

/-- What a visit does, in its three cases: the address is none, the host confirms the copy, or the
visit asks for the file. -/
theorem fetch_cases (h : Holds name latest d) (hname : isFileName name) (hfits : v.Fits name)
    (log : List Exchange) :
    (Url.parse? v.url = none ∧ v.fetch name (d, log) = ((.error .malformedUrl, d), log)) ∨
    (∃ r tag, latest = some r ∧ r.tag? = some tag ∧ v.knownTag? = some tag ∧
      v.fetch name (d, log) = ((.ok (r.file name), d), log ++ [.head v.head])) ∨
    ((∀ tag, latest.bind Response.tag? = some tag → v.knownTag? ≠ some tag) ∧
      v.fetch name (d, log) =
        (match v.download? with
        | some r => (.ok (r.file name), replaced name latest d r)
        | none => (latest.elim (.error v.failure) fun r => .ok (r.file name), d),
          log ++ v.questions latest ++ [.get v.get])) := by
  cases hurl : Url.parse? v.url with
  | none => exact .inl ⟨rfl, fetch_of_parse?_eq_none hurl (d, log)⟩
  | some url =>
      have hsome : (Url.parse? v.url).isSome := by rw [hurl]; rfl
      by_cases hknown : ∃ tag, latest.bind Response.tag? = some tag ∧ v.knownTag? = some tag
      · obtain ⟨tag, hlatest, hknown⟩ := hknown
        obtain ⟨r, rfl, htag⟩ := Option.bind_eq_some_iff.1 hlatest
        exact .inr (.inl ⟨r, tag, rfl, htag, hknown, fetch_of_knownTag? h hsome htag hknown⟩)
      · have hstale : ∀ tag, latest.bind Response.tag? = some tag → v.knownTag? ≠ some tag :=
          fun tag hlatest heq => hknown ⟨tag, hlatest, heq⟩
        exact .inr (.inr ⟨hstale, fetch_of_knownTag?_ne h hname hfits hsome hstale⟩)

/-- What a visit answers when the directory has a copy of the latest download. -/
structure IsAnswer (name : String) (v : Visit) (latest : Option Response)
    (answer : Except DownloadError String) : Prop where
  ok : ∀ file, answer = .ok file → ∃ r, latest = some r ∧ file = r.file name
  error : ∀ error, answer = .error error → Url.parse? v.url = none ∨ latest = none

/-- **A visit preserves the copy of the latest download** and answers it. -/
theorem holds_fetch {log : List Exchange} (h : Holds name (latest? log) d)
    (hname : isFileName name) (hfits : v.Fits name) {answer : Except DownloadError String}
    {d' : Directory} {log' : List Exchange}
    (hfetch : v.fetch name (d, log) = ((answer, d'), log')) :
    Holds name (latest? log') d' ∧ IsAnswer name v (latest? log') answer := by
  obtain ⟨hurl, hmalformed⟩ | ⟨r, tag, hlatest, -, -, hcurrent⟩ | ⟨-, hasked⟩ :=
    fetch_cases h hname hfits log
  · rw [hmalformed] at hfetch
    cases hfetch
    exact ⟨h, nofun, fun _ _ => .inl hurl⟩
  · rw [hcurrent] at hfetch
    cases hfetch
    rw [latest?_head]
    refine ⟨h, fun file hfile => ⟨r, hlatest, ?_⟩, nofun⟩
    cases hfile
    rfl
  · rw [hasked] at hfetch
    cases hdownload : v.download? with
    | some r =>
        rw [hdownload] at hfetch
        cases hfetch
        have hlatest : latest? (log ++ v.questions (latest? log) ++ [.get v.get]) = some r := by
          rw [latest?_get]
          exact congrArg (Option.or · _) hdownload
        rw [hlatest]
        have hget := Option.filter_eq_some_iff.1 hdownload
        refine ⟨h.replaced (r.isFileName_file hname (hfits r hget.1 (of_decide_eq_true hget.2))),
          fun file hfile => ⟨r, rfl, ?_⟩, nofun⟩
        cases hfile
        rfl
    | none =>
        rw [hdownload] at hfetch
        cases hfetch
        have hlatest :
            latest? (log ++ v.questions (latest? log) ++ [.get v.get]) = latest? log := by
          rw [latest?_get, latest?_questions]
          exact congrArg (Option.or · _) hdownload
        rw [hlatest]
        refine ⟨h, fun file hfile => ?_, fun error herror => .inr ?_⟩
        · cases hcopy : latest? log with
          | none => rw [hcopy] at hfile; cases hfile
          | some r => rw [hcopy] at hfile; cases hfile; exact ⟨r, rfl, rfl⟩
        · cases hcopy : latest? log with
          | none => rfl
          | some r => rw [hcopy] at herror; cases herror

/-- The directory and the log after some visits. -/
def after (name : String) (d : Directory) (visits : List Visit) : Directory × List Exchange :=
  visits.foldl (run name) (d, [])

theorem holds_after (h : Holds name none d) (hname : isFileName name) {visits : List Visit}
    (hfits : ∀ v ∈ visits, v.Fits name) :
    Holds name (latest? (after name d visits).2) (after name d visits).1 := by
  induction visits using List.reverseRecOn with
  | nil => exact h
  | append_singleton visits v ih =>
      obtain ⟨hvisits, hv⟩ := List.forall_mem_append.1 hfits
      have hlast : after name d (visits ++ [v]) = run name (after name d visits) v :=
        List.foldl_concat ..
      rw [hlast]
      exact (holds_fetch (ih hvisits) hname (hv v List.mem_cons_self) rfl).1

end Visit

/-- **The cache answers the latest download.** The cache is visited for a name of which the
directory has no copy at first, any number of times, with any answers of the web. After every visit
there is at most one copy. A file that is answered is in the directory itself and holds what the
latest download brought. A visit to whose address the host answers the tag of the copy asks for
nothing else and changes nothing. A visit fails only as long as there was no download, and leaves no
copy then; except at an address that is none, where nothing is asked and nothing changes. -/
theorem cache_answers_latest_download (hname : isFileName name) (hnone : copies d name = [])
    (htemporary : ∀ content, d.find? temporary ≠ some (.file content))
    (hfolder : ∀ r : Response, d.find? (r.file name) ≠ some .folder)
    {visits : List Visit} {v : Visit} (hfits : ∀ w ∈ visits ++ [v], w.Fits name) :
    let s := Visit.after name d visits
    ∃ answer d' log', v.fetch name s = ((answer, d'), log') ∧
      (copies d' name).length ≤ 1 ∧
      (∀ file, answer = .ok file → isFileName file ∧
        ∃ r, latest? log' = some r ∧ d'.read? file = some r.body) ∧
      (Url.parse? v.url = none → answer = .error .malformedUrl ∧ d' = s.1 ∧ log' = s.2) ∧
      ((Url.parse? v.url).isSome →
        (∀ file tag r, cached? s.1 name = some ⟨file, some tag⟩ → v.head = some r →
          r.status = 200 → r.tag? = some tag →
            answer = .ok file ∧ d' = s.1 ∧ log' = s.2 ++ [.head (some r)]) ∧
        ∀ error, answer = .error error → latest? log' = none ∧ copies d' name = []) := by
  intro s
  obtain ⟨hvisits, hv⟩ := List.forall_mem_append.1 hfits
  have hstart : Holds name none d := ⟨hnone, nofun, htemporary, hfolder⟩
  have hs : Holds name (latest? s.2) s.1 := Visit.holds_after hstart hname hvisits
  have hvfits : v.Fits name := hv v List.mem_cons_self
  obtain ⟨answer, d', log', hfetch⟩ : ∃ answer d' log', v.fetch name s = ((answer, d'), log') :=
    ⟨_, _, _, rfl⟩
  obtain ⟨hd', hanswer⟩ := Visit.holds_fetch hs hname hvfits hfetch
  refine ⟨answer, d', log', hfetch, ?_, fun file hfile => ?_, fun hurl => ?_, fun hurl => ⟨?_, ?_⟩⟩
  · rw [hd'.copies_eq, List.length_map]
    exact Option.length_toList_le
  · obtain ⟨r, hlatest, rfl⟩ := hanswer.ok file hfile
    refine ⟨hd'.writable r hlatest, r, hlatest, read?_eq_some_iff.2 ?_⟩
    rw [hlatest] at hd'
    exact hd'.find?_latest
  · cases (Visit.fetch_of_parse?_eq_none hurl s).symm.trans hfetch
    exact ⟨rfl, rfl, rfl⟩
  · intro file tag r hcached hhead hstatus htag
    have hknown : v.knownTag? = some tag := by
      rw [Visit.knownTag?, hhead, Option.filter_some, if_pos (decide_eq_true hstatus)]
      exact htag
    obtain ⟨q, hlatest, hcopy⟩ := Option.map_eq_some_iff.1 (hs.cached?_eq.symm.trans hcached)
    obtain ⟨rfl, hcopied⟩ := Copy.mk.inj hcopy
    rw [hlatest] at hs
    cases (Visit.fetch_of_knownTag? hs hurl hcopied hknown).symm.trans hfetch
    exact ⟨rfl, rfl, congrArg (fun answer => s.2 ++ [.head answer]) hhead⟩
  · intro error herror
    have hlatest := (hanswer.error error herror).resolve_left (Option.isSome_iff_ne_none.1 hurl)
    refine ⟨hlatest, ?_⟩
    rw [hd'.copies_eq, hlatest]
    rfl

/-- The bytes of a header. -/
def header (text : String) : Option (List UInt8) :=
  some (text.toList.map fun c => UInt8.ofNat c.toNat)

/-- The host cannot be reached, then it sends the file under a tag, under a weak one and under
another, and in the end it fails. -/
def trials : List Visit :=
  let visit := Visit.mk "https://host/file" 7
  [visit none none, visit none (some ⟨200, header "\"v1\"", [1]⟩),
    visit (some ⟨200, header "\"v2\"", []⟩) (some ⟨200, header "W/\"v2\"", [2]⟩),
    visit none (some ⟨200, header "\"v3\"", [3]⟩), visit none (some ⟨500, none, []⟩)]

/-- The copy under the last tag is the answer when the host confirms it. -/
theorem confirmed_copy_is_answered :
    let s := Visit.after "primary" .empty trials
    let v := Visit.mk "https://host/file" 8 (some ⟨200, header "\"v3\"", []⟩) none
    v.fetch "primary" s = ((.ok "primary--etag--v3.config", s.1), s.2 ++ [.head v.head]) ∧
      s.1.read? "primary--etag--v3.config" = some [3] ∧ (copies s.1 "primary").length ≤ 1 := by
  intro s v
  obtain ⟨answer, d', log', hfetch, hcount, hok, -, hasked⟩ :=
    cache_answers_latest_download (show isFileName "primary" by decide)
      (show copies .empty "primary" = [] from rfl) (fun _ => nofun) (fun _ => nofun)
      (show ∀ w ∈ trials ++ [v], w.Fits "primary" by decide +kernel)
  have hcached : cached? s.1 "primary" = some ⟨"primary--etag--v3.config", some "v3"⟩ := by
    decide +kernel
  obtain ⟨rfl, rfl, rfl⟩ :=
    (hasked (by decide +kernel)).1 _ "v3" _ hcached rfl rfl (by decide +kernel)
  obtain ⟨-, r, hlatest, hread⟩ := hok _ rfl
  have hbody : latest? (s.2 ++ [.head v.head]) = some ⟨200, header "\"v3\"", [3]⟩ := by
    decide +kernel
  cases hlatest.symm.trans hbody
  exact ⟨hfetch, hread, hcount⟩

end Targeting.Download
