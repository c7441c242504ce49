/-
# Copies of several names in one directory

The copies for a name are told by their names alone. A tag may be anything, so a file may be a copy
for two names: it is, when one of them goes on from the other by the mark in front of a tag. Then
calls for the shorter name find the copies of the longer one, answer them and delete them. For names
of which neither goes on from the other in this way nothing of the kind happens, whatever calls are
made and whatever the web answers.

The mark overlaps itself in its dashes, so a name also goes on from another one if two more dashes
would complete the mark.
-/

import Targeting.Proofs.Download.Copies

namespace Targeting.Download

open Directory

variable {m n file : String} {d : Directory}

/-! ## Files that are copies for two names -/

/-- A name goes on from another one by the mark in front of a tag, or by so much of it that the
dashes of its own mark complete it. -/
def Continues (name longer : String) : Prop :=
  name.toList ++ tagMark.toList <+: longer.toList ++ ['-', '-']

instance (name longer : String) : Decidable (Continues name longer) :=
  inferInstanceAs (Decidable (_ <+: _))

theorem isSome_copyOf?_iff : (copyOf? n file).isSome ↔ file = copyName n none ∨
    ∃ tag, file.toList = n.toList ++ tagMark.toList ++ (tag ++ copyEnding.toList) := by
  by_cases hplain : file = copyName n none
  · rw [copyOf?, if_pos hplain]
    exact ⟨fun _ => .inl hplain, fun _ => rfl⟩
  · rw [copyOf?, if_neg hplain, or_iff_right hplain]
    constructor
    · intro h
      obtain ⟨copy, hcopy⟩ := Option.isSome_iff_exists.1 h
      obtain ⟨rest, hstart, hcopy⟩ := Option.bind_eq_some_iff.1 hcopy
      obtain ⟨inner, hend, -⟩ := Option.bind_eq_some_iff.1 hcopy
      refine ⟨inner.reverse, ?_⟩
      rw [Split.afterStart?_eq_some_iff.1 hstart]
      have hrest := congrArg List.reverse (Split.afterStart?_eq_some_iff.1 hend)
      rw [List.reverse_reverse, List.reverse_append, List.reverse_reverse] at hrest
      rw [hrest]
    · rintro ⟨tag, htext⟩
      have hstart := Split.afterStart?_eq_some_iff.2 htext
      have hend : Split.afterStart? copyEnding.toList.reverse
          (tag ++ copyEnding.toList).reverse = some tag.reverse :=
        Split.afterStart?_eq_some_iff.2 List.reverse_append
      simp only [hstart, hend, Option.bind_eq_bind, Option.bind_some, Option.isSome_some]

theorem file_of_copyOf? {copy : Copy} (h : copyOf? n file = some copy) : copy.file = file := by
  rw [copyOf?] at h
  split at h
  case isTrue => exact congrArg Copy.file (Option.some.inj h).symm
  case isFalse =>
    obtain ⟨rest, -, h⟩ := Option.bind_eq_some_iff.1 h
    obtain ⟨inner, -, h⟩ := Option.bind_eq_some_iff.1 h
    exact congrArg Copy.file (Option.some.inj h).symm

/-- The mark overlaps itself in no more than two dashes. -/
theorem mark_prefix_of_overlap {more tag other : List Char} (hne : more ≠ [])
    (h : tagMark.toList ++ other = more ++ (tagMark.toList ++ tag)) :
    tagMark.toList <+: more ++ ['-', '-'] := by
  have hmark : tagMark.toList.length = 8 := by decide
  have hborder : ∀ k < 8, 0 < k → tagMark.toList.drop k <+: tagMark.toList →
      tagMark.toList <+: tagMark.toList.take k ++ ['-', '-'] := by decide
  by_cases hlong : 8 ≤ more.length
  · have hprefix : tagMark.toList <+: more :=
      List.prefix_of_prefix_length_le ⟨other, h⟩ (List.prefix_append _ _) (by omega)
    exact hprefix.trans (List.prefix_append _ _)
  · have hshort : more.length ≤ tagMark.toList.length := by omega
    have htake := congrArg (List.take more.length) h
    have hdrop := congrArg (List.drop more.length) h
    rw [List.take_left, List.take_append_of_le_length hshort] at htake
    rw [List.drop_left, List.drop_append_of_le_length hshort] at hdrop
    have hprefix : tagMark.toList.drop more.length <+: tagMark.toList :=
      List.prefix_of_prefix_length_le ⟨other, hdrop⟩ (List.prefix_append _ _) (by
        rw [List.length_drop]
        omega)
    rw [← htake]
    exact hborder _ (by omega) (List.length_pos_iff.2 hne) hprefix

theorem continues_of_marked {tag : List Char} (h : n.toList = m.toList ++ tagMark.toList ++ tag) :
    Continues m n := by
  rw [Continues, h]
  exact (List.prefix_append _ _).trans (List.prefix_append _ _)

theorem continues_of_overlap {more tag other : List Char} (hne : m ≠ n)
    (hlonger : n.toList = m.toList ++ more)
    (h : tagMark.toList ++ other = more ++ (tagMark.toList ++ tag)) : Continues m n := by
  have hmore : more ≠ [] := by
    rintro rfl
    exact hne (String.toList_inj.1 (hlonger.trans (List.append_nil _)).symm)
  rw [Continues, hlonger, List.append_assoc]
  exact (List.prefix_append_right_inj _).2 (mark_prefix_of_overlap hmore h)

/-- A file that an answer for one name is kept in is a copy for another name only if one of the
names goes on from the other. -/
theorem copyOf?_file_eq_none (hne : m ≠ n) (hmn : ¬ Continues m n) (hnm : ¬ Continues n m)
    (r : Response) : copyOf? n (r.file m) = none := by
  refine Option.not_isSome_iff_eq_none.1 fun hcopy => ?_
  rw [Response.file] at hcopy
  obtain hplain | ⟨tag, htext⟩ := isSome_copyOf?_iff.1 hcopy
  · have htext := congrArg String.toList hplain
    cases hown : r.tag? with
    | none =>
        rw [hown, toList_copyName_none, toList_copyName_none] at htext
        exact hne (String.toList_inj.1 (List.append_cancel_right htext))
    | some own =>
        rw [hown, toList_copyName_some, toList_copyName_none, ← List.append_assoc] at htext
        exact hmn (continues_of_marked (List.append_cancel_right htext).symm)
  · rw [← List.append_assoc] at htext
    cases hown : r.tag? with
    | none =>
        rw [hown, toList_copyName_none] at htext
        exact hnm (continues_of_marked (List.append_cancel_right htext))
    | some own =>
        rw [hown, toList_copyName_some, ← List.append_assoc] at htext
        have hnames := List.append_cancel_right htext
        rw [List.append_assoc, List.append_assoc] at hnames
        obtain ⟨more, hlonger, hrest⟩ | ⟨more, hlonger, hrest⟩ := List.append_eq_append_iff.1 hnames
        · exact hmn (continues_of_overlap hne hlonger hrest)
        · exact hnm (continues_of_overlap hne.symm hlonger hrest)

/-- A copy under a tag of a name that goes on from another one is a copy for that one as well. -/
theorem isSome_copyOf?_of_continues (h : Continues m n) (tag : String) :
    (copyOf? m (copyName n (some tag))).isSome := by
  obtain ⟨rest, hrest⟩ := h
  refine isSome_copyOf?_iff.2 (.inr ⟨rest ++ "etag--".toList ++ tag.toList, ?_⟩)
  have hmark : tagMark.toList = ['-', '-'] ++ "etag--".toList := by decide
  calc (copyName n (some tag)).toList
      = n.toList ++ tagMark.toList ++ (tag.toList ++ copyEnding.toList) := toList_copyName_some n tag
    _ = (n.toList ++ ['-', '-']) ++ "etag--".toList ++ (tag.toList ++ copyEnding.toList) := by
        rw [hmark]
        simp only [List.append_assoc]
    _ = m.toList ++ tagMark.toList ++ ((rest ++ "etag--".toList ++ tag.toList) ++
          copyEnding.toList) := by
        rw [← hrest]
        simp only [List.append_assoc]

/-! ## Calls -/

theorem copyOf?_of_cached? {copy : Copy} (h : cached? d n = some copy) :
    copyOf? n copy.file = some copy := by
  obtain ⟨⟨file, entry⟩, -, hcopy⟩ := List.exists_of_findSome?_eq_some h
  cases entry with
  | folder => cases hcopy
  | file content => exact file_of_copyOf? hcopy ▸ hcopy

/-- A download concerns the copies for its name alone. -/
theorem download_frame {σ : Type} {web : Web σ} {url : Url} {s : σ}
    (hcopy : copyOf? n file = none) (htemporary : file ≠ temporary) :
    (download web d url n s).1.2.find? file = d.find? file ∧
      (download web d url n s).1.1 ≠ .ok file := by
  rw [download]
  obtain ⟨answer, s⟩ := web.get url s
  cases answer with
  | none => exact ⟨rfl, by rintro ⟨⟩⟩
  | some answer =>
      have hne : file ≠ copyName n answer.tag? := by
        intro heq
        have hown := answer.copyOf?_file n
        rw [Response.file, ← heq, hcopy] at hown
        cases hown
      have hkept : (d.install (copyName n answer.tag?) answer.body).2.find? file = d.find? file :=
        find?_install_of_ne hne htemporary
      dsimp only
      by_cases hstatus : answer.status = 200
      · rw [if_pos hstatus]
        generalize d.install (copyName n answer.tag?) answer.body = installed at hkept ⊢
        obtain ⟨written, placed⟩ := installed
        cases written with
        | true => exact ⟨hkept, fun h => hne (Except.ok.inj h).symm⟩
        | false => exact ⟨hkept, by rintro ⟨⟩⟩
      · rw [if_neg hstatus]
        exact ⟨rfl, by rintro ⟨⟩⟩

/-- What a visit makes of its download: it replaces the copy that was there before, which is the
answer if there is no download. -/
def settled (prior : Option Copy) :
    Except DownloadError String × Directory → Except DownloadError String × Directory
  | (.ok file, d) =>
    (.ok file, match prior with
      | some copy => if copy.file = file then d else d.delete copy.file
      | none => d)
  | (.error error, d) => (prior.elim (.error error) fun copy => .ok copy.file, d)

/-- What a visit does, whatever the directory holds: the address is none, the copy that was there
before is the answer, or the visit downloads. -/
theorem fetch_eq_or {σ : Type} (web : Web σ) (d : Directory) (url : String) (nonce : Nat)
    (n : String) (s : σ) :
    fetch web d url nonce n s = ((.error .malformedUrl, d), s) ∨
    ∃ url', let asked := (isCurrent web url' (cached? d n) s).2
      (∃ copy, cached? d n = some copy ∧
        fetch web d url nonce n s = ((.ok copy.file, d), asked)) ∨
      fetch web d url nonce n s =
        (settled (cached? d n) (download web d url' n asked).1,
          (download web d url' n asked).2) := by
  rw [fetch]
  split
  case h_1 => exact .inl rfl
  case h_2 url' _ =>
    refine .inr ⟨url', ?_⟩
    dsimp only
    generalize cached? d n = prior
    obtain ⟨current, asked⟩ := isCurrent web url' prior s
    dsimp only
    cases prior with
    | none =>
        refine .inr ?_
        cases current
        all_goals
          dsimp only
          obtain ⟨⟨answer, d'⟩, s'⟩ := download web d url' n asked
          cases answer <;> rfl
    | some copy =>
        cases current with
        | true => exact .inl ⟨copy, rfl, rfl⟩
        | false =>
            refine .inr ?_
            dsimp only
            obtain ⟨⟨answer, d'⟩, s'⟩ := download web d url' n asked
            cases answer <;> rfl

/-- A visit concerns the copies for its name alone. -/
theorem fetch_frame {σ : Type} {web : Web σ} {url : String} {nonce : Nat} {s : σ}
    (hcopy : copyOf? n file = none) (htemporary : file ≠ temporary) :
    (fetch web d url nonce n s).1.2.find? file = d.find? file ∧
      (fetch web d url nonce n s).1.1 ≠ .ok file := by
  have hprior : ∀ copy, cached? d n = some copy → copy.file ≠ file := by
    rintro copy hcached rfl
    cases hcopy.symm.trans (copyOf?_of_cached? hcached)
  obtain hmalformed | ⟨url', ⟨copy, hcached, hcurrent⟩ | hasked⟩ := fetch_eq_or web d url nonce n s
  · rw [hmalformed]
    exact ⟨rfl, nofun⟩
  · rw [hcurrent]
    exact ⟨rfl, fun h => hprior copy hcached (Except.ok.inj h)⟩
  · rw [hasked]
    generalize (isCurrent web url' (cached? d n) s).2 = asked
    have hdownload : (download web d url' n asked).1.2.find? file = d.find? file ∧
        (download web d url' n asked).1.1 ≠ .ok file := download_frame hcopy htemporary
    generalize (download web d url' n asked).1 = result at hdownload ⊢
    obtain ⟨answer, d'⟩ := result
    obtain ⟨hkept, hanswer⟩ := hdownload
    cases hcached : cached? d n with
    | none => cases answer <;> exact ⟨hkept, hanswer⟩
    | some copy =>
        have hne := hprior copy hcached
        cases answer with
        | ok new =>
            refine ⟨?_, hanswer⟩
            dsimp only [settled]
            split
            case isTrue => exact hkept
            case isFalse => exact (find?_delete_of_ne hne.symm).trans hkept
        | error => exact ⟨hkept, fun h => hne (Except.ok.inj h)⟩

/-- Asking for the head of a file is no download. -/
theorem latest?_isCurrent (v : Visit) (url : Url) (copy : Option Copy) (log : List Exchange) :
    latest? (isCurrent v.web url copy log).2 = latest? log := by
  unfold isCurrent
  split
  case h_1 => rw [Visit.currentTag?_web, Visit.latest?_head]
  case h_2 => rfl

/-- A download that can be written is put in place. -/
theorem download_of_latest? {v : Visit} {r : Response} {url : Url} {log : List Exchange}
    (hlog : latest? log = none) (hlatest : latest? (download v.web d url n log).2 = some r)
    (hwritten : (d.install (r.file n) r.body).1 = true) :
    (download v.web d url n log).1 = (.ok (r.file n), (d.install (r.file n) r.body).2) := by
  have hasked : (download v.web d url n log).2 = log ++ [.get v.get] := by
    rw [download, Visit.web]
    cases v.get with
    | none => rfl
    | some q =>
        dsimp only
        split
        case isTrue => split <;> rfl
        case isFalse => rfl
  rw [hasked, Visit.latest?_get, hlog, Option.or_none, Option.filter_eq_some_iff] at hlatest
  obtain ⟨hget, hstatus⟩ := hlatest
  rw [Response.file] at hwritten ⊢
  rw [download, Visit.web, hget]
  dsimp only
  rw [if_pos (of_decide_eq_true hstatus)]
  generalize d.install (copyName n r.tag?) r.body = installed at hwritten ⊢
  obtain ⟨written, placed⟩ := installed
  obtain rfl : written = true := hwritten
  rfl

/-- A visit that downloads what can be written puts it in place and deletes the copy that was there
before. -/
theorem fetch_of_latest? {v : Visit} {r : Response}
    (hlatest : latest? (v.fetch n (d, [])).2 = some r)
    (hwritten : (d.install (r.file n) r.body).1 = true) :
    (v.fetch n (d, [])).1 =
      settled (cached? d n) (.ok (r.file n), (d.install (r.file n) r.body).2) := by
  have hnone : latest? [] = none := rfl
  rw [Visit.fetch] at hlatest ⊢
  obtain hmalformed | ⟨url, ⟨copy, -, hcurrent⟩ | hasked⟩ :=
    fetch_eq_or v.web d v.url v.nonce n []
  · rw [hmalformed] at hlatest
    cases hnone.symm.trans hlatest
  · rw [hcurrent, latest?_isCurrent] at hlatest
    cases hnone.symm.trans hlatest
  · rw [hasked] at hlatest ⊢
    rw [download_of_latest? (latest?_isCurrent v url _ []) hlatest hwritten]

/-- A look-up of the copy for a name, or a visit. -/
inductive Call where
  | lookUp (name : String)
  | fetch (name : String) (visit : Visit)
  deriving Repr, DecidableEq

namespace Call

/-- The name that a call is for. -/
def name : Call → String
  | lookUp name | fetch name _ => name

/-- The directory after a call. -/
def run (d : Directory) : Call → Directory
  | lookUp _ => d
  | fetch name v => (v.fetch name (d, [])).1.2

/-- The file that a call answers. -/
def answer? (d : Directory) : Call → Option String
  | lookUp name => (cached? d name).map Copy.file
  | fetch name v => (v.fetch name (d, [])).1.1.toOption

/-- The file that a call stores and what is in it: its download, if it makes one that can be
written. -/
def stored? (d : Directory) : Call → Option (String × List UInt8)
  | lookUp _ => none
  | fetch name v => (latest? (v.fetch name (d, [])).2).bind fun r =>
      if (d.install (r.file name) r.body).1 then some (r.file name, r.body) else none

/-- The directory after some calls. -/
def after (d : Directory) (calls : List Call) : Directory := calls.foldl run d

/-- A call has to do with a file: it answers the file or reads its tag, or it writes or deletes the
file. -/
inductive Touches (c : Call) (d : Directory) (file : String) : Prop
  | answers (h : c.answer? d = some file)
  | reads (tag : String) (h : cached? d c.name = some ⟨file, some tag⟩)
  | writes (content : List UInt8) (h : c.stored? d = some (file, content))
  | changes (h : (c.run d).find? file ≠ d.find? file)

variable {c : Call} {calls : List Call} {content : List UInt8}

theorem exists_of_stored? (h : c.stored? d = some (file, content)) : ∃ name v r,
    c = fetch name v ∧ latest? (v.fetch name (d, [])).2 = some r ∧
      (d.install (r.file name) r.body).1 = true ∧ file = r.file name ∧ content = r.body := by
  cases c with
  | lookUp name => cases h
  | fetch name v =>
      obtain ⟨r, hlatest, h⟩ := Option.bind_eq_some_iff.1 h
      split at h
      case isTrue hwritten =>
        cases h
        exact ⟨name, v, r, rfl, hlatest, hwritten, rfl, rfl⟩
      case isFalse => cases h

/-- What a call has stored is in the directory. -/
theorem read?_of_stored? (h : c.stored? d = some (file, content)) :
    (c.run d).read? file = some content := by
  obtain ⟨name, v, r, rfl, hlatest, hwritten, rfl, rfl⟩ := exists_of_stored? h
  have hplaced := find?_of_install hwritten
  rw [read?_eq_some_iff, run, fetch_of_latest? hlatest hwritten]
  dsimp only [settled]
  split
  case h_1 copy hcached =>
    split
    case isTrue => exact hplaced
    case isFalse hne => exact (find?_delete_of_ne (Ne.symm hne)).trans hplaced
  case h_2 => exact hplaced

/-- A call has nothing to do with a file that is no copy for its name. -/
theorem not_touches (hcopy : copyOf? c.name file = none) (htemporary : file ≠ temporary) :
    ¬ c.Touches d file := by
  have hcached : ∀ copy, cached? d c.name = some copy → copy.file ≠ file := by
    rintro copy hcached rfl
    cases hcopy.symm.trans (copyOf?_of_cached? hcached)
  intro htouches
  cases htouches with
  | answers h =>
      cases c with
      | lookUp name =>
          obtain ⟨copy, hcopy, hfile⟩ := Option.map_eq_some_iff.1 h
          exact hcached copy hcopy hfile
      | fetch name v =>
          rw [answer?] at h
          cases hresult : (v.fetch name (d, [])).1.1 with
          | error error =>
              rw [hresult] at h
              cases h
          | ok answer =>
              rw [hresult] at h
              cases h
              exact (fetch_frame hcopy htemporary).2 hresult
  | reads tag h => exact hcached _ h rfl
  | writes content h =>
      obtain ⟨name, v, r, rfl, -, -, rfl, -⟩ := exists_of_stored? h
      cases hcopy.symm.trans (r.copyOf?_file name)
  | changes h =>
      cases c with
      | lookUp name => exact h rfl
      | fetch name v => exact h (fetch_frame hcopy htemporary).1

/-! ## Runs -/

/-- Calls leave a file as it is that is no copy for any of their names. -/
theorem find?_after (hcopy : ∀ c ∈ calls, copyOf? c.name file = none)
    (htemporary : file ≠ temporary) : (after d calls).find? file = d.find? file := by
  induction calls generalizing d with
  | nil => rfl
  | cons c rest ih =>
      obtain ⟨hc, hrest⟩ := List.forall_mem_cons.1 hcopy
      have hstep : (c.run d).find? file = d.find? file :=
        not_ne_iff.1 fun hne => not_touches hc htemporary (.changes hne)
      exact (ih hrest).trans hstep

/-- A call for a name has stored a file. -/
def Stored (name : String) (d : Directory) (calls : List Call) (file : String) : Prop :=
  ∃ earlier c later content, calls = earlier ++ c :: later ∧ c.name = name ∧
    c.stored? (after d earlier) = some (file, content)

/-- No call for a name ever has to do with a file that a call for another one has stored. -/
def KeepOut (stored called : String) : Prop :=
  ∀ d calls file, Stored stored d calls file →
    ∀ c : Call, c.name = called → ¬ c.Touches (after d calls) file

/-- A file that a call for a name has stored keeps its content while calls are made for another one
alone. -/
def KeepContent (stored called : String) : Prop :=
  ∀ d (c : Call) later file content, c.name = stored → c.stored? d = some (file, content) →
    (∀ other ∈ later, other.name = called) → (after (c.run d) later).read? file = some content

/-- **Calls keep to the copies for their names** if neither of two names goes on from the other. -/
theorem keepOut_of_not_continues (hne : m ≠ n) (hmn : ¬ Continues m n) (hnm : ¬ Continues n m) :
    KeepOut m n := by
  rintro d calls file ⟨earlier, stored, later, content, -, rfl, hstored⟩ c rfl
  obtain ⟨name, v, r, rfl, -, -, rfl, -⟩ := exists_of_stored? hstored
  exact not_touches (copyOf?_file_eq_none hne hmn hnm r) r.file_ne_temporary

theorem keepContent_of_not_continues (hne : m ≠ n) (hmn : ¬ Continues m n)
    (hnm : ¬ Continues n m) : KeepContent m n := by
  rintro d c later file content rfl hstored hlater
  have hread := read?_of_stored? hstored
  obtain ⟨name, v, r, rfl, -, -, rfl, -⟩ := exists_of_stored? hstored
  have hcopy : ∀ other ∈ later, copyOf? other.name (r.file name) = none := fun other hother =>
    hlater other hother ▸ copyOf?_file_eq_none hne hmn hnm r
  rw [read?_eq_some_iff] at hread ⊢
  rw [find?_after hcopy r.file_ne_temporary, hread]

/-! ## A name that goes on from another one -/

/-- A file under a tag. -/
def taggedFile : Response := ⟨200, header "\"1\"", []⟩

/-- A visit during which the host sends the file. -/
def taggedVisit : Visit := ⟨"https://host/file", 7, none, some taggedFile⟩

theorem file_taggedFile (n : String) : taggedFile.file n = copyName n (some "1") := by
  have htag : taggedFile.tag? = some "1" := by decide +kernel
  rw [Response.file, htag]

theorem stored?_taggedVisit (hn : isFileName n)
    (hfits : (copyName n (some "1")).utf8ByteSize ≤ 255) :
    (fetch n taggedVisit).stored? .empty = some (taggedFile.file n, []) ∧
      (fetch n taggedVisit).run .empty = Directory.empty.placed (taggedFile.file n) [] := by
  rw [← file_taggedFile] at hfits
  have hholds : Holds n none .empty := ⟨rfl, nofun, fun _ => nofun, fun _ => nofun⟩
  have hplaced : Directory.empty.install (taggedFile.file n) taggedFile.body =
      (true, Directory.empty.placed (taggedFile.file n) taggedFile.body) :=
    install_eq_placed hholds.temporary (taggedFile.isFileName_file hn hfits)
      taggedFile.file_ne_temporary (hholds.noFolder taggedFile)
  have hvisit : taggedVisit.Fits n := by
    rintro r ⟨⟩ -
    exact hfits
  have hfetch : taggedVisit.fetch n (.empty, []) = _ :=
    Visit.fetch_of_knownTag?_ne hholds hn hvisit (by decide +kernel) nofun
  rw [stored?, run, hfetch]
  have hlatest : latest? ([] ++ taggedVisit.questions none ++ [.get taggedVisit.get]) =
      some taggedFile := by decide +kernel
  refine ⟨?_, rfl⟩
  rw [hlatest, Option.bind_some, hplaced]
  rfl

/-- The copy for the longer name is the answer for the shorter one. -/
theorem not_keepOut_of_continues (h : Continues m n) (hn : isFileName n)
    (hfits : (copyName n (some "1")).utf8ByteSize ≤ 255) : ¬ KeepOut n m := by
  obtain ⟨hstored, hrun⟩ := stored?_taggedVisit hn hfits
  intro hkeep
  refine hkeep .empty [fetch n taggedVisit] _ ⟨[], _, [], _, rfl, rfl, hstored⟩ (lookUp m) rfl
    (.answers ?_)
  obtain ⟨copy, hcopy⟩ := Option.isSome_iff_exists.1 (isSome_copyOf?_of_continues h "1")
  rw [← file_taggedFile] at hcopy
  have hlisting : (Directory.empty.placed (taggedFile.file n) []).listing =
      [(temporary, .folder), (taggedFile.file n, .file [])] := by
    rw [placed, listing_set, listing_set]
    exact if_neg taggedFile.file_ne_temporary.symm
  have hcached : cached? (Directory.empty.placed (taggedFile.file n) []) m = some copy := by
    rw [cached?, hlisting, List.findSome?_cons_of_isNone rfl, List.findSome?_cons_of_isSome]
    · exact hcopy
    · exact Option.isSome_iff_exists.2 ⟨copy, hcopy⟩
  show ((cached? ((fetch n taggedVisit).run .empty) m).map Copy.file) = _
  rw [hrun, hcached, Option.map_some, file_of_copyOf? hcopy]

/-- Calls for two names have nothing to do with each other's files, unless one name goes on from the
other. If one does, and its copies can be written, calls for the shorter name take them for copies
of their own. -/
theorem calls_keep_to_their_copies (hne : m ≠ n) :
    (¬ Continues m n → ¬ Continues n m → KeepOut m n ∧ KeepContent m n) ∧
    (Continues m n → isFileName n → (copyName n (some "1")).utf8ByteSize ≤ 255 → ¬ KeepOut n m) :=
  ⟨fun hmn hnm => ⟨keepOut_of_not_continues hne hmn hnm, keepContent_of_not_continues hne hmn hnm⟩,
    not_keepOut_of_continues⟩

/-- A file for a name that goes on from another one is in the directory, and a visit for the other
name replaces it. -/
theorem longer_name_loses_its_copy :
    KeepOut "primary" "primaryish" ∧ ¬ KeepOut "a--etag--b" "a" ∧
      let d := after .empty [fetch "a--etag--b" ⟨"https://host/b", 7, none, some ⟨200, none, [1]⟩⟩]
      d.read? "a--etag--b.config" = some [1] ∧
        cached? d "a" = some ⟨"a--etag--b.config", some "b"⟩ ∧
        ((fetch "a" ⟨"https://host/a", 8, none, some ⟨200, none, [2]⟩⟩).run d).read?
          "a--etag--b.config" = none :=
  ⟨((calls_keep_to_their_copies (by decide)).1 (by decide) (by decide)).1,
    (calls_keep_to_their_copies (by decide)).2 (by decide) (by decide) (by decide),
    by decide +kernel, by decide +kernel, by decide +kernel⟩

end Call

end Targeting.Download
