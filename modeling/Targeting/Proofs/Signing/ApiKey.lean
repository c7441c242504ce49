/-
# An API key and its text

The text of a key says everything there is to know about the key, and the key gives back every
character of the text. A text is read exactly if it is put together of a mark and a version, the
properties in base64, and a signature, with a dash in front of all but the first. There is only one
way to take it apart, as none of these has a dash in it.

So what is signed settles the version and the properties, in the order in which they are written,
whoever wrote them. A key that was issued has them in the order of their names.
-/

import Targeting.Proofs.Crypto.Sha256
import Targeting.Proofs.Number.Digits
import Targeting.Proofs.Signing.Key
import Targeting.Proofs.Text.Parts
import Targeting.Proofs.Text.SortedNames
import Targeting.Signing.ApiKey

namespace Targeting.ApiKey

variable {text : String} {key : ApiKey} {signer : SigningKey} {version : Nat}
  {property : String × String} {properties written : List (String × String)}

/-! ## Texts of keys -/

/-- What is signed of a key spells a version and properties: the mark with a numeral, and then a
dash and base64 text for each property, in the order in which they are written. -/
def Spells (signed : String) (version : Nat) (written : List (String × String)) : Prop :=
  ∃ (numeral : List Char) (parts : List (List Char)),
    '-' ∉ numeral ∧ Digits.unsigned? numeral = some version ∧
    (∀ part ∈ parts, '-' ∉ part) ∧ parts.mapM readProperty? = some written ∧
    signed.toList = mark.toList ++ numeral ++ parts.flatMap ('-' :: ·)

/-- A key that has a text: what is signed spells its version and its properties. -/
structure WellFormed (key : ApiKey) : Prop where
  signature : '-' ∉ key.signature.toList
  version_lt : key.version < 2 ^ 32
  bundle : (key.properties.lookup bundleName).isSome
  spelled : ∃ written, Spells key.signed key.version written ∧
    key.properties = NameMap.ofList written

theorem dash_not_mem_mark : '-' ∉ mark.toList := by decide

theorem toList_render (key : ApiKey) :
    key.render.toList = key.signed.toList ++ '-' :: key.signature.toList := by
  simp [render]

/-- The mark with the numeral is the first part of what is signed, the properties are the others. -/
theorem on_dash_of_spells {signed : String} {numeral : List Char} {parts : List (List Char)}
    (hnumeral : '-' ∉ numeral) (hparts : ∀ part ∈ parts, '-' ∉ part)
    (hsigned : signed.toList = mark.toList ++ numeral ++ parts.flatMap ('-' :: ·)) :
    Split.on '-' signed.toList = (mark.toList ++ numeral) :: parts := by
  rw [Split.on_eq_cons_iff, List.forall_mem_cons]
  exact ⟨⟨by simp [dash_not_mem_mark, hnumeral], hparts⟩, hsigned⟩

/-- What is signed has only one reading. -/
theorem Spells.unique {signed : String} {version' : Nat} {written' : List (String × String)}
    (h : Spells signed version written) (h' : Spells signed version' written') :
    version = version' ∧ written = written' := by
  obtain ⟨numeral, parts, hnumeral, hversion, hparts, hwritten, hsigned⟩ := h
  obtain ⟨numeral', parts', hnumeral', hversion', hparts', hwritten', hsigned'⟩ := h'
  have hcuts := on_dash_of_spells hnumeral hparts hsigned
  rw [on_dash_of_spells hnumeral' hparts' hsigned', List.cons.injEq, List.append_cancel_left_eq]
    at hcuts
  obtain ⟨rfl, rfl⟩ := hcuts
  rw [hversion, Option.some.injEq] at hversion'
  rw [hwritten, Option.some.injEq] at hwritten'
  exact ⟨hversion', hwritten'⟩

/-- The first dash ends the first part, whichever way a text was put together. -/
theorem eq_of_append_dash {head head' tail tail' : List Char} (hhead : '-' ∉ head)
    (hhead' : '-' ∉ head') (h : head ++ '-' :: tail = head' ++ '-' :: tail') : head = head' := by
  have hcut : Split.once '-' (head ++ '-' :: tail) = some (head, tail) := Split.once_append hhead
  rw [h, Split.once_append hhead', Option.some.injEq, Prod.mk.injEq] at hcut
  exact hcut.1.symm

/-! ## Reading -/

/-- Nothing is lost when a key is read. -/
theorem wellFormed_of_parse? (h : parse? text = some key) : text = key.render ∧ key.WellFormed := by
  simp only [parse?, Option.bind_eq_bind, Option.bind_eq_some_iff] at h
  obtain ⟨rest, hrest, ⟨numeral, tail⟩, hnumeral, version, hversion, ⟨signed, signature⟩, hsigned,
    ⟨head, body⟩, hhead, written, hwritten, hkey⟩ := h
  have hmark := Split.afterStart?_eq_some_iff.1 hrest
  obtain ⟨hnumeralDash, rfl⟩ := Split.once_eq_some_iff.1 hnumeral
  obtain ⟨hsignatureDash, htext⟩ := Split.onceLast_eq_some_iff.1 hsigned
  obtain ⟨hheadDash, rfl⟩ := Split.once_eq_some_iff.1 hhead
  obtain ⟨first, others, hparts⟩ : ∃ first others, Split.on '-' body = first :: others :=
    List.exists_cons_of_ne_nil (Split.on_ne_nil body)
  obtain ⟨hpartsDash, hbody⟩ := Split.on_eq_cons_iff.1 hparts
  -- The numeral was cut off the whole text, the properties were cut off what is signed.
  have hsame : mark.toList ++ numeral = head := by
    apply eq_of_append_dash (by simp [dash_not_mem_mark, hnumeralDash]) hheadDash
    rw [List.append_assoc, ← hmark, htext, List.append_assoc]
    rfl
  subst hsame
  split at hkey
  case isFalse => cases hkey
  case isTrue hvalid =>
    cases hkey
    constructor
    · rw [← String.toList_inj, toList_render, htext]
      simp
    · refine ⟨by simpa using hsignatureDash, hvalid.1, hvalid.2, written, ?_, rfl⟩
      refine ⟨numeral, first :: others, hnumeralDash, hversion, hpartsDash, hparts ▸ hwritten, ?_⟩
      rw [hbody, String.toList_ofList]
      rfl

/-- The text of a key is read. -/
theorem parse?_render (h : key.WellFormed) : parse? key.render = some key := by
  obtain ⟨hsignature, hversion, hbundle, written, hspells, hproperties⟩ := h
  obtain ⟨numeral, parts, hnumeralDash, hnumeral, hpartsDash, hparts, hsigned⟩ := hspells
  obtain ⟨first, others, rfl⟩ : ∃ first others, parts = first :: others := by
    cases parts with
    | cons first others => exact ⟨first, others, rfl⟩
    | nil =>
        cases hparts
        rw [hproperties] at hbundle
        cases hbundle
  set body := first ++ others.flatMap ('-' :: ·) with hbody
  have hhead : '-' ∉ mark.toList ++ numeral := by simp [dash_not_mem_mark, hnumeralDash]
  have hsigned : key.signed.toList = (mark.toList ++ numeral) ++ '-' :: body := hsigned
  have htext : key.render.toList =
      mark.toList ++ (numeral ++ '-' :: (body ++ '-' :: key.signature.toList)) := by
    rw [toList_render, hsigned]
    simp
  have hrest := Split.afterStart?_eq_some_iff.2 htext
  have hcutSignature := Split.onceLast_eq_some_iff.2 ⟨hsignature, toList_render key⟩
  have hcutBody := Split.once_eq_some_iff.2 ⟨hhead, hsigned⟩
  have hcutParts := Split.on_eq_cons_iff.2 ⟨hpartsDash, hbody⟩
  simp only [parse?, Option.bind_eq_bind, Option.bind_eq_some_iff]
  refine ⟨_, hrest, _, Split.once_append hnumeralDash, _, hnumeral, _, hcutSignature, _,
    hcutBody, written, hcutParts ▸ hparts, ?_⟩
  rw [← hproperties, if_pos ⟨hversion, hbundle⟩, String.ofList_toList, String.ofList_toList]

/-- The texts that are read are those of keys, and each of one key only. -/
theorem parse?_eq_some_iff : parse? text = some key ↔ text = key.render ∧ key.WellFormed := by
  constructor
  · exact wellFormed_of_parse?
  · rintro ⟨rfl, h⟩
    exact parse?_render h

/-! ## Issuing -/

theorem isWritable_iff :
    isWritable property ↔ property.1 ≠ "" ∧ property.2 ≠ "" ∧ ':' ∉ property.1.toList := by
  simp [isWritable, and_assoc]

theorem readProperty?_writeProperty (h : isWritable property) :
    readProperty? (writeProperty property) = some property := by
  obtain ⟨hname, hvalue, hcolon⟩ := isWritable_iff.1 h
  have hcut : Split.once ':' (property.1 ++ ":" ++ property.2).toList =
      some (property.1.toList, property.2.toList) :=
    Split.once_eq_some_iff.2 ⟨hcolon, by simp⟩
  have hparts : ¬ (property.1.toList = [] ∨ property.2.toList = []) := by simp [hname, hvalue]
  simp only [readProperty?, writeProperty, Base64.decode?_encode, fromUTF8?_toUTF8, hcut,
    if_neg hparts, Option.bind_eq_bind, Option.bind_some, String.ofList_toList]

theorem mapM_readProperty?_writeProperty (h : ∀ property ∈ properties, isWritable property) :
    (properties.map writeProperty).mapM readProperty? = some properties := by
  induction properties with
  | nil => rfl
  | cons property rest ih =>
      obtain ⟨hproperty, hrest⟩ := List.forall_mem_cons.1 h
      rw [List.map_cons, List.mapM_cons, readProperty?_writeProperty hproperty, ih hrest]
      rfl

/-- What is signed of an issued key spells the properties in the order in which they were given. -/
theorem spells_signedPart (h : ∀ property ∈ properties, isWritable property) :
    Spells (signedPart properties) currentVersion properties := by
  refine ⟨Digits.ofNat currentVersion, properties.map writeProperty, ?_, Digits.unsigned?_ofNat _,
    ?_, mapM_readProperty?_writeProperty h, ?_⟩
  · intro hdash
    exact absurd (Digits.isDigit_of_mem_ofNat hdash) (by decide)
  · intro part hpart hdash
    obtain ⟨property, -, rfl⟩ := List.mem_map.1 hpart
    exact (Base64.forall_mem_encode _ _ hdash).plain.2.2 rfl
  · rw [signedPart, String.toList_ofList, List.flatMap_map]

/-- A key may be issued with some properties: there is a bundle identifier, all have a name without
a colon and a value. -/
structure IsIssuable (properties : List (String × String)) : Prop where
  bundle : ∃ bundle, properties.lookup bundleName = some bundle
  name : ∀ property ∈ properties, property.1 ≠ "" ∧ ':' ∉ property.1.toList
  value : ∀ property ∈ properties, property.2 ≠ ""

theorem IsIssuable.isWritable (h : IsIssuable properties) :
    ∀ property ∈ properties, isWritable property := by
  intro property hproperty
  exact isWritable_iff.2
    ⟨(h.name _ hproperty).1, h.value _ hproperty, (h.name _ hproperty).2⟩

theorem isIssuable_iff : IsIssuable properties ↔
    issue.nonEmptyValue (properties.lookup bundleName) ∧ properties.all ApiKey.isWritable := by
  constructor
  · intro h
    obtain ⟨bundle, hbundle⟩ := h.bundle
    have hmem : (bundleName, bundle) ∈ properties := by
      obtain ⟨before, after, rfl, -⟩ := List.lookup_eq_some_iff.1 hbundle
      exact List.mem_append_right _ List.mem_cons_self
    refine ⟨?_, List.all_eq_true.2 h.isWritable⟩
    rw [hbundle]
    exact decide_eq_true (h.value _ hmem)
  · rintro ⟨hbundle, hall⟩
    have hwritable : ∀ property ∈ properties, ApiKey.isWritable property := List.all_eq_true.1 hall
    refine ⟨?_, fun property hproperty => ?_, fun property hproperty => ?_⟩
    · cases hlookup : properties.lookup bundleName with
      | none => simp [hlookup, issue.nonEmptyValue] at hbundle
      | some bundle => exact ⟨bundle, rfl⟩
    · have h := isWritable_iff.1 (hwritable _ hproperty)
      exact ⟨h.1, h.2.2⟩
    · exact (isWritable_iff.1 (hwritable _ hproperty)).2.1

/-- A key is issued if it may be and if the signer can sign. -/
theorem issue_eq_ok_iff :
    issue properties signer = .ok key ↔ IsIssuable properties ∧
      ∃ signature, signer.sign (signedPart properties).toUTF8.toList = .ok signature ∧
        key = ⟨signedPart properties, signature, currentVersion, properties⟩ := by
  rw [isIssuable_iff]
  simp only [issue]
  -- The signature is kept out of sight, or else it would be computed.
  generalize signer.sign (signedPart properties).toUTF8.toList = signed
  split
  case isFalse hrefused => simp only [hrefused, false_and, reduceCtorEq]
  case isTrue hissuable =>
    cases signed with
    | error error => simp
    | ok signature => simp [-List.all_eq_true, hissuable, eq_comm]

/-- A key that was issued has a text. -/
theorem wellFormed_of_issue (hsorted : NameMap.IsSorted properties)
    (h : issue properties signer = .ok key) : key.WellFormed := by
  obtain ⟨hissuable, signature, hsign, rfl⟩ := issue_eq_ok_iff.1 h
  obtain ⟨-, hbase64⟩ := SigningKey.signature_of_sign_eq_ok hsign
  obtain ⟨bundle, hbundle⟩ := hissuable.bundle
  constructor
  case signature => exact fun hdash => (hbase64 _ hdash).plain.2.2 rfl
  case version_lt => exact Nat.one_lt_two_pow (by decide)
  case bundle => rw [hbundle, Option.isSome_some]
  case spelled =>
    exact ⟨properties, spells_signedPart hissuable.isWritable,
      (NameMap.ofList_eq_self hsorted).symm⟩

/-! ## Keys and texts -/

/-- Verifying a key that was read is verifying what stands before the last dash of its text. -/
theorem verify_of_parse? (h : parse? text = some key) : ∃ before after,
    text.toList = before ++ '-' :: after ∧ '-' ∉ after ∧ ∀ verifier : SigningKey,
      key.verify verifier =
        verifier.verify (String.ofList before).toUTF8.toList (String.ofList after) := by
  obtain ⟨rfl, hkey⟩ := wellFormed_of_parse? h
  refine ⟨key.signed.toList, key.signature.toList, toList_render key, hkey.signature, ?_⟩
  intro verifier
  rw [verify, String.ofList_toList, String.ofList_toList]

/-- A signer that can sign issues a key with any properties that may be in one, and with no
others. -/
theorem exists_issue_eq_ok_iff : (∃ key, issue properties signer = .ok key) ↔
    IsIssuable properties ∧
      ∃ signature, signer.sign (signedPart properties).toUTF8.toList = .ok signature := by
  constructor
  · rintro ⟨key, hissue⟩
    obtain ⟨hissuable, signature, hsign, -⟩ := issue_eq_ok_iff.1 hissue
    exact ⟨hissuable, signature, hsign⟩
  · rintro ⟨hissuable, signature, hsign⟩
    exact ⟨_, issue_eq_ok_iff.2 ⟨hissuable, signature, hsign, rfl⟩⟩

/-- **A key and its text say the same.** A key that was issued is read back from its text, with
every property. A text that is read is the text of its key, character for character, and what is
verified of it stands before its last dash. Properties that are written differently, be it in
another order, are never signed by the same bytes. -/
theorem text_says_key :
    (∀ (properties : List (String × String)) (signer : SigningKey), NameMap.IsSorted properties →
      ((∃ key, issue properties signer = .ok key) ↔ IsIssuable properties ∧
        ∃ signature, signer.sign (signedPart properties).toUTF8.toList = .ok signature) ∧
      ∀ key, issue properties signer = .ok key →
        key.properties = properties ∧ parse? key.render = some key) ∧
    (∀ (text : String) (key : ApiKey), parse? text = some key →
      key.render = text ∧
      (∃ before after, text.toList = before ++ '-' :: after ∧ '-' ∉ after ∧
        ∀ verifier : SigningKey, key.verify verifier =
          verifier.verify (String.ofList before).toUTF8.toList (String.ofList after)) ∧
      ∃ written, Spells key.signed key.version written ∧
        key.properties = NameMap.ofList written ∧
        ∀ signed version written', Spells signed version written' → written' ≠ written →
          signed.toUTF8.toList ≠ key.signed.toUTF8.toList) := by
  constructor
  · intro properties signer hsorted
    refine ⟨exists_issue_eq_ok_iff, ?_⟩
    intro key hissue
    obtain ⟨-, signature, -, hkey⟩ := issue_eq_ok_iff.1 hissue
    exact ⟨by rw [hkey], parse?_render (wellFormed_of_issue hsorted hissue)⟩
  · intro text key hread
    obtain ⟨htext, hkey⟩ := wellFormed_of_parse? hread
    obtain ⟨written, hspells, hproperties⟩ := hkey.spelled
    refine ⟨htext.symm, verify_of_parse? hread, written, hspells, hproperties, ?_⟩
    intro signed version written' hspells' hne hbytes
    rw [eq_of_toUTF8_toList_eq hbytes] at hspells'
    exact hne (hspells'.unique hspells).2

/-! ## A key with a note -/

/-- Properties with a note, in which there are a colon, a dash and a letter beyond ASCII. -/
def noted : List (String × String) := [("b", "com.example"), ("note", "früh: a-b")]

/-- The secret number of the signature of that key. -/
theorem nonce_noted : Ecdsa.nonce? 1 (Ecdsa.messageNumber (signedPart noted).toUTF8.data.toList) =
    some 90574014914264300879361875636003452969305251488817619319201886434575724554513 := by
  unfold Ecdsa.messageNumber Ecdsa.nonce? Ecdsa.Drbg.ofSeed Ecdsa.Drbg.update Ecdsa.Drbg.next?
    Hmac.digest Hmac.blockOf
  rw [Sha256.digest_eq]
  decide +kernel

theorem exists_sign_noted : ∃ signature, (SigningKey.mk Curve.generator (some 1)).sign
    (signedPart noted).toUTF8.toList = .ok signature := by
  rw [toUTF8_toList]
  have hsign : Ecdsa.sign? 1 (signedPart noted).toUTF8.data.toList = some
      ⟨13571944648789651943211104069777337817643654184244651412351937251252421696268,
        81863812015431714268641506507342577576494579456080101214024198495776429647301⟩ :=
    Ecdsa.sign?_eq_some nonce_noted (by decide +kernel) (by decide +kernel) (by decide)
  exact ⟨_, SigningKey.sign_eq_ok rfl hsign⟩

/-- The key with the note is read back, and without the note other bytes would be signed. -/
theorem noted_key_reads_back : ∃ key, issue noted ⟨Curve.generator, some 1⟩ = .ok key ∧
    parse? key.render = some key ∧ key.properties = noted ∧
      (signedPart [("b", "com.example")]).toUTF8.toList ≠ key.signed.toUTF8.toList := by
  have hsorted : NameMap.IsSorted noted := by
    unfold noted
    simp only [NameMap.IsSorted, List.pairwise_cons]
    decide
  have hissuable : IsIssuable noted := ⟨⟨_, rfl⟩, by decide, by decide⟩
  obtain ⟨hissues, hreads⟩ := text_says_key.1 noted ⟨Curve.generator, some 1⟩ hsorted
  obtain ⟨key, hissue⟩ := hissues.2 ⟨hissuable, exists_sign_noted⟩
  obtain ⟨hproperties, hread⟩ := hreads key hissue
  obtain ⟨-, -, written, hspells, hwritten, hbytes⟩ := text_says_key.2 key.render key hread
  refine ⟨key, hissue, hread, hproperties, hbytes _ _ _ (spells_signedPart (by decide)) ?_⟩
  rintro rfl
  rw [hproperties] at hwritten
  exact absurd hwritten (by decide)

end Targeting.ApiKey
