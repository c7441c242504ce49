/-
# A sealed configuration opens

What is signed and written into a file comes out of it again, byte for byte, as long as the key's
own signature verifies. The latter is a property of the curve and a hypothesis here; everything
between the signature and the file is proved: base64, the armor of the blocks, and that reflowing
the text does no harm.
-/

import Targeting.Proofs.Config.Container
import Targeting.Proofs.Config.Reflow
import Targeting.Proofs.Crypto.Sha256
import Targeting.Proofs.Signing.Key

namespace Targeting

namespace Config

/-! ## The blocks of a container -/

/-- The block that says which version of the format a file has. -/
def headBlock : Block :=
  ⟨Block.headLabel.toList, [(Block.versionHeader.toList, formatVersion.toList)], []⟩

/-- The block with a body and its signature. -/
def bodyBlock (signature : String) (body : List UInt8) : Block :=
  ⟨Block.bodyLabel.toList, [(Block.signatureHeader.toList, signature.toList)], body⟩

theorem headBlock_isWritable : headBlock.IsWritable where
  label := by decide
  headers := by
    rw [headBlock, List.forall_mem_singleton]
    exact Block.isHeader_of_all (by decide) (by decide) (by decide)

theorem bodyBlock_isWritable {signature : String} (body : List UInt8)
    (h : ∀ c ∈ signature.toList, Base64.IsWritten c) : (bodyBlock signature body).IsWritable where
  label := by
    change '\n' ∉ Block.bodyLabel.toList
    decide
  headers := by
    have hplain : ∀ c ∈ signature.toList, Blank.isUnicode c = false := fun c hc =>
      (h c hc).plain.1
    have hfeed : '\n' ∉ signature.toList := fun hmem => absurd (hplain _ hmem) (by decide)
    rw [bodyBlock, List.forall_mem_singleton]
    exact Block.isHeader_of_all (by decide) hfeed (Blank.trim_eq_self hplain)

theorem container_toList (signature : String) (body : List UInt8) :
    (container signature body).toList =
      (headBlock.lines ++ (bodyBlock signature body).lines).flatMap fun line => line ++ ['\n'] :=
  String.toList_ofList

/-- The lines of a container are those of its blocks. -/
theorem lines_container {signature : String} (body : List UInt8)
    (h : ∀ c ∈ signature.toList, Base64.IsWritten c) :
    Split.lines (container signature body).toList =
      [headBlock, bodyBlock signature body].flatMap Block.lines := by
  rw [container_toList, Split.lines_flatMap]
  · simp
  · rw [List.forall_mem_append]
    exact ⟨headBlock_isWritable.lines, (bodyBlock_isWritable body h).lines⟩

theorem ne_nil_of_ofJson {engine : Condition.Engine} {body : List UInt8} {c : Config}
    (h : ofJson engine body = .ok c) : body ≠ [] := by
  rintro rfl
  cases h

theorem vouched_blocks {verifier : SigningKey} {signature : String} {body : List UInt8}
    (hbody : body ≠ []) (hsignature : signature ≠ "") (hverify : verifier.verify body signature) :
    Vouched verifier [headBlock, bodyBlock signature body] body where
  head := ⟨headBlock, List.mem_cons_self, by decide⟩
  versions := by
    rw [List.forall_mem_cons, List.forall_mem_singleton]
    exact ⟨fun _ => by decide, fun hhead => by cases hhead⟩
  signed := by
    refine ⟨bodyBlock signature body, by rfl, rfl, hbody, signature, ?_, hsignature, hverify⟩
    rw [Block.header?, bodyBlock, List.lookup_cons_self, Option.map_some, String.ofList_toList]

/-- A reflowed container has the two blocks, and they vouch for the body. -/
theorem openContainer_of_isReflowOf {verifier : SigningKey} {signature : String}
    {body : List UInt8} {file : String} (hbody : body ≠ []) (hsignature : signature ≠ "")
    (hwritten : ∀ c ∈ signature.toList, Base64.IsWritten c)
    (hverify : verifier.verify body signature)
    (hfile : IsReflowOf (container signature body) file) :
    openContainer verifier file.toUTF8.toList = .ok body := by
  have hblocks : blocksOf file.toList = [headBlock, bodyBlock signature body] := by
    rw [IsReflowOf, lines_container body hwritten] at hfile
    refine blocksOf_of_reflows ?_ hfile
    rw [List.forall_mem_cons, List.forall_mem_singleton]
    exact ⟨headBlock_isWritable, bodyBlock_isWritable body hwritten⟩
  rw [openContainer_eq_ok_iff, Signed]
  exact ⟨file, fromUTF8?_toUTF8 file, hblocks ▸ vouched_blocks hbody hsignature hverify⟩

/-- A container is a reflow of itself. -/
theorem isReflowOf_container {signature : String} (body : List UInt8)
    (hwritten : ∀ c ∈ signature.toList, Base64.IsWritten c) :
    IsReflowOf (container signature body) (container signature body) := by
  have hrefl := Reflows.refl [headBlock, bodyBlock signature body]
  have htext : (container signature body).toList =
      ([headBlock, bodyBlock signature body].flatMap Block.lines).flatMap
        fun line => line ++ ['\n'] := by
    rw [container_toList]
    simp
  rwa [IsReflowOf, lines_container body hwritten, htext]

/-- What is sealed is a valid configuration and its signature. -/
theorem sealContainer_eq_ok_iff {signer : SigningKey} {body : List UInt8} {text : String} :
    sealContainer signer body = .ok text ↔ (∃ c, ofJson ⟨.strict, []⟩ body = .ok c) ∧
      ∃ signature, signer.sign body = .ok signature ∧ text = container signature body := by
  -- As above, the signature is not to be computed.
  obtain ⟨sign, hsign⟩ : ∃ f, f = SigningKey.sign := ⟨_, rfl⟩
  unfold sealContainer
  rw [← hsign]
  cases ofJson ⟨.strict, []⟩ body with
  | error err => simp
  | ok c =>
      cases hsigned : sign signer body with
      | error err => simp
      | ok signature => simp [eq_comm]

/-- **A sealed configuration opens**, and so does every file that is a reflow of it. -/
theorem sealed_opens {signer : SigningKey} {body : List UInt8} {text : String}
    (hseal : sealContainer signer body = .ok text)
    (hverify : ∀ signature, signer.sign body = .ok signature →
      signer.publicOnly.verify body signature) :
    openContainer signer.publicOnly text.toUTF8.toList = .ok body ∧
      ∀ file, IsReflowOf text file →
        openContainer signer.publicOnly file.toUTF8.toList = .ok body := by
  obtain ⟨⟨c, hconfig⟩, signature, hsign, rfl⟩ := sealContainer_eq_ok_iff.1 hseal
  have hbody := ne_nil_of_ofJson hconfig
  obtain ⟨hsignature, hwritten⟩ := SigningKey.signature_of_sign_eq_ok hsign
  have hopens (file : String) (hfile : IsReflowOf (container signature body) file) :
      openContainer signer.publicOnly file.toUTF8.toList = .ok body :=
    openContainer_of_isReflowOf hbody hsignature hwritten (hverify signature hsign) hfile
  exact ⟨hopens _ (isReflowOf_container body hwritten), hopens⟩

/-! ## A sealed file -/

/-- The key with the secret one; its point is the generator. -/
def unitKey : SigningKey := ⟨Curve.generator, some 1⟩

/-- The bytes of `["v1","a"]`, a configuration with no more than a version and an app. -/
def shortBody : List UInt8 := [91, 34, 118, 49, 34, 44, 34, 97, 34, 93]

/-- Its signature under that key. -/
def shortSignature : String :=
  "MEUCIEm4P9UoS/Yh68R6frmSX8o5IHM9NDYovToMH7xH8afcAiEAm9lyugVdA1d43ZKi05saH5JW192GHii0t4u+8+mSD+8="

/-- The secret number of that signature, from nine keyed hashes. -/
theorem nonce_shortBody : Ecdsa.nonce? 1 (Ecdsa.messageNumber shortBody) = some
    16733863719681453803234129090333693189748628437316814652666247885379693608975 := by
  unfold Ecdsa.messageNumber Ecdsa.nonce? Ecdsa.Drbg.ofSeed Ecdsa.Drbg.update Ecdsa.Drbg.next?
    Hmac.digest Hmac.blockOf
  rw [Sha256.digest_eq]
  decide +kernel

theorem sign_shortBody : unitKey.sign shortBody = .ok shortSignature := by
  have hsign : Ecdsa.sign? 1 shortBody = some
      ⟨33344378363229897373377182283148390741534164022108061383666034936535286130652,
        70492689157661638620861691383132306813184929840029791662996980022477440815087⟩ :=
    Ecdsa.sign?_eq_some nonce_shortBody (by decide +kernel) (by decide +kernel) (by decide)
  have htext : SigningKey.textOf (Ecdsa.Signature.bytes
      ⟨33344378363229897373377182283148390741534164022108061383666034936535286130652,
        70492689157661638620861691383132306813184929840029791662996980022477440815087⟩) =
      shortSignature := by decide +kernel
  rw [SigningKey.sign_eq_ok rfl hsign, htext]

theorem verify_shortSignature : unitKey.publicOnly.verify shortBody shortSignature := by
  decide +kernel

theorem exists_ofJson_shortBody : ∃ c, ofJson ⟨.strict, []⟩ shortBody = .ok c := by
  have hok : (ofJson ⟨.strict, []⟩ shortBody).isOk := by decide +kernel
  cases hconfig : ofJson ⟨.strict, []⟩ shortBody with
  | error err => simp [hconfig, Except.isOk, Except.toBool] at hok
  | ok c => exact ⟨c, rfl⟩

/-- A sealed configuration opens with a remark in front of it, in a line that ends in a carriage
return and a line feed. -/
theorem remarked_opens : ∃ text, sealContainer unitKey shortBody = .ok text ∧
    openContainer unitKey.publicOnly ("# signed\r\n" ++ text).toUTF8.toList = .ok shortBody := by
  have hseal : sealContainer unitKey shortBody = .ok (container shortSignature shortBody) :=
    sealContainer_eq_ok_iff.2 ⟨exists_ofJson_shortBody, shortSignature, sign_shortBody, rfl⟩
  have hverify : ∀ signature, unitKey.sign shortBody = .ok signature →
      unitKey.publicOnly.verify shortBody signature := by
    intro signature hsign
    rw [sign_shortBody, Except.ok.injEq] at hsign
    exact hsign ▸ verify_shortSignature
  have hremark : IsRemark "# signed".toList := ⟨by decide, by decide⟩
  have hlaid : LaidOut "# signed".toList "# signed\r\n".toList :=
    ⟨[], [], ['\r', '\n'], List.forall_mem_nil _, List.forall_mem_nil _, .inr rfl, by decide⟩
  have hwritten := (SigningKey.signature_of_sign_eq_ok sign_shortBody).2
  refine ⟨_, hseal, (sealed_opens hseal hverify).2 _ ?_⟩
  rw [IsReflowOf, String.toList_append]
  exact .remark hremark hlaid (isReflowOf_container shortBody hwritten)

end Config

end Targeting
