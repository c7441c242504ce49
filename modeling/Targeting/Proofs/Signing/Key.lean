/-
# Signatures as text

What signing answers is base64 text, so a signature can stand between characters that base64 does
not use.
-/

import Targeting.Proofs.Crypto.Base64
import Targeting.Signing.Key

namespace Targeting

/-- What signing answers, told by the secret number of the signature. -/
theorem Ecdsa.sign?_eq_some {secret k r s : Nat} {message : List UInt8}
    (hk : nonce? secret (messageNumber message) = some k)
    (hr : coordinate? (Curve.times k Curve.generator) = some r)
    (hs : Curve.inverse Curve.order k * (messageNumber message + r * secret) % Curve.order = s)
    (hne : ¬ (r = 0 ∨ s = 0)) : sign? secret message = some ⟨r, s⟩ := by
  unfold sign?
  revert hk hr hs
  -- What is computed is kept out of sight, or else it would be evaluated.
  generalize messageNumber message = hash
  generalize nonce? = nonce
  generalize coordinate? = coordinate
  generalize Curve.inverse Curve.order = inverse
  generalize Curve.order = order
  intro hk hr hs
  dsimp only
  rw [hk, Option.bind_eq_bind, Option.bind_some, hr, Option.bind_some, hs, if_neg hne]

namespace SigningKey

theorem sign_eq_ok {key : SigningKey} {secret : Nat} {message : List UInt8}
    {numbers : Ecdsa.Signature} (hsecret : key.secret = some secret)
    (hsign : Ecdsa.sign? secret message = some numbers) :
    key.sign message = .ok (textOf numbers.bytes) := by
  obtain ⟨sign?, hsame⟩ : ∃ f, f = Ecdsa.sign? := ⟨_, rfl⟩
  unfold SigningKey.sign
  rw [← hsame] at hsign ⊢
  rw [hsecret]
  dsimp only
  rw [hsign]

theorem exists_of_sign_eq_ok {key : SigningKey} {message : List UInt8} {signature : String}
    (h : key.sign message = .ok signature) :
    ∃ numbers : Ecdsa.Signature, signature.toList = Base64.encode numbers.bytes := by
  -- What is computed is kept out of sight, or else the cases would be evaluated.
  obtain ⟨sign?, hsign⟩ : ∃ f, f = Ecdsa.sign? := ⟨_, rfl⟩
  obtain ⟨bytesOf, hbytes⟩ : ∃ f, f = Ecdsa.Signature.bytes := ⟨_, rfl⟩
  unfold SigningKey.sign at h
  rw [← hsign, ← hbytes] at h
  rw [← hbytes]
  split at h
  case h_1 => cases h
  case h_2 secret _ =>
    split at h
    case h_1 numbers _ =>
      cases h
      exact ⟨numbers, String.toList_ofList⟩
    case h_2 => cases h

/-- A signature is base64 text, and not empty. -/
theorem signature_of_sign_eq_ok {key : SigningKey} {message : List UInt8} {signature : String}
    (h : key.sign message = .ok signature) :
    signature ≠ "" ∧ ∀ c ∈ signature.toList, Base64.IsWritten c := by
  obtain ⟨numbers, htext⟩ := exists_of_sign_eq_ok h
  have hbytes : numbers.bytes ≠ [] := List.cons_ne_nil _ _
  rw [htext]
  refine ⟨?_, Base64.forall_mem_encode _⟩
  rintro rfl
  exact Base64.encode_ne_nil hbytes htext.symm

end SigningKey

end Targeting
