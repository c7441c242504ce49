/-
# What a signed file vouches for

A body comes out of a file only if the file is readable text, one of its blocks is a head, all
of its heads have a version that can be read, and the last of its bodies is not empty and has a
signature that the key verifies. Other blocks do not matter.
-/

import Targeting.Config.Container

namespace Targeting.Config

namespace Block

/-- Whether a block is a head. -/
def isHead (b : Block) : Bool := b.label = headLabel.toList

/-- Whether a block is a body. -/
def isBody (b : Block) : Bool := b.label = bodyLabel.toList

/-- Whether a head has a version of the format that can be read. -/
def isReadable (b : Block) : Bool := readsVersion ((b.header? versionHeader).getD "")

theorem not_isBody_of_isHead {b : Block} (h : b.isHead) : b.isBody = false := by
  rw [isBody, of_decide_eq_true h]
  decide

end Block

/-- A key has signed a block's bytes, and the signature is in the block. -/
structure BlockSigned (verifier : SigningKey) (block : Block) : Prop where
  nonempty : block.body ≠ []
  signature : ∃ signature, block.header? Block.signatureHeader = some signature ∧
    signature ≠ "" ∧ verifier.verify block.body signature

/-- The blocks of a file vouch for a body. -/
structure Vouched (verifier : SigningKey) (blocks : List Block) (body : List UInt8) : Prop where
  head : ∃ block ∈ blocks, block.isHead
  versions : ∀ block ∈ blocks, block.isHead → block.isReadable
  signed : ∃ block, (blocks.filter Block.isBody).getLast? = some block ∧ block.body = body ∧
    BlockSigned verifier block

/-- A file is a container of a body that a key has signed. -/
def Signed (verifier : SigningKey) (file body : List UInt8) : Prop :=
  ∃ text, String.fromUTF8? ⟨file.toArray⟩ = some text ∧
    Vouched verifier (blocksOf text.toList) body

/-- The blocks are gone through if all heads can be read. Then it is known whether there was a head
and which body was the last one. -/
theorem contents_eq_ok_iff {found result : Contents} {blocks : List Block} :
    contents found blocks = .ok result ↔
      (∀ block ∈ blocks, block.isHead → block.isReadable) ∧
        result = ⟨found.hasHead || blocks.any Block.isHead,
          (blocks.filter Block.isBody).getLast?.or found.body⟩ := by
  induction blocks generalizing found with
  | nil =>
      rw [contents, Except.ok.injEq]
      simpa using eq_comm
  | cons block rest ih =>
      by_cases hhead : block.label = Block.headLabel.toList
      · have hisHead : block.isHead := decide_eq_true hhead
        have hisBody := Block.not_isBody_of_isHead hisHead
        rw [contents, if_pos hhead, List.forall_mem_cons, List.any_cons, hisHead,
          List.filter_cons_of_neg (by simp [hisBody])]
        by_cases hversion : block.isReadable
        · simp only [Block.isReadable] at hversion
          simp [hversion, ih, Block.isReadable]
        · simp only [Block.isReadable] at hversion
          simp [hversion, Block.isReadable]
      · have hisHead : block.isHead = false := decide_eq_false hhead
        by_cases hbody : block.label = Block.bodyLabel.toList
        · have hisBody : block.isBody := decide_eq_true hbody
          rw [contents, if_neg hhead, if_pos hbody, ih, List.forall_mem_cons,
            List.filter_cons_of_pos hisBody, List.any_cons, hisHead, List.getLast?_cons]
          cases (rest.filter Block.isBody).getLast? <;> simp
        · have hisBody : block.isBody = false := decide_eq_false hbody
          rw [contents, if_neg hhead, if_neg hbody, ih, List.forall_mem_cons,
            List.filter_cons_of_neg (by simp [hisBody]), List.any_cons, hisHead]
          simp

theorem vouched_iff {verifier : SigningKey} {blocks : List Block} {body : List UInt8} :
    Vouched verifier blocks body ↔ ∃ block, contents ⟨false, none⟩ blocks = .ok ⟨true, some block⟩ ∧
      block.body = body ∧ BlockSigned verifier block := by
  simp only [contents_eq_ok_iff, Bool.false_or, Contents.mk.injEq, Option.or_none]
  constructor
  · rintro ⟨hhead, hversions, block, hlast, hsigned⟩
    exact ⟨block, ⟨hversions, (List.any_eq_true.2 hhead).symm, hlast.symm⟩, hsigned⟩
  · rintro ⟨block, ⟨hversions, hhead, hlast⟩, hsigned⟩
    exact ⟨List.any_eq_true.1 hhead.symm, hversions, block, hlast.symm, hsigned⟩

/-- A body comes out of a file exactly if the file is a container of it. -/
theorem openContainer_eq_ok_iff {verifier : SigningKey} {file body : List UInt8} :
    openContainer verifier file = .ok body ↔ Signed verifier file body := by
  rw [openContainer, Signed]
  cases htext : String.fromUTF8? ⟨file.toArray⟩ with
  | none => simp
  | some text =>
      simp only [Option.some.injEq, exists_eq_left', vouched_iff]
      constructor
      · intro h
        split at h
        case h_4 block hcontents =>
            split at h
            case isTrue => cases h
            case isFalse hnonempty =>
              split at h
              case h_1 => cases h
              case h_2 signature hsignature =>
                obtain ⟨hheader, hne⟩ := nonEmpty_eq_some_iff.1 hsignature
                split at h
                case isFalse => cases h
                case isTrue hverify =>
                  cases h
                  rw [List.isEmpty_iff] at hnonempty
                  exact ⟨block, hcontents, rfl, hnonempty, signature, hheader, hne, hverify⟩
        all_goals cases h
      · rintro ⟨block, hcontents, rfl, hnonempty, signature, hheader, hne, hverify⟩
        have hsignature : nonEmpty (block.header? Block.signatureHeader) = some signature :=
          nonEmpty_eq_some_iff.2 ⟨hheader, hne⟩
        simp [hcontents, hnonempty, hsignature, hverify]

/-- A configuration comes out of a file exactly if it is in a body that the file contains. -/
theorem ofContainer_eq_ok_iff {verifier : SigningKey} {engine : Condition.Engine}
    {file : List UInt8} {c : Config} :
    ofContainer verifier engine file = .ok c ↔
      ∃ body, Signed verifier file body ∧ ofJson engine body = .ok c := by
  simp only [← openContainer_eq_ok_iff]
  rw [ofContainer]
  cases openContainer verifier file with
  | error err => simp [bind, Except.bind]
  | ok body => simp [bind, Except.bind]

end Targeting.Config
