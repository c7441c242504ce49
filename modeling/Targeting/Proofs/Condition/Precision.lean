/-
# Knowing more types

The static check is told more or less about names and functions. What it is not told
is of unknown type, and the unknown type fits everywhere. So whatever the check accepts
with more knowledge it accepts with less, and the types that it finds are then the same
ones, or unknown. An operator is as good on an unknown operand as on any that it takes:
either its result has a fixed type, or the result becomes unknown as well.

Authoring tools read the names of a condition without any knowledge of properties, and
devices compile it with the types of the catalog. Both see the same tree, so the tools
name what the device will use. They may only accept more.
-/

import Mathlib.Data.List.Forall2
import Targeting.Condition.Program
import Targeting.Proofs.Condition.Typing

namespace Targeting.Condition

/-- A type that is the same as another one, as far as it is known. -/
def Ty.BlurOf (vague precise : Ty) : Prop := vague = precise ∨ vague = .unknown

/-- A scope that knows some of what another one knows. -/
structure Scope.KnowsLess (vague precise : Scope) : Prop where
  typeOf? : ∀ {name ty}, vague.typeOf? name = some ty → precise.typeOf? name = some ty
  checksCalls : vague.checksCalls = true → precise.checksCalls = true

theorem Scope.blank_knowsLess (precise : Scope) : blank.KnowsLess precise := ⟨nofun, nofun⟩

namespace Ty

@[simp]
theorem blurOf_refl (ty : Ty) : ty.BlurOf ty := .inl rfl

@[simp]
theorem unknown_blurOf (ty : Ty) : Ty.unknown.BlurOf ty := .inr rfl

variable {vague precise : Ty}

theorem BlurOf.isBoolLike (h : vague.BlurOf precise) (hprecise : precise.isBoolLike = true) :
    vague.isBoolLike = true := by
  obtain rfl | rfl := h
  · exact hprecise
  · rfl

theorem accepts_unknown (expected : Ty) : expected.accepts .unknown = true := by
  cases expected <;> rfl

/-- An argument that a parameter takes is taken as well when less is known of it. -/
theorem BlurOf.fits (h : vague.BlurOf precise) {expected : Ty}
    (hfits : (expected.accepts precise || precise = .nil) = true) :
    (expected.accepts vague || vague = .nil) = true := by
  obtain rfl | rfl := h
  · exact hfits
  · rw [accepts_unknown, Bool.true_or]

end Ty

/-! ## Operators -/

theorem UnaryOp.resultTy?_of_blurOf {op : UnaryOp} {operand operand' ty : Ty}
    (hoperand : operand'.BlurOf operand) (hty : op.resultTy? operand = some ty) :
    ∃ ty', op.resultTy? operand' = some ty' ∧ ty'.BlurOf ty := by
  obtain rfl | rfl := hoperand
  · exact ⟨ty, hty, ty.blurOf_refl⟩
  · cases op with
    | not =>
        simp only [resultTy?, Option.ite_none_right_eq_some] at hty
        exact ⟨.bool, rfl, .inl (Option.some.inj hty.2)⟩
    | neg => exact ⟨.unknown, rfl, ty.unknown_blurOf⟩

namespace BinaryOp

variable {op : BinaryOp} {left right left' right' ty : Ty}

/-- An operator with a fixed type takes an unknown operand in place of any that it takes. -/
theorem resultTy?_of_blurOf_of_fixedTy? {fixed : Ty} (hop : op.fixedTy? = some fixed)
    (hleft : left'.BlurOf left) (hright : right'.BlurOf right)
    (hty : op.resultTy? left right = some ty) : op.resultTy? left' right' = some ty := by
  obtain rfl := resultTy?_of_fixedTy? hop hty
  cases op <;> cases hop
  case eq | ne => rfl
  all_goals
    obtain rfl | rfl := hleft <;> obtain rfl | rfl := hright <;>
      simp_all [resultTy?, Ty.isBoolLike, Ty.isTextLike, Ty.isNumberLike]

/-- What stands in for an absent value is of unknown type if one of the two is, except that
nothing is lost when the value is known to be absent. -/
theorem coalesceTy_of_blurOf (hleft : left'.BlurOf left) (hright : right'.BlurOf right) :
    (coalesceTy left' right').BlurOf (coalesceTy left right) := by
  obtain rfl | rfl := hleft <;> obtain rfl | rfl := hright
  · exact Ty.blurOf_refl _
  · by_cases hnil : left' = .nil
    · simp [coalesceTy, hnil]
    · by_cases hunknown : left' = .unknown <;> simp [coalesceTy, hnil, hunknown]
  · simp [coalesceTy]
  · simp [coalesceTy]

theorem resultTy?_of_blurOf (hleft : left'.BlurOf left) (hright : right'.BlurOf right)
    (hty : op.resultTy? left right = some ty) :
    ∃ ty', op.resultTy? left' right' = some ty' ∧ ty'.BlurOf ty := by
  cases hop : op.fixedTy? with
  | some fixed =>
      exact ⟨ty, resultTy?_of_blurOf_of_fixedTy? hop hleft hright hty, ty.blurOf_refl⟩
  | none =>
      by_cases hcoalesce : op = coalesce
      · subst hcoalesce
        cases hty
        exact ⟨_, rfl, coalesceTy_of_blurOf hleft hright⟩
      · have hunknown (h : left' = .unknown ∨ right' = .unknown) :
            ∃ ty', op.resultTy? left' right' = some ty' ∧ ty'.BlurOf ty :=
          ⟨.unknown, resultTy?_of_unknown hop hcoalesce h, ty.unknown_blurOf⟩
        obtain rfl | hleft := hleft
        · obtain rfl | hright := hright
          · exact ⟨ty, hty, ty.blurOf_refl⟩
          · exact hunknown (.inr hright)
        · exact hunknown (.inl hleft)

end BinaryOp

/-! ## Calls -/

theorem checkArgs_of_blurOf {name : String} {position : Nat} {params types types' : List Ty}
    (hblur : List.Forall₂ Ty.BlurOf types' types)
    (h : checkArgs name position params types = .ok ()) :
    checkArgs name position params types' = .ok () := by
  induction hblur generalizing position params with
  | nil => exact h
  | @cons ty' ty types' types hty hblur ih =>
      cases params with
      | nil => rfl
      | cons expected params =>
          rw [checkArgs] at h ⊢
          split at h
          case isTrue hfits =>
              rw [if_pos (hty.fits hfits)]
              exact ih h
          case isFalse => cases h

section

variable {vague precise : Scope} {name : String}

theorem Scope.KnowsLess.readTy (hscope : vague.KnowsLess precise) (name : String) :
    (vague.readTy name).BlurOf (precise.readTy name) := by
  cases hconstant : DateText.constant? name with
  | some pattern =>
      rw [readTy_of_constant hconstant, readTy_of_constant hconstant]
      exact Ty.blurOf_refl _
  | none =>
      have hproperty (scope : Scope) : scope.readTy name = (scope.typeOf? name).getD .unknown := by
        rw [Scope.readTy, hconstant]
        rfl
      rw [hproperty, hproperty]
      cases hty : vague.typeOf? name with
      | none => exact Ty.unknown_blurOf _
      | some ty =>
          rw [hscope.typeOf? hty]
          exact Ty.blurOf_refl _

theorem callTy_of_blurOf (hscope : vague.KnowsLess precise) {types types' : List Ty} {ty : Ty}
    (hblur : List.Forall₂ Ty.BlurOf types' types) (h : callTy precise name types = .ok ty) :
    ∃ ty', callTy vague name types' = .ok ty' ∧ ty'.BlurOf ty := by
  by_cases hchecks : vague.checksCalls = true
  · rw [callTy, if_pos (hscope.checksCalls hchecks)] at h
    rw [callTy, if_pos hchecks]
    cases hfind : Builtin.find? name with
    | none => exact ⟨.unknown, rfl, ty.unknown_blurOf⟩
    | some function =>
        simp only [hfind] at h ⊢
        rw [hblur.length_eq]
        split at h
        case isTrue htakes =>
            obtain ⟨⟨⟩, hargs, h⟩ := exists_of_bind_eq_ok h
            rw [if_pos htakes, checkArgs_of_blurOf hblur hargs]
            cases h
            exact ⟨_, rfl, Ty.blurOf_refl _⟩
        case isFalse => cases h
  · exact ⟨.unknown, by rw [callTy, if_neg hchecks], ty.unknown_blurOf⟩

end

/-! ## Expressions -/

namespace Expr

variable {vague precise : Scope}

theorem inferAll_of_knowsLess {items : List Expr} {types : List Ty}
    (hitems : ∀ item ∈ items, ∀ ty, item.infer precise = .ok ty →
      ∃ ty', item.infer vague = .ok ty' ∧ ty'.BlurOf ty)
    (h : inferAll precise items = .ok types) :
    ∃ types', inferAll vague items = .ok types' ∧ List.Forall₂ Ty.BlurOf types' types := by
  induction items generalizing types with
  | nil =>
      rw [inferAll] at h
      cases h
      exact ⟨[], by rw [inferAll], .nil⟩
  | cons first rest ih =>
      obtain ⟨hfirst, hrest⟩ := List.forall_mem_cons.1 hitems
      rw [inferAll] at h
      obtain ⟨firstTy, hfirstTy, h⟩ := exists_of_bind_eq_ok h
      obtain ⟨restTypes, hrestTypes, h⟩ := exists_of_bind_eq_ok h
      cases h
      obtain ⟨firstTy', hfirstTy', hblur⟩ := hfirst firstTy hfirstTy
      obtain ⟨restTypes', hrestTypes', hblurs⟩ := ih hrest hrestTypes
      refine ⟨firstTy' :: restTypes', ?_, .cons hblur hblurs⟩
      rw [inferAll, hfirstTy', hrestTypes']
      rfl

/-- With less knowledge an expression has the same type, or an unknown one. -/
theorem infer_of_knowsLess (hscope : vague.KnowsLess precise) (e : Expr) :
    ∀ ty, e.infer precise = .ok ty → ∃ ty', e.infer vague = .ok ty' ∧ ty'.BlurOf ty := by
  induction e using Expr.induction with
  | literal e v hliteral =>
      intro ty h
      rw [infer_of_literalValue? hliteral] at h
      cases h
      exact ⟨v.ty, infer_of_literalValue? hliteral, Ty.blurOf_refl _⟩
  | list items ih =>
      intro ty h
      rw [infer] at h
      obtain ⟨types, htypes, h⟩ := exists_of_bind_eq_ok h
      cases h
      obtain ⟨types', htypes', -⟩ := inferAll_of_knowsLess ih htypes
      refine ⟨.list, ?_, Ty.blurOf_refl _⟩
      rw [infer, htypes']
      rfl
  | ident name =>
      intro ty h
      rw [infer] at h
      cases h
      exact ⟨_, by rw [infer], hscope.readTy name⟩
  | call name args ih =>
      intro ty h
      rw [infer] at h
      obtain ⟨types, htypes, h⟩ := exists_of_bind_eq_ok h
      obtain ⟨types', htypes', hblurs⟩ := inferAll_of_knowsLess ih htypes
      obtain ⟨ty', hty', hblur⟩ := callTy_of_blurOf hscope hblurs h
      refine ⟨ty', ?_, hblur⟩
      rw [infer, htypes']
      exact hty'
  | unary op operand ih =>
      intro ty h
      obtain ⟨operandTy, hoperand, hty⟩ := infer_unary_ok h
      obtain ⟨operandTy', hoperand', hblur⟩ := ih operandTy hoperand
      obtain ⟨ty', hty', hresult⟩ := UnaryOp.resultTy?_of_blurOf hblur hty
      refine ⟨ty', ?_, hresult⟩
      rw [infer, hoperand']
      simp only [bind, Except.bind, hty']
      rfl
  | binary op left right ihleft ihright =>
      intro ty h
      obtain ⟨leftTy, rightTy, hleft, hright, hpattern, hty⟩ := infer_binary_ok h
      obtain ⟨leftTy', hleft', hleftBlur⟩ := ihleft leftTy hleft
      obtain ⟨rightTy', hright', hrightBlur⟩ := ihright rightTy hright
      obtain ⟨ty', hty', hresult⟩ := BinaryOp.resultTy?_of_blurOf hleftBlur hrightBlur hty
      refine ⟨ty', ?_, hresult⟩
      rw [infer, hleft', hright', hpattern]
      simp only [bind, Except.bind, hty']
      rfl
  | conditional condition thenCase elseCase ihcond ihthen ihelse =>
      intro ty h
      obtain ⟨conditionTy, thenTy, elseTy, hcondition, hthen, helse, hbool, rfl⟩ :=
        infer_conditional_ok h
      obtain ⟨conditionTy', hcondition', hblur⟩ := ihcond conditionTy hcondition
      obtain ⟨thenTy', hthen', hthenBlur⟩ := ihthen thenTy hthen
      obtain ⟨elseTy', helse', helseBlur⟩ := ihelse elseTy helse
      refine ⟨if thenTy' = elseTy' then thenTy' else .unknown, ?_, ?_⟩
      · rw [infer, hcondition']
        simp only [bind, Except.bind, hblur.isBoolLike hbool, if_true, hthen', helse']
        rfl
      · -- The branches agree on a known type only if they do with more knowledge.
        obtain rfl | rfl := hthenBlur
        · obtain rfl | rfl := helseBlur
          · exact Ty.blurOf_refl _
          · right
            split
            · assumption
            · rfl
        · right
          split <;> rfl

/-- What is a condition with more knowledge is one with less. -/
theorem check_of_knowsLess (hscope : vague.KnowsLess precise) {e : Expr}
    (h : e.check precise = .ok ()) : e.check vague = .ok () := by
  rw [check] at h ⊢
  obtain ⟨ty, hty, h⟩ := exists_of_bind_eq_ok h
  obtain ⟨ty', hty', hblur⟩ := infer_of_knowsLess hscope e ty hty
  split at h
  case isTrue hbool =>
      rw [hty']
      simp only [bind, Except.bind, hblur.isBoolLike hbool, if_true]
      rfl
  case isFalse => cases h

end Expr

/-! ## Sources -/

section

variable {vague precise : Scope} {source : String}

theorem prepareTree_eq_ok_iff {root : Expr} : prepareTree precise source = .ok root ↔
    source ≠ "" ∧ ∃ tree, Expr.parse source = .ok tree ∧ tree.check precise = .ok () ∧
      root = tree.optimize := by
  rw [prepareTree]
  by_cases hempty : source = ""
  · simp [hempty]
  · cases hparse : Expr.parse source with
    | error err => simp [hempty]
    | ok tree =>
        cases hcheck : tree.check precise with
        | error err => simp [hempty, hcheck]
        | ok _ => simp [hempty, hcheck, eq_comm]

theorem prepareTree_of_parse {tree : Expr} (hparse : Expr.parse source = .ok tree)
    (hcheck : tree.check precise = .ok ()) : prepareTree precise source = .ok tree.optimize := by
  refine prepareTree_eq_ok_iff.2 ⟨?_, tree, hparse, hcheck, rfl⟩
  rintro rfl
  have hempty : Expr.parse "" = .error ⟨0, .unexpectedEnd⟩ := rfl
  rw [hempty] at hparse
  cases hparse

/-- A condition has the same tree whatever is known. -/
theorem prepareTree_of_knowsLess (hscope : vague.KnowsLess precise) {root : Expr}
    (h : prepareTree precise source = .ok root) : prepareTree vague source = .ok root := by
  obtain ⟨hsource, tree, hparse, hcheck, hroot⟩ := prepareTree_eq_ok_iff.1 h
  exact prepareTree_eq_ok_iff.2
    ⟨hsource, tree, hparse, Expr.check_of_knowsLess hscope hcheck, hroot⟩

/-- An error that is found before the check does not depend on what is known. -/
theorem prepareTree_eq_error_of_unread {err : Error}
    (hunread : err = .empty ∨ ∃ issue, err = .malformed issue)
    (h : prepareTree vague source = .error err) : prepareTree precise source = .error err := by
  rw [prepareTree] at h ⊢
  split at h
  case isTrue hempty => rw [if_pos hempty, h]
  case isFalse hsource =>
      rw [if_neg hsource]
      cases hparse : Expr.parse source with
      | error issue => simpa [hparse] using h
      | ok tree =>
          simp only [hparse] at h
          split at h <;> cases h
          obtain hunread | ⟨issue, hunread⟩ := hunread <;> cases hunread

end

/-- What is accepted with the types of some properties is accepted without any, and the names that
are then found are those of the program that is compiled. A source that cannot be read is refused
for the same reason by everybody. -/
theorem extractFields_of_typed (typeOf? : String → Option Ty) (source : String) :
    (∀ tree, Expr.parse source = .ok tree → tree.check (.typed typeOf?) = .ok () →
      tree.check .blank = .ok () ∧
        ∃ program, (prepareTree (.typed typeOf?) source).map Program.mk = .ok program ∧
          extractFields source = .ok program.fields) ∧
    (∀ program, compile source = .ok program → extractFields source = .ok program.fields) ∧
    ∀ err, (err = .empty ∨ ∃ issue, err = .malformed issue) →
      extractFields source = .error err →
        (prepareTree (.typed typeOf?) source).map Program.mk = .error err ∧
          compile source = .error err := by
  have hfields {scope : Scope} {root : Expr} (h : prepareTree scope source = .ok root) :
      extractFields source = .ok (Program.mk root).fields := by
    rw [extractFields, prepareTree_of_knowsLess scope.blank_knowsLess h]
    rfl
  refine ⟨fun tree hparse hcheck => ?_, fun program h => ?_, fun err hunread h => ?_⟩
  · have hroot := prepareTree_of_parse hparse hcheck
    refine ⟨Expr.check_of_knowsLess (Scope.blank_knowsLess _) hcheck, ⟨tree.optimize⟩, ?_,
      hfields hroot⟩
    rw [hroot]
    rfl
  · cases hroot : prepareTree .catalog source with
    | error err =>
        rw [compile, hroot] at h
        cases h
    | ok root =>
        rw [compile, hroot] at h
        cases h
        exact hfields hroot
  · cases hblank : prepareTree .blank source with
    | ok root =>
        rw [extractFields, hblank] at h
        cases h
    | error err' =>
        rw [extractFields, hblank] at h
        cases h
        have herror (scope : Scope) : (prepareTree scope source).map Program.mk = .error err := by
          rw [prepareTree_eq_error_of_unread hunread hblank]
          rfl
        exact ⟨herror _, herror _⟩

/-- A condition that uses the date of the installation has the same names for those who do not know
that it is a date. -/
theorem fields_of_recent_installation :
    let source := "now() - app_install_date > 5 || false && b"
    ∃ program, compile source = .ok program ∧
      program.fields = ⟨["app_install_date", "now"], ["app_install_date"], ["now"]⟩ ∧
      extractFields source = .ok program.fields ∧
      compile "a &&" = .error (.malformed ⟨4, .unexpectedEnd⟩) := by
  let tree : Expr := .binary .or (.binary .gt (.binary .sub (.call "now" [])
    (.ident "app_install_date")) (.int 5)) (.binary .and (.bool false) (.ident "b"))
  have hparse : Expr.parse "now() - app_install_date > 5 || false && b" = .ok tree := rfl
  have hcheck : tree.check .catalog = .ok () := by decide +kernel
  have hunread : extractFields "a &&" = .error (.malformed ⟨4, .unexpectedEnd⟩) := rfl
  obtain ⟨hread, -, -⟩ := extractFields_of_typed
    (fun name => (Catalog.kindOf? name).map Ty.ofKind) "now() - app_install_date > 5 || false && b"
  obtain ⟨-, program, hprogram, hfields⟩ := hread tree hparse hcheck
  obtain ⟨-, -, hrefused⟩ := extractFields_of_typed (fun _ => none) "a &&"
  refine ⟨program, hprogram, ?_, hfields, (hrefused _ (.inr ⟨_, rfl⟩) hunread).2⟩
  cases hprogram
  decide +kernel

end Targeting.Condition
