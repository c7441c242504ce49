/-
# Arithmetic is exact

What arithmetic computes on words is what it stands for on the unbounded integers, or it is
an error. This is carried from the numerals through the whole expression. A numeral that
can be read is its number. The reader negates integers in words, which is exact because the
least word cannot come out of reading: a numeral is not negative, and the negation of any
other word is not the least one. Operators compute on unbounded integers and answer only
with words, and a remainder of words always is a word, also that of the least word by minus
one. Simplification computes parts early but by the same operators, so it changes nothing.

An error therefore has a cause among the parts: one whose exact value is no word, or a
divisor that is exactly zero. Apart from these there are only operators that do not take
times, and where all values are integers there is no such error.
-/

import Targeting.Proofs.Condition.Arithmetic
import Targeting.Proofs.Condition.Simplification
import Targeting.Proofs.Condition.Typing

namespace Targeting.Condition

open Run (EndsIn)

theorem Value.eq_of_asMillis? {v : Value} {i : Int64} (h : v.asMillis? = some i) :
    v = int i ∨ v = time i := by
  cases v <;> cases h
  · exact .inl rfl
  · exact .inr rfl

/-! ## Operators -/

namespace ArithOp

/-- The operator on unbounded integers. The remainder has the sign of the dividend. -/
def compute (op : ArithOp) (x y : Int) : Option Int :=
  match op with
  | add => some (x + y)
  | sub => some (x - y)
  | mul => some (x * y)
  | rem => if y = 0 then none else some (x.tmod y)

/-- What an operator may give for numbers: the exact result, or an error that has a cause. -/
inductive Gives (op : ArithOp) (a b : Value) (x y : Int) : Except EvalError Value → Prop
  | exact {v : Value} {k : Int64} : v.asMillis? = some k → op.compute x y = some k.toInt →
      (v.ty = .time → a.ty = .time ∨ b.ty = .time) → Gives op a b x y (.ok v)
  | overflow {z : Int} : op.compute x y = some z → Word.ofInt? z = none →
      Gives op a b x y (.error .integerOverflow)
  | division : op = rem → y = 0 → Gives op a b x y (.error .divideByZero)
  | mismatch : (a.ty = .time ∨ b.ty = .time) →
      Gives op a b x y (.error (.binaryOperands op.op a.ty b.ty))

variable {op : ArithOp} {a b : Value} {i j : Int64} {x y z : Int}

/-- Where the exact result is asked for as a word, it is given or there is an overflow. -/
theorem gives_exactly (wrap : Int64 → Value) (hwrap : ∀ k, (wrap k).asMillis? = some k)
    (hcompute : op.compute x y = some z)
    (htime : ∀ k, (wrap k).ty = .time → a.ty = .time ∨ b.ty = .time) :
    op.Gives a b x y (exactly wrap (Word.ofInt? z)) := by
  cases hword : Word.ofInt? z with
  | none => exact .overflow hcompute hword
  | some k =>
      rw [← Word.toInt_of_ofInt? hword] at hcompute
      exact .exact (hwrap k) hcompute (htime k)

theorem toInt_rem (i j : Int64) : (Int64.ofInt (i.toInt.tmod j.toInt)).toInt =
    i.toInt.tmod j.toInt := by
  rw [← Int64.toInt_mod, Int64.ofInt_toInt]

/-- A remainder of words is a word. -/
theorem gives_rem (i j : Int64) :
    rem.Gives (.int i) (.int j) i.toInt j.toInt (BinaryOp.rem.apply (.int i) (.int j)) := by
  simp only [BinaryOp.apply, Word.rem?]
  by_cases hj : j = 0
  · rw [if_pos hj]
    exact .division rfl (by rw [hj]; rfl)
  · have hne : j.toInt ≠ 0 := fun h => hj (Int64.toInt_inj.1 h)
    rw [if_neg hj]
    exact .exact rfl (by rw [toInt_rem, compute, if_neg hne]) (by simp [Value.ty])

/-- The operators of conditions give the exact results. -/
theorem gives_apply (op : ArithOp) (ha : a.asMillis? = some i) (hb : b.asMillis? = some j) :
    op.Gives a b i.toInt j.toInt (op.op.apply a b) := by
  have hsum : i.toInt + j.toInt = j.toInt + i.toInt := Int.add_comm _ _
  obtain rfl | rfl := Value.eq_of_asMillis? ha <;> obtain rfl | rfl := Value.eq_of_asMillis? hb <;>
    cases op
  case inl.inl.rem => exact gives_rem i j
  case inl.inl.add | inl.inl.sub | inl.inl.mul | inl.inr.sub | inr.inr.sub =>
    exact gives_exactly .int (fun _ => rfl) rfl (by simp [Value.ty])
  case inr.inl.add | inr.inl.sub =>
    exact gives_exactly .time (fun _ => rfl) rfl (by simp [Value.ty])
  case inl.inr.add =>
    exact gives_exactly .time (fun _ => rfl) (congrArg some hsum) (by simp [Value.ty])
  all_goals exact .mismatch (by simp [Value.ty])

end ArithOp

/-! ## Exact values -/

namespace Arith

/-- The value over the unbounded integers, if no divisor is zero. Times count in milliseconds. -/
def exact (values : String → Value) : Arith → Option Int
  | numeral run _ => some (runValue run)
  | name word _ => (values word).asMillis?.map Int64.toInt
  | parens inner => inner.exact values
  | neg operand => (operand.exact values).map (- ·)
  | binary op left right =>
    (left.exact values).bind fun x => (right.exact values).bind fun y => op.compute x y

/-- The arithmetic itself and all that it is made of. -/
def parts : Arith → List Arith
  | numeral run hrun => [numeral run hrun]
  | name word hword => [name word hword]
  | parens inner => parens inner :: inner.parts
  | neg operand => neg operand :: operand.parts
  | binary op left right => binary op left right :: (left.parts ++ right.parts)

/-- A name is among the parts. -/
def Reads (e : Arith) (word : String) : Prop := ∃ hword, name word hword ∈ e.parts

/-- Some property that is read is a time. -/
def HasTime (values : String → Value) (e : Arith) : Prop :=
  ∃ word, e.Reads word ∧ (values word).ty = .time

/-- The exact value is a word. -/
def FitsWord (values : String → Value) (e : Arith) : Prop :=
  ∃ i : Int64, e.exact values = some i.toInt

/-- What arithmetic answers: a number that is its exact value, without having left the words on the
way. -/
structure Answers (values : String → Value) (e : Arith) (v : Value) : Prop where
  exact : ∃ i, v.asMillis? = some i ∧ e.exact values = some i.toInt
  words : ∀ part ∈ e.parts, part.FitsWord values
  time : v.ty = .time → e.HasTime values

/-- What arithmetic fails with, and what it takes to fail with it. -/
inductive Fails (values : String → Value) (e : Arith) : EvalError → Prop
  | overflow {part : Arith} {z : Int} : part ∈ e.parts → part.exact values = some z →
      (z < Int64.minValue.toInt ∨ Int64.maxValue.toInt < z) → Fails values e .integerOverflow
  | division {dividend divisor : Arith} : .binary .rem dividend divisor ∈ e.parts →
      divisor.exact values = some 0 → Fails values e .divideByZero
  | negatedTime : e.HasTime values → Fails values e (.unaryOperand .neg .time)
  | mixedTimes {op : BinaryOp} {left right : Ty} : e.HasTime values →
      (left = .time ∨ right = .time) → Fails values e (.binaryOperands op left right)

end Arith

/-- A world in which the names that are read are properties, and the properties are integers and
times. -/
structure Environment.Numbers {σ : Type} (env : Environment σ) (values : String → Value)
    (e : Arith) : Prop where
  property : ∀ word, e.Reads word → DateText.constant? word = none
  answer : ∀ word, e.Reads word → ∀ s, (env.property word s).1 = some (values word)
  number : ∀ word, e.Reads word → ∃ i, (values word).asMillis? = some i

/-- What is no word lies outside of the range of words. -/
theorem lt_or_lt_of_ofInt?_eq_none {z : Int} (h : Word.ofInt? z = none) :
    z < Int64.minValue.toInt ∨ Int64.maxValue.toInt < z := by
  rw [Word.ofInt?] at h
  split at h
  · cases h
  · omega

namespace Arith

open Targeting.Condition.Parser (applyUnary)

variable {values : String → Value}

section Parts

variable {e operand inner left right : Arith} {op : ArithOp} {whole part : Arith}

theorem mem_parts_self (e : Arith) : e ∈ e.parts := by
  cases e <;> exact List.mem_cons_self

/-- What is among the parts of a part. -/
def Within (part whole : Arith) : Prop := part.parts ⊆ whole.parts

theorem within_parens : inner.Within (parens inner) := List.subset_cons_self _ _

theorem within_neg : operand.Within (neg operand) := List.subset_cons_self _ _

theorem within_left : left.Within (binary op left right) :=
  List.subset_cons_of_subset _ (List.subset_append_left _ _)

theorem within_right : right.Within (binary op left right) :=
  List.subset_cons_of_subset _ (List.subset_append_right _ _)

theorem Within.reads (h : part.Within whole) {word : String} (hread : part.Reads word) :
    whole.Reads word :=
  hread.imp fun _ hmem => h hmem

theorem Within.hasTime (h : part.Within whole) (htime : part.HasTime values) :
    whole.HasTime values :=
  htime.imp fun _ hword => ⟨h.reads hword.1, hword.2⟩

theorem Within.fails (h : part.Within whole) {err : EvalError} (herr : part.Fails values err) :
    whole.Fails values err := by
  cases herr with
  | overflow hmem hexact hrange => exact .overflow (h hmem) hexact hrange
  | division hmem hzero => exact .division (h hmem) hzero
  | negatedTime htime => exact .negatedTime (h.hasTime htime)
  | mixedTimes htime hty => exact .mixedTimes (h.hasTime htime) hty

theorem Within.numbers {σ : Type} {env : Environment σ} (h : part.Within whole)
    (henv : env.Numbers values whole) : env.Numbers values part where
  property word hread := henv.property word (h.reads hread)
  answer word hread := henv.answer word (h.reads hread)
  number word hread := henv.number word (h.reads hread)

end Parts

/-! ## Negation in the reader -/

/-- What reading gives: integers are not the least word, and there are no other numbers. -/
def Moderate : Expr → Prop
  | .int i => i ≠ Int64.minValue
  | .float _ => False
  | _ => True

theorem runValue_toInt {run : List Char} (hreadable : (Piece.numeral run).Readable) :
    (Int64.ofInt (runValue run)).toInt = runValue run :=
  Word.toInt_of_ofInt? (ofInt?_of_le hreadable)

theorem neg_ne_minValue {i : Int64} (hi : i ≠ Int64.minValue) : -i ≠ Int64.minValue := by
  intro h
  refine hi ?_
  rw [← Int64.neg_neg (a := i), h]
  rfl

/-- The negation of any other word than the least is exact. -/
theorem neg?_eq {i : Int64} (hi : i ≠ Int64.minValue) : Word.neg? i = some (-i) := by
  have hne : i.toInt ≠ Int64.minValue.toInt := fun h => hi (Int64.toInt_inj.1 h)
  have hlow := Int64.minValue_le_toInt i
  have hhigh := Int64.toInt_le i
  have hends : Int64.minValue.toInt = -Int64.maxValue.toInt - 1 := by decide
  rw [Word.neg?, Word.ofInt?, if_pos (by omega), Int64.ofInt_neg, Int64.ofInt_toInt]

section Readable

variable {inner operand left right : Arith} {op : ArithOp}

theorem readable_parens_iff : (parens inner).Readable ↔ inner.Readable := by
  simp [Readable, pieces, or_imp, forall_and, Piece.Readable]

theorem readable_neg_iff : (neg operand).Readable ↔ operand.Readable := by
  simp [Readable, pieces, Piece.Readable]

theorem readable_binary_iff :
    (binary op left right).Readable ↔ left.Readable ∧ right.Readable := by
  simp [Readable, pieces, or_imp, forall_and, Piece.Readable]

end Readable

theorem moderate_tree {e : Arith} (hreadable : e.Readable) : Moderate e.tree := by
  induction e with
  | numeral run hrun =>
      intro hmin
      have hvalue := runValue_toInt (hreadable (.numeral run) List.mem_cons_self)
      rw [hmin] at hvalue
      have hneg : Int64.minValue.toInt < 0 := by decide
      omega
  | name word hword => trivial
  | parens inner ih => exact ih (readable_parens_iff.1 hreadable)
  | neg operand ih =>
      have hoperand := ih (readable_neg_iff.1 hreadable)
      rw [tree]
      cases htree : operand.tree with
      | int i =>
          rw [htree] at hoperand
          exact neg_ne_minValue hoperand
      | float x =>
          rw [htree] at hoperand
          exact hoperand
      | _ => trivial
  | binary op left right => trivial

/-- It makes no difference that the reader negates integers itself. -/
theorem evaluateWith_applyUnary {σ : Type} (access : Access σ) {t : Expr} (ht : Moderate t) :
    (applyUnary .neg t).evaluateWith access = (Expr.unary .neg t).evaluateWith access := by
  cases t with
  | int i =>
      have happly : UnaryOp.neg.apply (.int i) = .ok (.int (-i)) := by
        rw [UnaryOp.apply, neg?_eq ht]
      rw [Expr.evaluateWith, Expr.evaluateWith, pure_bind, happly]
      rfl
  | float x => exact ht.elim
  | _ => rfl

/-! ## Evaluation -/

theorem answers_of_number {e : Arith} (hparts : e.parts = [e]) {v : Value} {i : Int64}
    (hv : v.asMillis? = some i) (hexact : e.exact values = some i.toInt)
    (htime : v.ty = .time → e.HasTime values) : e.Answers values v where
  exact := ⟨i, hv, hexact⟩
  words := by
    rw [hparts]
    simpa using ⟨i, hexact⟩
  time := htime

/-- The negation of a number is exact, or it is no word, or the number is a time. -/
theorem endsIn_neg {operand : Arith} {v : Value} (h : operand.Answers values v) :
    EndsIn ((neg operand).Answers values) ((neg operand).Fails values) (UnaryOp.neg.apply v) := by
  obtain ⟨⟨i, hi, hexact⟩, hwords, htime⟩ := h
  have hneg : (neg operand).exact values = some (-i.toInt) := by
    rw [exact, hexact]
    rfl
  obtain rfl | rfl := Value.eq_of_asMillis? hi
  · rw [UnaryOp.apply]
    cases hword : Word.neg? i with
    | some k =>
        have hk : (neg operand).exact values = some k.toInt := by
          rw [hneg, Word.toInt_of_ofInt? hword]
        exact ⟨⟨k, rfl, hk⟩, List.forall_mem_cons.2 ⟨⟨k, hk⟩, hwords⟩, by simp [Value.ty]⟩
    | none => exact .overflow (mem_parts_self _) hneg (lt_or_lt_of_ofInt?_eq_none hword)
  · exact .negatedTime (within_neg.hasTime (htime rfl))

/-- An operator between two numbers is exact, or it fails for a reason. -/
theorem endsIn_combine {op : ArithOp} {left right : Arith} {a b : Value}
    (hleft : left.Answers values a) (hright : right.Answers values b) :
    EndsIn ((binary op left right).Answers values) ((binary op left right).Fails values)
      (op.op.combine a b) := by
  obtain ⟨⟨i, hi, hexactleft⟩, hwordsleft, htimeleft⟩ := hleft
  obtain ⟨⟨j, hj, hexactright⟩, hwordsright, htimeright⟩ := hright
  have hexact : (binary op left right).exact values = op.compute i.toInt j.toInt := by
    rw [exact, hexactleft, hexactright]
    rfl
  have htime (h : a.ty = .time ∨ b.ty = .time) : (binary op left right).HasTime values := by
    obtain ha | hb := h
    · exact within_left.hasTime (htimeleft ha)
    · exact within_right.hasTime (htimeright hb)
  have hcombine : op.op.combine a b = op.op.apply a b := by cases op <;> rfl
  have hgives := op.gives_apply hi hj
  rw [hcombine]
  generalize op.op.apply a b = result at hgives
  cases hgives with
  | @exact v k hv hcompute hty =>
      have hk : (binary op left right).exact values = some k.toInt := hexact.trans hcompute
      have hwords : ∀ part ∈ (binary op left right).parts, part.FitsWord values :=
        List.forall_mem_cons.2 ⟨⟨k, hk⟩, List.forall_mem_append.2 ⟨hwordsleft, hwordsright⟩⟩
      exact ⟨⟨k, hv, hk⟩, hwords, fun h => htime (hty h)⟩
  | overflow hcompute hword =>
      exact .overflow (mem_parts_self _) (hexact.trans hcompute) (lt_or_lt_of_ofInt?_eq_none hword)
  | division hop hzero =>
      subst hop
      exact .division (mem_parts_self _) (hexactright.trans (congrArg some hzero))
  | mismatch h => exact .mixedTimes (htime h) h

/-- Arithmetic answers with its exact value or fails for a reason, whatever the world remembers. -/
theorem ends_tree {σ : Type} {env : Environment σ} {e : Arith} (hreadable : e.Readable)
    (henv : env.Numbers values e) :
    Run.Ends (e.tree.evaluateWith (.of env)) (e.Answers values) (e.Fails values) := by
  induction e with
  | numeral run hrun =>
      have hvalue := runValue_toInt (hreadable (.numeral run) List.mem_cons_self)
      exact .pure (answers_of_number rfl rfl (congrArg some hvalue.symm) (by simp [Value.ty]))
  | name word hword =>
      have hread : (name word hword).Reads word := ⟨hword, mem_parts_self _⟩
      obtain ⟨i, hi⟩ := henv.number word hread
      refine ends_readName (fun pattern hpattern => ?_) fun _ s => ?_
      · rw [henv.property word hread] at hpattern
        cases hpattern
      · rw [henv.answer word hread s]
        refine answers_of_number rfl hi ?_ fun htime => ⟨word, hread, htime⟩
        rw [exact, hi]
        rfl
  | parens inner ih =>
      have hinner := ih (readable_parens_iff.1 hreadable) (within_parens.numbers henv)
      refine hinner.mono (fun v hv => ⟨hv.exact, ?_, fun h => within_parens.hasTime (hv.time h)⟩)
        fun err herr => within_parens.fails herr
      obtain ⟨i, -, hexact⟩ := hv.exact
      exact List.forall_mem_cons.2 ⟨⟨i, hexact⟩, hv.words⟩
  | neg operand ih =>
      have hoperand := readable_neg_iff.1 hreadable
      rw [tree, evaluateWith_applyUnary _ (moderate_tree hoperand)]
      exact Expr.ends_unary ((ih hoperand (within_neg.numbers henv)).mono (fun _ h => h)
        fun _ herr => within_neg.fails herr) fun _ hv => endsIn_neg hv
  | binary op left right ihleft ihright =>
      obtain ⟨hleft, hright⟩ := readable_binary_iff.1 hreadable
      refine Expr.ends_binary
        ((ihleft hleft (within_left.numbers henv)).mono (fun _ h => h)
          fun _ herr => within_left.fails herr)
        ((ihright hright (within_right.numbers henv)).mono (fun _ h => h)
          fun _ herr => within_right.fails herr)
        (fun a result _ hdecided => ?_) fun _ _ ha hb _ => endsIn_combine ha hb
      cases op <;> cases hdecided

/-- If there are no times, arithmetic has a value just when nothing in it leaves the words. -/
theorem exists_ok_iff {e : Arith} {result : Except EvalError Value}
    (h : EndsIn (e.Answers values) (e.Fails values) result) (htime : ¬ e.HasTime values) :
    (∃ v, result = .ok v) ↔ ∀ part ∈ e.parts, part.FitsWord values := by
  cases result with
  | ok v => exact ⟨fun _ => h.words, fun _ => ⟨v, rfl⟩⟩
  | error err =>
      refine ⟨fun ⟨_, hv⟩ => (Except.noConfusion rfl rfl (heq_of_eq hv)), fun hwords => ?_⟩
      cases h with
      | overflow hmem hexact hrange =>
          obtain ⟨i, hi⟩ := hwords _ hmem
          obtain rfl : _ = i.toInt := Option.some.inj (hexact.symm.trans hi)
          have hlow := Int64.minValue_le_toInt i
          have hhigh := Int64.toInt_le i
          omega
      | @division dividend divisor hmem hzero =>
          obtain ⟨i, hi⟩ := hwords _ hmem
          rw [exact, hzero] at hi
          cases hdividend : dividend.exact values <;> simp [hdividend, ArithOp.compute] at hi
      | negatedTime h => exact absurd h htime
      | mixedTimes h _ => exact absurd h htime

/-- Arithmetic is exact or an error. A source of numerals, names, parentheses and the operators, with
any blanks, is read, simplified and evaluated to an integer or a time. It is the exact value over the
unbounded integers, and the exact values of all parts are words. Otherwise evaluation fails with an
overflow, and then the exact value of some part is no word; or with a division by zero, and then some
divisor is exactly zero; or with an operator that does not take a time. Before that a source is
refused only for a numeral that is no word, or because it goes in too far. -/
theorem evaluates_exactly {σ : Type} {env : Environment σ} {e : Arith} {source : String}
    (hgroups : e.Groups 0) (hsource : Laid e.pieces source.toList)
    (henv : env.Numbers values e) (s : σ) :
    (e.Readable → e.depth < Parser.maxDepth → ∃ tree result s',
        Expr.parse source = .ok tree ∧ (tree.optimize.evaluate env).run s = (result, s') ∧
        EndsIn (e.Answers values) (e.Fails values) result ∧
        (¬ e.HasTime values →
          ((∃ v, result = .ok v) ↔ ∀ part ∈ e.parts, part.FitsWord values))) ∧
      (e.Readable → Parser.maxDepth ≤ e.depth →
        ∃ offset, Expr.parse source = .error ⟨offset, .nestedTooDeeply⟩) ∧
      (¬ e.Readable → ∃ run offset, .numeral run ∈ e.pieces ∧
        Int64.maxValue.toInt < runValue run ∧
        Expr.parse source = .error ⟨offset, .invalidNumber (String.ofList run)⟩) := by
  obtain ⟨hread, hdeep, hlarge⟩ := parse_eq hgroups hsource
  refine ⟨fun hreadable hdepth => ?_, hdeep, fun hreadable => ?_⟩
  · have hends := ends_tree hreadable henv s
    rw [← Expr.evaluate_eq_evaluateWith, ← Expr.evaluate_optimize] at hends
    exact ⟨e.tree, _, _, hread hreadable hdepth, rfl, hends, exists_ok_iff hends⟩
  · obtain ⟨run, offset, hrun, hword, hparse⟩ := hlarge hreadable
    exact ⟨run, offset, hrun, Int.not_le.1 hword, hparse⟩

/-- The remainder of the least word by minus one is zero, although the quotient would be no word. The
least word comes out of a subtraction here, as it cannot be written. -/
theorem evaluates_remainder_of_least :
    let env := Environment.ofTables [("launches", .int 1)] []
    ∃ tree, Expr.parse "( -9_223_372_036_854_775_807-launches )%-1" = .ok tree ∧
      (tree.optimize.evaluate env).run () = (.ok (.int 0), ()) := by
  intro env
  have hrun : IsRun "9_223_372_036_854_775_807".toList := by decide
  have hone : IsRun "1".toList := by decide
  have hname : IsName "launches" := by decide
  let least : Arith := .binary .sub (.neg (.numeral _ hrun)) (.name "launches" hname)
  let e : Arith := .binary .rem (.parens least) (.neg (.numeral _ hone))
  have hsource : Laid e.pieces "( -9_223_372_036_854_775_807-launches )%-1".toList :=
    .next [] (by decide) <| .next [' '] (by decide) <|
    .next [] (by decide) <| .next [] (by decide) <|
    .next [] (by decide) <| .next [' '] (by decide) <|
    .next [] (by decide) <| .next [] (by decide) <|
    .next [] (by decide) <| .last [] (by decide)
  have hreads {word : String} (h : e.Reads word) : word = "launches" := by
    obtain ⟨hword, hmem⟩ := h
    simpa [e, least, parts] using hmem
  have henv : env.Numbers (fun _ => .int 1) e :=
    ⟨fun word h => by rw [hreads h]; decide, fun word h _ => by rw [hreads h]; rfl,
      fun _ _ => ⟨1, rfl⟩⟩
  have hgroups : e.Groups 0 := by
    simp [e, least, Groups, ArithOp.op, BinaryOp.precedence]
  have hlarge : (runValue "9_223_372_036_854_775_807".toList : Int) ≤ Int64.maxValue.toInt := by
    decide +kernel
  have hreadable : e.Readable := by
    simpa [e, least, Readable, pieces, Piece.Readable] using ⟨hlarge, by decide⟩
  have htime : ¬ e.HasTime fun _ => .int 1 := by
    rintro ⟨_, _, h⟩
    cases h
  have hexact : e.exact (fun _ => .int 1) = some 0 := rfl
  have hwords : ∀ part ∈ e.parts, part.FitsWord fun _ => .int 1 := by
    simp only [e, least, parts, List.cons_append, List.nil_append, List.forall_mem_cons]
    exact ⟨⟨0, hexact⟩, ⟨Int64.minValue, rfl⟩, ⟨Int64.minValue, rfl⟩, ⟨-Int64.maxValue, rfl⟩,
      ⟨Int64.maxValue, rfl⟩, ⟨1, rfl⟩, ⟨-1, rfl⟩, ⟨1, rfl⟩, by simp⟩
  obtain ⟨hvalue, -, -⟩ := evaluates_exactly hgroups hsource henv ()
  obtain ⟨tree, result, s', hparse, hrun, hends, hiff⟩ := hvalue hreadable (show 2 < Parser.maxDepth by decide)
  obtain ⟨v, rfl⟩ := (hiff htime).2 hwords
  obtain ⟨i, hi, hzero⟩ := hends.exact
  obtain rfl : i = 0 := Int64.toInt_inj.1 (Option.some.inj (hzero.symm.trans hexact))
  obtain rfl | rfl := Value.eq_of_asMillis? hi
  · exact ⟨tree, hparse, hrun⟩
  · exact absurd (hends.time rfl) htime

end Arith

end Targeting.Condition
