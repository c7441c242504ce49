/-
# How deep accepted conditions are

The number of levels bounds how deep a source can nest, and so how deep a tree can be, but for one
thing: a chain of operators is read in a loop, on one level, and each operator of it puts another
tree around the left operand. Counted without the steps to left operands, an accepted tree is at
most twice as deep as there are levels. Its height is more than that by as much as its longest
chain, and chains have any length.

That the readers keep to the bound is proved reader by reader, given that the readers of the next
inner level do, and then for all levels.
-/

import Targeting.Proofs.Condition.Chain
import Targeting.Proofs.Condition.Operands
import Targeting.Proofs.Condition.Precision
import Targeting.Proofs.Condition.Printing
import Targeting.Proofs.Condition.Readers

namespace Targeting.Condition

namespace Expr

/-! ## Depth -/

mutual

/-- Number of expressions on the longest way from the root to a leaf, without the left operands of
binary operators: the step to one of them is free. -/
def nesting : Expr → Nat
  | list items => nestingAll items + 1
  | call _ args => nestingAll args + 1
  | unary _ operand => nesting operand + 1
  | binary _ left right => max (nesting left) (nesting right + 1)
  | conditional condition thenCase elseCase =>
    max (nesting condition) (max (nesting thenCase) (nesting elseCase)) + 1
  | nil | bool _ | int _ | float _ | text _ | ident _ => 1

/-- Nesting of the deepest of some expressions. -/
def nestingAll : List Expr → Nat
  | [] => 0
  | first :: rest => max (nesting first) (nestingAll rest)

end

/-- Number of binary operators that are left operands of each other, from the root on. -/
def leftRun : Expr → Nat
  | binary _ left _ => left.leftRun + 1
  | _ => 0

theorem nestingAll_le_iff {n : Nat} {items : List Expr} :
    nestingAll items ≤ n ↔ ∀ item ∈ items, item.nesting ≤ n := by
  induction items with
  | nil => simp [nestingAll]
  | cons first rest ih => rw [nestingAll, max_le_iff, ih, List.forall_mem_cons]

theorem le_nestingAll {items : List Expr} {item : Expr} (hitem : item ∈ items) :
    item.nesting ≤ nestingAll items :=
  nestingAll_le_iff.1 le_rfl item hitem

/-- What is no binary operator nests once more than the deepest of its operands. -/
theorem nesting_eq_of_root? {e : Expr} (hroot : e.root? = none) :
    e.nesting = nestingAll e.operands + 1 := by
  cases e with
  | binary op left right => cases hroot
  | _ => simp [nesting, nestingAll, operands]

theorem nesting_le_succ {e : Expr} {n : Nat} (hroot : e.root? = none)
    (hoperands : ∀ operand ∈ e.operands, operand.nesting ≤ n) : e.nesting ≤ n + 1 := by
  rw [nesting_eq_of_root? hroot]
  exact Nat.succ_le_succ (nestingAll_le_iff.2 hoperands)

theorem exists_eq_binary_of_root? {e : Expr} {op : BinaryOp} (hroot : e.root? = some op) :
    ∃ left right, e = .binary op left right := by
  cases e <;> cases hroot
  exact ⟨_, _, rfl⟩

theorem heightAbove_le_iff {n : Nat} {items : List Expr} :
    heightAbove items ≤ n ↔ ∀ item ∈ items, item.height < n := by
  induction items with
  | nil => simp [heightAbove]
  | cons first rest ih => rw [heightAbove, max_le_iff, ih, List.forall_mem_cons, Nat.succ_le_iff]

theorem height_eq_heightAbove (e : Expr) : e.height = heightAbove e.operands := by
  cases e <;> simp [height, heightAbove, operands]

/-- Where no more than `k` binary operators are left operands of each other, each step of nesting
accounts for `k + 1` steps at most. -/
theorem height_add_lt {e : Expr} {k : Nat} (hk : ∀ part, e.Contains part → part.leftRun ≤ k) :
    e.height + k < e.nesting * (k + 1) + e.leftRun := by
  induction e using Expr.inductionOnOperands with
  | whole e ih =>
      obtain ⟨-, hoperands⟩ := forall_contains_iff.1 hk
      have hlt : ∀ operand ∈ e.operands, operand.height < operand.nesting * (k + 1) := by
        intro operand hoperand
        have hsum := ih operand hoperand (hoperands operand hoperand)
        have hrun := hoperands operand hoperand operand .self
        omega
      cases hroot : e.root? with
      | none =>
          have hheight : heightAbove e.operands ≤ nestingAll e.operands * (k + 1) :=
            heightAbove_le_iff.2 fun operand hoperand =>
              (hlt operand hoperand).trans_le (Nat.mul_le_mul_right _ (le_nestingAll hoperand))
          rw [height_eq_heightAbove, nesting_eq_of_root? hroot, Nat.add_mul]
          omega
      | some op =>
          obtain ⟨left, right, rfl⟩ := exists_eq_binary_of_root? hroot
          have hleft := ih left List.mem_cons_self (hoperands left List.mem_cons_self)
          have hright := hlt right (List.mem_cons_of_mem _ List.mem_cons_self)
          have hleft' : left.nesting * (k + 1) ≤ max left.nesting (right.nesting + 1) * (k + 1) :=
            Nat.mul_le_mul_right _ (le_max_left _ _)
          have hright' : right.nesting * (k + 1) + (k + 1) ≤
              max left.nesting (right.nesting + 1) * (k + 1) := by
            rw [← Nat.succ_mul]
            exact Nat.mul_le_mul_right _ (le_max_right _ _)
          rw [height, nesting, leftRun]
          omega

theorem height_lt {e : Expr} {k : Nat} (hk : ∀ part, e.Contains part → part.leftRun ≤ k) :
    e.height < e.nesting * (k + 1) := by
  have hself := hk e .self
  have hsum := height_add_lt hk
  omega

theorem leftRun_le_height (e : Expr) : e.leftRun ≤ e.height := by
  induction e using Expr.inductionOnOperands with
  | whole e ih =>
      cases e with
      | binary op left right =>
          have hleft := ih left List.mem_cons_self
          rw [height, leftRun]
          omega
      | _ => exact Nat.zero_le _

/-- A tree is as high as any of its chains is long. -/
theorem leftRun_le_height_of_contains (e : Expr) :
    ∀ part, e.Contains part → part.leftRun ≤ e.height := by
  induction e using Expr.inductionOnOperands with
  | whole e ih =>
      refine forall_contains_iff.2 ⟨e.leftRun_le_height, fun operand hoperand part hpart => ?_⟩
      rw [height_eq_heightAbove]
      exact (ih operand hoperand part hpart).trans (height_lt_heightAbove hoperand).le

end Expr

/-! ## Readers -/

namespace Parser

variable {inner : Option Level} {n : Nat}

theorem keeps_enter_none {α : Type} {accepts : α → Prop} (read : Level → Reader α) :
    Keeps accepts (enter none read) :=
  fun _ htokens => .fail htokens _

theorem keeps_expression {level : Level} (hchain : Keeps (Expr.nesting · ≤ n + 1) (level.chain 0))
    (hbranch : Keeps (Expr.nesting · ≤ n) level.expression) :
    Keeps (Expr.nesting · ≤ n + 2) (expression (some level)) := by
  intro tokens htokens
  refine (hchain tokens htokens).bind fun condition tokens hcondition htokens => ?_
  dsimp only
  split
  case isFalse => exact .pure (by omega) htokens
  case isTrue hquestion =>
    have htail := htokens.tail (by rw [hquestion]; nofun)
    refine Leaves.of_suffix ?_ (List.tail_suffix tokens)
    refine (hbranch _ htail).bind fun thenCase tokens hthen htokens => ?_
    refine (keeps_expect (by nofun) _ tokens htokens).bind fun _ tokens _ htokens => ?_
    refine (hbranch tokens htokens).bind fun elseCase tokens helse htokens => ?_
    refine .pure (Expr.nesting_le_succ rfl ?_) htokens
    simp only [Expr.operands, List.forall_mem_cons]
    exact ⟨hcondition, by omega, by omega, by simp⟩

theorem keeps_items (hitem : Keeps (Expr.nesting · ≤ n) (expression inner)) {close : TokenKind}
    (hclose : close ≠ .stop) (what : String) (fuel : Nat) {before : List Expr}
    (hbefore : ∀ item ∈ before, item.nesting ≤ n) :
    Keeps (fun items => ∀ item ∈ items, Expr.nesting item ≤ n)
      (items inner close what fuel before) := by
  induction fuel generalizing before with
  | zero => exact fun tokens htokens => .fail htokens _
  | succ fuel ih =>
      intro tokens htokens
      refine (hitem tokens htokens).bind fun item tokens hitem htokens => ?_
      have hall : ∀ other ∈ item :: before, other.nesting ≤ n :=
        List.forall_mem_cons.2 ⟨hitem, hbefore⟩
      dsimp only
      split
      case isTrue hcomma =>
        have htail := htokens.tail (by rw [hcomma]; nofun)
        exact (ih hall _ htail).of_suffix (List.tail_suffix tokens)
      case isFalse =>
        refine (keeps_expect hclose what tokens htokens).bind fun _ tokens _ htokens => ?_
        exact .pure (fun other hother => hall other (List.mem_reverse.1 hother)) htokens

theorem keeps_itemList (hitem : Keeps (Expr.nesting · ≤ n) (expression inner)) {close : TokenKind}
    (hclose : close ≠ .stop) (what : String) :
    Keeps (fun items => ∀ item ∈ items, Expr.nesting item ≤ n) (itemList inner close what) := by
  intro tokens htokens
  rw [itemList]
  split
  case isTrue heq => exact .pass (by simp) htokens (heq ▸ hclose)
  case isFalse => exact keeps_items hitem hclose what _ (by simp) tokens htokens

/-- What a word at the front is read as. -/
theorem primary_word (inner : Option Level) (name : String) (offset : Nat) (rest : List Token) :
    primary inner (⟨.word name, offset⟩ :: rest) =
      if name = "true" then .ok (.bool true, rest)
      else if name = "false" then .ok (.bool false, rest)
      else if name = "nil" then .ok (.nil, rest)
      else if name ∈ keywords then .error ⟨offset, .unexpectedKeyword name⟩
      else if (peek rest).kind = .leftParen then
        itemList inner .rightParen "')'" rest.tail >>= fun (args, rest) => .ok (.call name args, rest)
      else .ok (.ident name, rest) :=
  rfl

theorem keeps_primary (hexpr : Keeps (Expr.nesting · ≤ n) (expression inner)) :
    Keeps (Expr.nesting · ≤ n + 1) (primary inner) := by
  intro tokens htokens
  obtain ⟨⟨kind, offset⟩, rest, rfl⟩ := htokens.exists_cons
  have hatom : kind ≠ .stop → ∀ atom : Expr, atom.root? = none → atom.operands = [] →
      Leaves (Expr.nesting · ≤ n + 1) (⟨kind, offset⟩ :: rest) (.ok (atom, rest)) :=
    fun hkind atom hroot hoperands =>
      .pass (Expr.nesting_le_succ hroot (by simp [hoperands])) htokens hkind
  have hrefuse : ∀ problem,
      Leaves (Expr.nesting · ≤ n + 1) (⟨kind, offset⟩ :: rest) (.error ⟨offset, problem⟩) :=
    fun problem => .fail htokens problem
  cases kind with
  | int i => exact hatom nofun (.int i) rfl rfl
  | float x => exact hatom nofun (.float x) rfl rfl
  | text s => exact hatom nofun (.text s) rfl rfl
  | leftParen =>
      have hrest := htokens.of_cons nofun
      have hclose : TokenKind.rightParen ≠ .stop := nofun
      refine Leaves.of_suffix ?_ (List.suffix_cons _ rest)
      refine (hexpr rest hrest).bind fun node tokens hnode htokens => ?_
      refine (keeps_expect hclose _ tokens htokens).bind fun _ tokens _ htokens => ?_
      exact .pure (Nat.le_succ_of_le hnode) htokens
  | leftBracket =>
      have hrest := htokens.of_cons nofun
      have hclose : TokenKind.rightBracket ≠ .stop := nofun
      refine Leaves.of_suffix ?_ (List.suffix_cons _ rest)
      refine (keeps_itemList hexpr hclose _ rest hrest).bind fun members tokens hmembers htokens => ?_
      exact .pure (Expr.nesting_le_succ rfl hmembers) htokens
  | word name =>
      have hrest := htokens.of_cons nofun
      rw [primary_word]
      split_ifs with htrue hfalse hnil hkeyword hparen
      · exact hatom nofun (.bool true) rfl rfl
      · exact hatom nofun (.bool false) rfl rfl
      · exact hatom nofun .nil rfl rfl
      · exact hrefuse _
      · have hargs := hrest.tail (by rw [hparen]; nofun)
        have hclose : TokenKind.rightParen ≠ .stop := nofun
        refine Leaves.of_suffix ?_ ((List.tail_suffix rest).trans (List.suffix_cons _ rest))
        refine (keeps_itemList hexpr hclose _ _ hargs).bind fun args tokens hall htokens => ?_
        exact .pure (Expr.nesting_le_succ rfl hall) htokens
      · exact hatom nofun (.ident name) rfl rfl
  | _ => exact hrefuse _

theorem nesting_applyUnary_le (op : UnaryOp) (operand : Expr) :
    (applyUnary op operand).nesting ≤ operand.nesting + 1 := by
  rw [applyUnary.eq_def]
  split
  case h_1 | h_2 => exact Nat.le_succ _
  case h_3 => exact Expr.nesting_le_succ rfl (by simp [Expr.operands])

theorem keeps_unary (hexpr : Keeps (Expr.nesting · ≤ n) (expression inner))
    (hoperand : ∀ least, Keeps (Expr.nesting · ≤ n) (enter inner fun level => level.chain least)) :
    Keeps (Expr.nesting · ≤ n + 1) (unary inner) := by
  intro tokens htokens
  rw [unary]
  split
  case h_1 => exact keeps_primary hexpr tokens htokens
  case h_2 op hop =>
    have htail := htokens.tail (ne_stop_of_unaryOp? hop)
    refine Leaves.of_suffix ?_ (List.tail_suffix tokens)
    refine (hoperand _ _ htail).bind fun operand tokens hoperand htokens => ?_
    exact .pure ((nesting_applyUnary_le op operand).trans (Nat.succ_le_succ hoperand)) htokens

theorem keeps_extend
    (hoperand : ∀ least, Keeps (Expr.nesting · ≤ n) (enter inner fun level => level.chain least))
    (least fuel : Nat) {left : Expr} (hleft : left.nesting ≤ n + 1) :
    Keeps (Expr.nesting · ≤ n + 1) (extend inner least fuel left) := by
  induction fuel generalizing left with
  | zero => exact fun tokens htokens => .pure hleft htokens
  | succ fuel ih =>
      intro tokens htokens
      rw [extend]
      split
      case h_1 => exact .pure hleft htokens
      case h_2 op width hop =>
        split
        case isTrue => exact .pure hleft htokens
        case isFalse =>
          refine Leaves.of_suffix ?_ (List.drop_suffix width tokens)
          refine (hoperand _ _ (htokens.drop_of_binaryOp? hop)).bind
            fun right tokens hright htokens => ?_
          refine ih ?_ tokens htokens
          rw [Expr.nesting]
          omega

theorem keeps_chain (hexpr : Keeps (Expr.nesting · ≤ n) (expression inner))
    (hoperand : ∀ least, Keeps (Expr.nesting · ≤ n) (enter inner fun level => level.chain least))
    (least : Nat) : Keeps (Expr.nesting · ≤ n + 1) (chain inner least) := by
  intro tokens htokens
  refine (keeps_unary hexpr hoperand tokens htokens).bind fun first tokens hfirst htokens => ?_
  exact keeps_extend hoperand least _ hfirst tokens htokens

/-- With a number of levels left inside, whole expressions nest at most twice as deep. -/
theorem keeps_within (depth : Nat) :
    Keeps (Expr.nesting · ≤ 2 * depth) (expression (within depth)) ∧
      ∀ least, Keeps (Expr.nesting · ≤ 2 * depth)
        (enter (within depth) fun level => level.chain least) := by
  induction depth with
  | zero => exact ⟨keeps_enter_none _, fun least => keeps_enter_none _⟩
  | succ depth ih =>
      obtain ⟨hexpr, hoperand⟩ := ih
      have hchain := keeps_chain hexpr hoperand
      rw [within, level_eq]
      refine ⟨keeps_expression (hchain 0) hexpr, fun least tokens htokens => ?_⟩
      exact (hchain least tokens htokens).mono fun e he => Nat.le_succ_of_le he

end Parser

namespace Expr

/-! ## Accepted sources -/

theorem exists_read_of_parse {source : String} {tree : Expr} (h : parse source = .ok tree) :
    ∃ tokens rest, tokenize source = .ok tokens ∧
      Parser.expression (within Parser.maxDepth) tokens = .ok (tree, rest) := by
  obtain ⟨tokens, htokens, h⟩ := exists_of_bind_eq_ok h
  obtain ⟨⟨node, rest⟩, hread, h⟩ := exists_of_bind_eq_ok h
  refine ⟨tokens, rest, htokens, ?_⟩
  dsimp only at h
  split at h
  case isTrue =>
    cases h
    rw [← hread, level_eq]
  case isFalse => cases h

/-- An accepted source nests at most twice as deep as there are levels. -/
theorem nesting_le_of_parse {source : String} {tree : Expr} (h : parse source = .ok tree) :
    tree.nesting ≤ 2 * Parser.maxDepth := by
  obtain ⟨tokens, rest, htokens, hread⟩ := exists_read_of_parse h
  have hkeeps := (Parser.keeps_within Parser.maxDepth).1 tokens (Parser.isStream_of_tokenize htokens)
  rw [hread] at hkeeps
  exact hkeeps.1

/-! ## Chains -/

/-- A name and conjunctions of it with itself, grouped to the left. -/
def conjunctions : Nat → Expr
  | 0 => ident "a"
  | n + 1 => binary .and (conjunctions n) (ident "a")

/-- How the conjunctions are written. -/
def conjunctionsText : Nat → List Char
  | 0 => ['a']
  | n + 1 => "a && ".toList ++ conjunctionsText n

theorem height_conjunctions (n : Nat) : (conjunctions n).height = n := by
  induction n with
  | zero => rfl
  | succ n ih =>
      have hname : (ident "a").height ≤ n := Nat.zero_le n
      rw [conjunctions, height, ih, max_eq_left hname]

theorem lt_height_conjunctions (n : Nat) : n < (conjunctions (n + 1)).height := by
  rw [height_conjunctions]
  exact Nat.lt_succ_self n

theorem reading_conjunctions (n : Nat) :
    (conjunctions n).reading = (ident "a", List.replicate n (.and, ident "a")) := by
  induction n with
  | zero => rfl
  | succ n ih => rw [conjunctions, reading, ih, List.replicate_succ']; rfl

theorem grouped_conjunctions (n : Nat) : (conjunctions n).Grouped := by
  induction n with
  | zero => trivial
  | succ n ih =>
      refine ⟨fun inner hinner => ?_, by simp [root?], ih, trivial⟩
      cases n with
      | zero => cases hinner
      | succ n =>
          cases hinner
          exact le_rfl

/-- The tokens of the conjunctions, after the first name. -/
def conjunctionsKinds (n : Nat) : List TokenKind :=
  (List.replicate n [.operator (.binary .and), .word "a"]).flatten

theorem atom_name : Atom (.word "a") (ident "a") := .ident (by decide)

theorem linked_conjunctions (n : Nat) :
    Linked (List.replicate n (.and, ident "a")) (conjunctionsKinds n) := by
  induction n with
  | zero => exact .nil
  | succ n ih => exact .cons [.operator (.binary .and)] (by decide) atom_name ih

theorem spaced_conjunctions (n : Nat) :
    Spaced (.word "a" :: conjunctionsKinds n) (conjunctionsText n) := by
  have hname : Spells (.word "a") ['a'] := .word (by decide)
  have hand : Spells (.operator (.binary .and)) ['&', '&'] := .operator (by decide)
  induction n with
  | zero => exact .last hname
  | succ n ih =>
      exact .next [' '] hname (by decide) (by decide) (.next [' '] hand (by decide) (by decide) ih)

/-- A written chain is read as the grouped tree that reads like it. -/
theorem parse_of_linked {first tree : Expr} {links : List Link} {kind : TokenKind}
    {kinds : List TokenKind} {source : String} (hfirst : Atom kind first)
    (hlinks : Linked links kinds) (hsource : Writes (kind :: kinds) source)
    (hreading : tree.reading = (first, links)) (hgrouped : tree.Grouped) :
    parse source = .ok tree := by
  obtain ⟨tokens, htokens, hkinds⟩ := tokenize_of_writes hsource
  obtain ⟨operand, tail, rfl, rfl, htail⟩ := List.map_eq_cons_iff.1 hkinds
  obtain ⟨linked, after, rfl, rfl, hafter⟩ := List.map_eq_append_iff.1 htail
  obtain ⟨⟨_, offset⟩, none, rfl, rfl, hnone⟩ := List.map_eq_cons_iff.1 hafter
  obtain rfl := List.map_eq_nil_iff.1 hnone
  obtain ⟨other, hchain, hother, hgrouped'⟩ :=
    chain_of_linked 127 (by decide) hfirst hlinks
      (show Parser.binaryOp? [⟨.stop, offset⟩] = _ from rfl) (by simp)
  obtain rfl := hgrouped'.eq_of_reading hgrouped (hother.trans hreading.symm)
  exact parse_of_expression htokens (expression_of_chain hchain (by simp)) rfl

theorem parse_conjunctions (n : Nat) :
    parse (String.ofList (conjunctionsText n)) = .ok (conjunctions n) :=
  parse_of_linked atom_name (linked_conjunctions n)
    ⟨[], _, [], by decide, by decide, spaced_conjunctions n, by simp⟩
    (reading_conjunctions n) (grouped_conjunctions n)

theorem check_conjunctions (n : Nat) : (conjunctions n).check Scope.catalog = .ok () := by
  have hname : (ident "a").infer Scope.catalog = .ok .unknown := by decide
  obtain ⟨ty, hty, hbool⟩ :
      ∃ ty, (conjunctions n).infer Scope.catalog = .ok ty ∧ ty.isBoolLike = true := by
    induction n with
    | zero => exact ⟨.unknown, hname, rfl⟩
    | succ n ih =>
        obtain ⟨ty, hty, hbool⟩ := ih
        have hresult : BinaryOp.and.resultTy? ty .unknown = some .bool :=
          if_pos (Bool.and_eq_true_iff.2 ⟨hbool, rfl⟩)
        refine ⟨.bool, ?_, rfl⟩
        rw [conjunctions, infer, hty, hname]
        simp only [bind, Except.bind, checkPattern, hresult]
        rfl
  rw [check, hty]
  exact if_pos hbool

theorem optimize_conjunctions (n : Nat) : (conjunctions n).optimize = conjunctions n := by
  induction n with
  | zero => rfl
  | succ n ih =>
      rw [conjunctions, optimize, ih]
      cases n <;> rfl

theorem compile_conjunctions (n : Nat) :
    compile (String.ofList (conjunctionsText n)) = .ok ⟨conjunctions n⟩ := by
  rw [compile, prepareTree_of_parse (parse_conjunctions n) (check_conjunctions n),
    optimize_conjunctions]
  rfl

/-! ## Heights -/

/-- An accepted tree nests within a bound, and its height keeps to a bound as long as no more than
`k` binary operators are left operands of each other. It is never lower than such a chain is
long. -/
theorem height_is_bounded_up_to_chains {source : String} {tree : Expr}
    (hparse : parse source = .ok tree) :
    tree.nesting ≤ 2 * Parser.maxDepth ∧
      (∀ k, (∀ part, tree.Contains part → part.leftRun ≤ k) →
        tree.height < 2 * Parser.maxDepth * (k + 1)) ∧
      ∀ part, tree.Contains part → part.leftRun ≤ tree.height := by
  have hnesting := nesting_le_of_parse hparse
  refine ⟨hnesting, fun k hk => ?_, leftRun_le_height_of_contains tree⟩
  exact (height_lt hk).trans_le (Nat.mul_le_mul_right _ hnesting)

/-- Two conjunctions have a tree of height two, within the bound for chains of two. -/
theorem two_conjunctions_are_bounded :
    parse "a && a && a" = .ok (conjunctions 2) ∧
      (∀ part, (conjunctions 2).Contains part → part.leftRun ≤ 2) ∧
      (conjunctions 2).nesting ≤ 2 * Parser.maxDepth ∧
      (conjunctions 2).height < 2 * Parser.maxDepth * 3 ∧ (conjunctions 2).height = 2 := by
  have hparse : parse "a && a && a" = .ok (conjunctions 2) := parse_conjunctions 2
  have hheight : (conjunctions 2).height = 2 := height_conjunctions 2
  obtain ⟨hnesting, hbounded, hruns⟩ := height_is_bounded_up_to_chains hparse
  exact ⟨hparse, hruns, hnesting, hbounded 2 hruns, hheight⟩

/-- Chains are read, checked and simplified at any length, so heights have no bound. -/
theorem heights_have_no_bound :
    (¬ ∃ bound, ∀ source tree, parse source = .ok tree → tree.height ≤ bound) ∧
      ¬ ∃ bound, ∀ source program, compile source = .ok program → program.root.height ≤ bound := by
  constructor
  · rintro ⟨bound, hbound⟩
    have hle := hbound _ _ (parse_conjunctions (bound + 1))
    exact absurd (lt_height_conjunctions bound) (Nat.not_lt.2 hle)
  · rintro ⟨bound, hbound⟩
    have hle := hbound _ _ (compile_conjunctions (bound + 1))
    exact absurd (lt_height_conjunctions bound) (Nat.not_lt.2 hle)

end Expr

end Targeting.Condition
