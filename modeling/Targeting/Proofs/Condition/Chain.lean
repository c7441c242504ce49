/-
# Chains of operators

A chain of operands and binary operators has many trees that read like it, but only
one that is grouped as the operators bind: the operator of a left operand binds at
least as tightly as the one it is an operand of, that of a right operand more
tightly. Reading a chain gives this tree, however long the chain is.

How the reader climbs along a chain is said as a relation on operators and operands,
without tokens and without the bound on nesting. That the tree is grouped, that it
reads like the chain, and that the reader follows are three inductions over it.
Nesting costs nothing in the length of a chain: each right operand is read for
operators that bind more tightly, and no operator binds tighter than 100.
-/

import Targeting.Proofs.Condition.Evaluation
import Targeting.Proofs.Condition.Grammar

namespace Targeting.Condition

open Targeting.Condition.Parser

/-- An operator of a chain and the operand after it. -/
abbrev Link := BinaryOp × Expr

namespace Expr

/-- The operator at the root of a binary expression. -/
def root? : Expr → Option BinaryOp
  | binary op _ _ => some op
  | _ => none

/-- An expression read from left to right: its first operand and the links after it. -/
def reading : Expr → Expr × List Link
  | binary op left right =>
    (left.reading.1, left.reading.2 ++ (op, right.reading.1) :: right.reading.2)
  | e => (e, [])

/-- An expression is grouped as its operators bind, equal ones to the left. -/
def Grouped : Expr → Prop
  | binary op left right =>
    (∀ inner ∈ left.root?, op.precedence ≤ inner.precedence) ∧
      (∀ inner ∈ right.root?, op.precedence < inner.precedence) ∧ left.Grouped ∧ right.Grouped
  | _ => True

theorem reading_of_root?_eq_none {e : Expr} (h : e.root? = none) : e.reading = (e, []) := by
  cases e <;> first | rfl | cases h

theorem grouped_of_root?_eq_none {e : Expr} (h : e.root? = none) : e.Grouped := by
  cases e <;> first | exact True.intro | cases h

end Expr

theorem Atom.root?_eq_none {kind : TokenKind} {atom : Expr} (h : Atom kind atom) :
    atom.root? = none := by
  cases h <;> rfl

theorem BinaryOp.precedence_le (op : BinaryOp) : op.precedence ≤ 100 := by
  cases op <;> decide

/-! ## Climbing -/

/-- Climbing along links from a left operand, by operators that bind at least as
tightly as given, leads to a tree and leaves links. -/
inductive Climb : (least : Nat) → (left : Expr) → List Link → (tree : Expr) → List Link → Prop
  | stop {least : Nat} {left : Expr} {links : List Link} :
      (∀ link ∈ links.head?, link.1.precedence < least) → Climb least left links left links
  | step {least : Nat} {op : BinaryOp} {left operand right tree : Expr}
      {links rest rest' : List Link} : least ≤ op.precedence →
      Climb (op.precedence + 1) operand links right rest →
      Climb least (.binary op left right) rest tree rest' →
      Climb least left ((op, operand) :: links) tree rest'

namespace Climb

variable {least : Nat} {left tree : Expr} {links rest : List Link}

/-- A climb takes links from the front and leaves the others. -/
theorem suffix (h : Climb least left links tree rest) : rest <:+ links := by
  induction h with
  | stop _ => exact List.suffix_rfl
  | step _ _ _ ihright ihrest => exact (ihrest.trans ihright).trans (List.suffix_cons _ _)

/-- There is a climb along every chain. -/
theorem exists_climb (links : List Link) :
    ∀ least left, ∃ tree rest, Climb least left links tree rest := by
  induction hlength : links.length using Nat.strong_induction_on generalizing links with
  | _ length ih =>
      intro least left
      rcases links with _ | ⟨⟨op, operand⟩, links⟩
      · exact ⟨left, [], .stop (by simp)⟩
      · by_cases hop : op.precedence < least
        · exact ⟨left, _, .stop (by simpa using hop)⟩
        · have hlt : links.length < length := by
            rw [← hlength, List.length_cons]
            omega
          obtain ⟨right, others, hright⟩ := ih _ hlt links rfl (op.precedence + 1) operand
          have hothers : others.length < length :=
            Nat.lt_of_le_of_lt hright.suffix.length_le hlt
          obtain ⟨tree, rest, hrest⟩ := ih _ hothers others rfl least (.binary op left right)
          exact ⟨tree, rest, .step (Nat.le_of_not_lt hop) hright hrest⟩

/-- The tree of a climb reads like the left operand and the links that were taken. -/
theorem reading (h : Climb least left links tree rest)
    (hlinks : ∀ link ∈ links, link.2.root? = none) :
    ∃ taken, links = taken ++ rest ∧ tree.reading = (left.reading.1, left.reading.2 ++ taken) := by
  induction h with
  | stop _ => exact ⟨[], rfl, by simp⟩
  | @step least op left operand right tree links others rest _ hright _ ihright ihrest =>
      obtain ⟨hoperand, hlinks⟩ := List.forall_mem_cons.1 hlinks
      have hothers : ∀ link ∈ others, link.2.root? = none :=
        fun link hlink => hlinks link (hright.suffix.subset hlink)
      obtain ⟨taken, rfl, hreadright⟩ := ihright hlinks
      obtain ⟨taken', rfl, hreadrest⟩ := ihrest hothers
      refine ⟨(op, operand) :: (taken ++ taken'), by simp, ?_⟩
      rw [hreadrest, Expr.reading, hreadright, Expr.reading_of_root?_eq_none hoperand]
      simp

/-- A climb from a grouped tree leads to a grouped tree if the next operator does not
bind more tightly than the tree's. It stops at an operator that binds less tightly
than it should, and if it took a link, then its root binds as tightly as it should. -/
theorem grouped (h : Climb least left links tree rest) (hleft : left.Grouped)
    (hlinks : ∀ link ∈ links, link.2.root? = none)
    (hnext : ∀ op ∈ left.root?, ∀ link ∈ links.head?, link.1.precedence ≤ op.precedence) :
    tree.Grouped ∧ (∀ link ∈ rest.head?, link.1.precedence < least) ∧
      (tree = left ∨ ∀ op ∈ tree.root?, least ≤ op.precedence) := by
  induction h with
  | stop hstop => exact ⟨hleft, hstop, .inl rfl⟩
  | @step least op left operand right tree links others rest hop hright _ ihright ihrest =>
      obtain ⟨hoperand, hlinks⟩ := List.forall_mem_cons.1 hlinks
      have hothers : ∀ link ∈ others, link.2.root? = none :=
        fun link hlink => hlinks link (hright.suffix.subset hlink)
      obtain ⟨hgroupedright, hstop, hroot⟩ :=
        ihright (Expr.grouped_of_root?_eq_none hoperand) hlinks (by simp [hoperand])
      have htighter : ∀ inner ∈ right.root?, op.precedence < inner.precedence := by
        rcases hroot with rfl | hroot
        · simp [hoperand]
        · exact hroot
      have hgrouped : (Expr.binary op left right).Grouped :=
        ⟨fun inner hinner => hnext inner hinner _ rfl, htighter, hleft, hgroupedright⟩
      have hnext' : ∀ outer ∈ (Expr.binary op left right).root?, ∀ link ∈ others.head?,
          link.1.precedence ≤ outer.precedence := by
        intro outer houter link hlink
        obtain rfl : op = outer := by simpa [Expr.root?] using houter
        exact Nat.le_of_lt_succ (hstop link hlink)
      obtain ⟨htree, hend, hroot'⟩ := ihrest hgrouped hothers hnext'
      refine ⟨htree, hend, .inr ?_⟩
      rcases hroot' with rfl | hroot'
      · simpa [Expr.root?] using hop
      · exact hroot'

end Climb

/-! ## The reader climbs -/

/-- Links as tokens, each operator written in one of its ways. -/
inductive Linked : List Link → List TokenKind → Prop
  | nil : Linked [] []
  | cons {op : BinaryOp} {atom : Expr} {links : List Link} {kind : TokenKind}
      {rest : List TokenKind} (symbol : List TokenKind) : symbol ∈ op.spellings →
      Atom kind atom → Linked links rest →
      Linked ((op, atom) :: links) (symbol ++ kind :: rest)

namespace Linked

/-- The tokens of links are those of the first operator, its operand and the others. -/
theorem exists_of_cons {op : BinaryOp} {atom : Expr} {links : List Link} {tokens : List Token}
    (h : Linked ((op, atom) :: links) (tokens.map Token.kind)) :
    ∃ symbol operand others, tokens = symbol ++ operand :: others ∧
      symbol.map Token.kind ∈ op.spellings ∧ Atom operand.kind atom ∧
      Linked links (others.map Token.kind) := by
  generalize hkinds : tokens.map Token.kind = kinds at h
  cases h with
  | cons symbol hop hatom hlinks =>
      obtain ⟨symbol, tail, rfl, rfl, htail⟩ := List.map_eq_append_iff.1 hkinds
      obtain ⟨operand, others, rfl, rfl, rfl⟩ := List.map_eq_cons_iff.1 htail
      exact ⟨symbol, operand, others, rfl, hop, hatom, hlinks⟩

theorem eq_nil_of_nil {tokens : List Token} (h : Linked [] (tokens.map Token.kind)) :
    tokens = [] := by
  generalize hkinds : tokens.map Token.kind = kinds at h
  cases h
  exact List.map_eq_nil_iff.1 hkinds

theorem root?_eq_none {links : List Link} {kinds : List TokenKind} (h : Linked links kinds) :
    ∀ link ∈ links, link.2.root? = none := by
  induction h with
  | nil => simp
  | cons _ _ hatom _ ih => exact List.forall_mem_cons.2 ⟨hatom.root?_eq_none, ih⟩

theorem length_le {links : List Link} {kinds : List TokenKind} (h : Linked links kinds) :
    links.length ≤ kinds.length := by
  induction h with
  | nil => simp
  | cons _ _ _ _ ih =>
      simp only [List.length_cons, List.length_append]
      omega

/-- No link starts with a parenthesis, so an atom in front of one is no call. -/
theorem kind_ne_leftParen {links : List Link} {tokens after : List Token}
    (h : Linked links (tokens.map Token.kind)) (hafter : (peek after).kind ≠ .leftParen) :
    (peek (tokens ++ after)).kind ≠ .leftParen := by
  rcases links with _ | ⟨⟨op, atom⟩, links⟩
  · rw [h.eq_nil_of_nil]
    exact hafter
  · obtain ⟨symbol, operand, others, rfl, hop, -, -⟩ := h.exists_of_cons
    rw [List.append_assoc]
    exact kind_ne_leftParen_of_spelling hop _

end Linked

theorem chain_of_atom {kind : TokenKind} {atom : Expr} (hatom : Atom kind atom)
    (inner : Option Level) (least offset : Nat) {rest : List Token}
    (hrest : (peek rest).kind ≠ .leftParen) :
    chain inner least (⟨kind, offset⟩ :: rest) = extend inner least rest.length atom rest := by
  rw [chain, unary_atom hatom inner offset hrest]
  rfl

/-- The reader follows a climb, if the levels left and the least precedence make 101. -/
theorem extend_of_climb {least : Nat} {left tree : Expr} {links rest : List Link}
    (h : Climb least left links tree rest) {after : List Token} (hafter : binaryOp? after = none)
    (hparen : (peek after).kind ≠ .leftParen) :
    ∀ (depth : Nat) {fuel : Nat} {tokens : List Token}, 101 ≤ least + depth → links.length ≤ fuel →
      Linked links (tokens.map Token.kind) →
      ∃ tokens', Linked rest (tokens'.map Token.kind) ∧
        extend (within depth) least fuel left (tokens ++ after) = .ok (tree, tokens' ++ after) := by
  induction h with
  | @stop least left links hstop =>
      intro depth fuel tokens _ _ htokens
      refine ⟨tokens, htokens, ?_⟩
      rcases links with _ | ⟨⟨op, atom⟩, links⟩
      · rw [htokens.eq_nil_of_nil]
        exact extend_of_binaryOp?_eq_none _ _ _ _ hafter
      · obtain ⟨symbol, operand, others, rfl, hop, -, -⟩ := htokens.exists_of_cons
        have hless : op.precedence < least := hstop _ rfl
        cases fuel with
        | zero => rfl
        | succ fuel =>
            rw [extend, List.append_assoc, binaryOp?_append hop]
            exact if_pos hless
  | @step least op left atom right tree links others rest hle hright _ ihright ihrest =>
      intro depth fuel tokens hdepth hfuel htokens
      obtain ⟨symbol, operand, tail, rfl, hop, hatom, htail⟩ := htokens.exists_of_cons
      have hop100 := op.precedence_le
      obtain ⟨depth, rfl⟩ : ∃ d, depth = d + 1 := ⟨depth - 1, by omega⟩
      obtain ⟨fuel, rfl⟩ : ∃ f, fuel = f + 1 := ⟨fuel - 1, by simp at hfuel; omega⟩
      have hlength : links.length ≤ (tail ++ after).length := by
        have := htail.length_le
        simp only [List.length_map, List.length_append] at this ⊢
        omega
      obtain ⟨between, hbetween, hreadright⟩ :=
        ihright depth (by omega) hlength htail
      have hothers : others.length ≤ fuel := by
        have := hright.suffix.length_le
        simp only [List.length_cons] at hfuel
        omega
      obtain ⟨tokens', htokens', hreadrest⟩ :=
        ihrest (depth + 1) hdepth hothers hbetween
      have hoperand : chain (within depth) (op.precedence + 1) (operand :: (tail ++ after)) =
          .ok (right, between ++ after) := by
        rw [← hreadright]
        exact chain_of_atom hatom _ _ _ (htail.kind_ne_leftParen hparen)
      refine ⟨tokens', htokens', ?_⟩
      rw [extend, List.append_assoc, List.cons_append, binaryOp?_append hop]
      simp only [Nat.not_lt.2 hle, if_false, List.drop_left, enter_within, hoperand]
      exact hreadrest

/-! ## One grouped tree for every chain -/

namespace Expr

theorem root?_eq_none_of_literalValue? {e : Expr} {v : Value} (h : e.literalValue? = some v) :
    e.root? = none := by
  cases e <;> first | rfl | cases h

/-- An expression that reads like a single operand is that operand. -/
theorem eq_of_reading_of_root?_eq_none {e e' : Expr} (hroot : e.root? = none)
    (heq : e.reading = e'.reading) : e = e' := by
  rw [reading_of_root?_eq_none hroot] at heq
  by_cases hroot' : e'.root? = none
  · rw [reading_of_root?_eq_none hroot'] at heq
    exact congrArg Prod.fst heq
  · cases e' <;> simp [root?] at hroot'
    simp [reading] at heq

/-- The root of a grouped tree binds no more tightly than any operator in it. -/
theorem Grouped.le_of_mem {e : Expr} (hgrouped : e.Grouped) :
    ∀ op ∈ e.root?, ∀ link ∈ e.reading.2, op.precedence ≤ link.1.precedence := by
  induction e using Expr.induction with
  | binary op left right ihleft ihright =>
      obtain ⟨hleft, hright, hgroupedleft, hgroupedright⟩ := hgrouped
      intro outer houter link hlink
      obtain rfl : op = outer := by simpa [root?] using houter
      rw [reading, List.mem_append, List.mem_cons] at hlink
      rcases hlink with hlink | rfl | hlink
      · cases hroot : left.root? with
        | none => simp [reading_of_root?_eq_none hroot] at hlink
        | some inner =>
            exact (hleft inner hroot).trans (ihleft hgroupedleft inner hroot link hlink)
      · exact Nat.le_refl _
      · cases hroot : right.root? with
        | none => simp [reading_of_root?_eq_none hroot] at hlink
        | some inner =>
            exact (hright inner hroot).le.trans (ihright hgroupedright inner hroot link hlink)
  | literal e v hliteral => simp [root?_eq_none_of_literalValue? hliteral]
  | _ => simp [root?]

/-- The operators left of the root bind at least as tightly as it does. -/
theorem Grouped.le_of_mem_left {op : BinaryOp} {left right : Expr}
    (h : (binary op left right).Grouped) :
    ∀ link ∈ left.reading.2, op.precedence ≤ link.1.precedence :=
  fun link hlink => h.le_of_mem op rfl link (List.mem_append_left _ hlink)

/-- The operators right of the root bind more tightly than it does. -/
theorem Grouped.lt_of_mem_right {op : BinaryOp} {left right : Expr}
    (h : (binary op left right).Grouped) :
    ∀ link ∈ right.reading.2, op.precedence < link.1.precedence := by
  obtain ⟨-, hright, -, hgroupedright⟩ := h
  intro link hlink
  cases hroot : right.root? with
  | none => simp [reading_of_root?_eq_none hroot] at hlink
  | some inner =>
      exact (hright inner hroot).trans_le (hgroupedright.le_of_mem inner hroot link hlink)

end Expr

/-- A chain has one link after which all operators bind more tightly and before which
none binds less tightly. -/
theorem length_le_of_append_eq {before before' after after' : List Link} {link link' : Link}
    (heq : before ++ link :: after = before' ++ link' :: after')
    (hbefore : ∀ other ∈ before, link.1.precedence ≤ other.1.precedence)
    (hafter' : ∀ other ∈ after', link'.1.precedence < other.1.precedence) :
    before.length ≤ before'.length := by
  by_contra hlonger
  have hwhole : before' ++ [link'] <+: before ++ link :: after := by
    rw [heq]
    exact ⟨after', by simp⟩
  have hlength : (before' ++ [link']).length ≤ before.length := by
    rw [List.length_append, List.length_singleton]
    omega
  obtain ⟨between, rfl⟩ :=
    List.prefix_of_prefix_length_le hwhole (List.prefix_append _ _) hlength
  have hmem : link ∈ after' := by
    have : between ++ link :: after = after' := by simpa using heq
    rw [← this]
    simp
  have hle := hbefore link' (by simp)
  have hlt := hafter' link hmem
  omega

namespace Expr

/-- A grouped tree is determined by how it reads. -/
theorem Grouped.eq_of_reading {e e' : Expr} (h : e.Grouped) (h' : e'.Grouped)
    (heq : e.reading = e'.reading) : e = e' := by
  induction e using Expr.induction generalizing e' with
  | binary op left right ihleft ihright =>
      cases e' with
      | binary op' left' right' =>
          rw [reading, reading, Prod.mk.injEq] at heq
          obtain ⟨hfirst, hlinks⟩ := heq
          have hlength : left.reading.2.length = left'.reading.2.length :=
            Nat.le_antisymm
              (length_le_of_append_eq hlinks h.le_of_mem_left h'.lt_of_mem_right)
              (length_le_of_append_eq hlinks.symm h'.le_of_mem_left h.lt_of_mem_right)
          obtain ⟨hbefore, hafter⟩ := List.append_inj hlinks hlength
          simp only [List.cons.injEq, Prod.mk.injEq] at hafter
          obtain ⟨⟨rfl, hoperand⟩, hrest⟩ := hafter
          rw [ihleft h.2.2.1 h'.2.2.1 (Prod.ext hfirst hbefore),
            ihright h.2.2.2 h'.2.2.2 (Prod.ext hoperand hrest)]
      | _ => exact (eq_of_reading_of_root?_eq_none rfl heq.symm).symm
  | literal e v hliteral =>
      exact eq_of_reading_of_root?_eq_none (root?_eq_none_of_literalValue? hliteral) heq
  | _ => exact eq_of_reading_of_root?_eq_none rfl heq

end Expr

/-- The reader of a level with enough levels inside reads a whole chain, as a grouped
tree that reads like the chain. -/
theorem chain_of_linked (depth : Nat) (hdepth : 101 ≤ depth) {first : Expr} {links : List Link}
    {operand : Token} (hfirst : Atom operand.kind first) {tokens after : List Token}
    (hlinks : Linked links (tokens.map Token.kind)) (hafter : binaryOp? after = none)
    (hparen : (peek after).kind ≠ .leftParen) :
    ∃ tree, chain (within depth) 0 (operand :: (tokens ++ after)) = .ok (tree, after) ∧
      tree.reading = (first, links) ∧ tree.Grouped := by
  have hroots := hlinks.root?_eq_none
  have hroot := hfirst.root?_eq_none
  obtain ⟨tree, rest, hclimb⟩ := Climb.exists_climb links 0 first
  obtain ⟨hgrouped, hrest, -⟩ :=
    hclimb.grouped (Expr.grouped_of_root?_eq_none hroot) hroots (by simp [hroot])
  obtain rfl : rest = [] := by
    rcases rest with _ | ⟨link, rest⟩
    · rfl
    · exact absurd (hrest link rfl) (Nat.not_lt_zero _)
  obtain ⟨taken, rfl, hreading⟩ := hclimb.reading hroots
  have hfuel : (taken ++ []).length ≤ (tokens ++ after).length := by
    have := hlinks.length_le
    simp only [List.length_map, List.length_append] at this ⊢
    omega
  obtain ⟨left, hleft, hread⟩ :=
    extend_of_climb hclimb hafter hparen depth (by omega) hfuel hlinks
  rw [hleft.eq_nil_of_nil, List.nil_append] at hread
  refine ⟨tree, ?_, ?_, hgrouped⟩
  · rw [← hread]
    exact chain_of_atom hfirst _ _ _ (hlinks.kind_ne_leftParen hparen)
  · rw [hreading, Expr.reading_of_root?_eq_none hroot, List.nil_append, List.append_nil]

namespace Expr

/-- A chain of operators is read, however long it is, as the tree that reads like the
chain and is grouped as the operators bind, equal ones to the left. There is one such
tree. Operands are literals and names, operators are written in any of their ways,
and blanks stand between tokens. -/
theorem parse_chain {first : Expr} {links : List Link} {kind : TokenKind} {kinds : List TokenKind}
    {source : String} (hfirst : Atom kind first) (hlinks : Linked links kinds)
    (hsource : Writes (kind :: kinds) source) :
    ∃ tree, parse source = .ok tree ∧ tree.reading = (first, links) ∧ tree.Grouped ∧
      ∀ other : Expr, other.reading = (first, links) → other.Grouped → other = tree := by
  obtain ⟨tokens, htokens, hkinds⟩ := tokenize_of_writes hsource
  obtain ⟨operand, tail, rfl, rfl, htail⟩ := List.map_eq_cons_iff.1 hkinds
  obtain ⟨linked, last, rfl, rfl, hlast⟩ := List.map_eq_append_iff.1 htail
  obtain ⟨⟨_, offset⟩, none, rfl, rfl, hnone⟩ := List.map_eq_cons_iff.1 hlast
  obtain rfl := List.map_eq_nil_iff.1 hnone
  obtain ⟨tree, hchain, hreading, hgrouped⟩ :=
    chain_of_linked 127 (by decide) hfirst hlinks (show binaryOp? [⟨.stop, offset⟩] = _ from rfl)
      (by simp)
  refine ⟨tree, ?_, hreading, hgrouped, fun other hother hgrouped' => ?_⟩
  · exact parse_of_expression htokens (expression_of_chain hchain (by simp)) rfl
  · exact hgrouped'.eq_of_reading hgrouped (hother.trans hreading.symm)

/-- Two differences group to the left, and `not in` takes two words. -/
theorem parse_chain_of_differences :
    parse "a - b - 2 not\tin c\n or d" = .ok (.binary .or
      (.binary .notMem (.binary .sub (.binary .sub (.ident "a") (.ident "b")) (.int 2))
        (.ident "c")) (.ident "d")) := by
  have hname : ∀ name ∈ ["a", "b", "c", "d"], IsName name := by decide
  have hlinks : Linked [(.sub, .ident "b"), (.sub, .int 2), (.notMem, .ident "c"),
      (.or, .ident "d")] [.operator (.binary .sub), .word "b", .operator (.binary .sub), .int 2,
        .word "not", .word "in", .word "c", .word "or", .word "d"] :=
    .cons [_] (by decide) (.ident (hname "b" (by decide)))
      (.cons [_] (by decide) (.int 2)
        (.cons [_, _] (by decide) (.ident (hname "c" (by decide)))
          (.cons [_] (by decide) (.ident (hname "d" (by decide))) .nil)))
  have hword : ∀ word, IsWord word → Spells (.word (String.ofList word)) word := fun _ => .word
  have hminus : Spells (.operator (.binary .sub)) ['-'] := .operator (by decide)
  have htwo : Spells (.int 2) ['2'] := .int (by decide) (by decide)
  have hspaced : Spaced (.word "a" :: [.operator (.binary .sub), .word "b",
      .operator (.binary .sub), .int 2, .word "not", .word "in", .word "c", .word "or",
      .word "d"]) "a - b - 2 not\tin c\n or d".toList :=
    .next [' '] (hword ['a'] (by decide)) (by decide) (by decide) <|
    .next [' '] hminus (by decide) (by decide) <|
    .next [' '] (hword ['b'] (by decide)) (by decide) (by decide) <|
    .next [' '] hminus (by decide) (by decide) <|
    .next [' '] htwo (by decide) (by decide) <|
    .next ['\t'] (hword ['n', 'o', 't'] (by decide)) (by decide) (by decide) <|
    .next [' '] (hword ['i', 'n'] (by decide)) (by decide) (by decide) <|
    .next ['\n', ' '] (hword ['c'] (by decide)) (by decide) (by decide) <|
    .next [' '] (hword ['o', 'r'] (by decide)) (by decide) (by decide) <|
    .last (hword ['d'] (by decide))
  have hsource : Writes _ "a - b - 2 not\tin c\n or d" :=
    ⟨[], _, [], by decide, by decide, hspaced, (List.append_nil _).symm⟩
  obtain ⟨tree, hparse, -, -, hunique⟩ :=
    parse_chain (.ident (hname "a" (by decide))) hlinks hsource
  rw [hparse, ← hunique (.binary .or (.binary .notMem (.binary .sub (.binary .sub (.ident "a")
    (.ident "b")) (.int 2)) (.ident "c")) (.ident "d")) rfl (by simp [Grouped, root?]; decide)]

end Expr

end Targeting.Condition
