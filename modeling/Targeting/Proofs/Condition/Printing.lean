/-
# Printing and reading back

An expression is printed with parentheses around its parts: operands, members of
lists, arguments and branches. Parts that stand alone, which are the single tokens,
lists and calls, need none but may have some. Reading undoes printing, with any
writing of the tokens and any blanks between them.

The reader goes at most two levels further in for a part of an expression, one for
the part and one for its parentheses. So the levels that an expression needs are
bounded by its height, and those there are suffice for trees of height 60.
-/

import Targeting.Proofs.Condition.Evaluation
import Targeting.Proofs.Condition.Grammar

namespace Targeting.Condition

open Targeting.Condition.Parser

/-! ## Printing -/

namespace Expr

/-- Expressions that need no parentheses as a part of another one. -/
def StandsAlone : Expr → Prop
  | int i => 0 ≤ i
  | unary _ _ | binary _ _ _ | conditional _ _ _ => False
  | _ => True

mutual

/-- An expression as tokens. -/
inductive Printed : Expr → List TokenKind → Prop
  | atom {kind : TokenKind} {e : Expr} : Atom kind e → Printed e [kind]
  | negative {i : Int64} : i < 0 → Printed (.int i) [.operator (.binary .sub), .int (-i)]
  | list {members : List Expr} {kinds : List TokenKind} : PrintedMembers members kinds →
      Printed (.list members) (.leftBracket :: (kinds ++ [.rightBracket]))
  | call {name : String} {args : List Expr} {kinds : List TokenKind} :
      PrintedMembers args kinds →
      Printed (.call name args) (.word name :: .leftParen :: (kinds ++ [.rightParen]))
  | unary {op : UnaryOp} {operand : Expr} {sign : TokenKind} {kinds : List TokenKind} :
      sign ∈ op.spellings → PrintedPart operand kinds →
      Printed (.unary op operand) (sign :: kinds)
  | binary {op : BinaryOp} {left right : Expr} {first symbol second : List TokenKind} :
      symbol ∈ op.spellings → PrintedPart left first → PrintedPart right second →
      Printed (.binary op left right) (first ++ (symbol ++ second))
  | conditional {condition thenCase elseCase : Expr} {first second third : List TokenKind} :
      PrintedPart condition first → PrintedPart thenCase second → PrintedPart elseCase third →
      Printed (.conditional condition thenCase elseCase)
        (first ++ .question :: (second ++ .colon :: third))

/-- An expression as a part of another one, in parentheses if it needs them. -/
inductive PrintedPart : Expr → List TokenKind → Prop
  | alone {e : Expr} {kinds : List TokenKind} : e.StandsAlone → Printed e kinds →
      PrintedPart e kinds
  | parens {e : Expr} {kinds : List TokenKind} : Printed e kinds →
      PrintedPart e (.leftParen :: (kinds ++ [.rightParen]))

/-- Members of a list, or arguments, with commas between them. -/
inductive PrintedMembers : List Expr → List TokenKind → Prop
  | nil : PrintedMembers [] []
  | last {member : Expr} {kinds : List TokenKind} : PrintedPart member kinds →
      PrintedMembers [member] kinds
  | more {member next : Expr} {others : List Expr} {kinds rest : List TokenKind} :
      PrintedPart member kinds → PrintedMembers (next :: others) rest →
      PrintedMembers (member :: next :: others) (kinds ++ .comma :: rest)

end

/-- A source that an expression is printed as. -/
def Prints (e : Expr) (source : String) : Prop :=
  ∃ kinds, (Printed e kinds ∨ PrintedPart e kinds) ∧ Writes kinds source

/-- The expressions that printing is meant for. The negation of an integer literal is
not one of them, as it reads as a literal itself; nor are the least integer and
numbers with a fraction. -/
inductive Printable : Expr → Prop
  | nil : Printable .nil
  | bool (b : Bool) : Printable (.bool b)
  | int {i : Int64} : i ≠ Int64.minValue → Printable (.int i)
  | text (s : String) : Printable (.text s)
  | list {members : List Expr} : (∀ member ∈ members, Printable member) →
      Printable (.list members)
  | ident {name : String} : IsName name → Printable (.ident name)
  | call {name : String} {args : List Expr} : IsName name → (∀ arg ∈ args, Printable arg) →
      Printable (.call name args)
  | unary {op : UnaryOp} {operand : Expr} : (∀ i, ¬ (op = .neg ∧ operand = .int i)) →
      Printable operand → Printable (.unary op operand)
  | binary {op : BinaryOp} {left right : Expr} : Printable left → Printable right →
      Printable (.binary op left right)
  | conditional {condition thenCase elseCase : Expr} : Printable condition →
      Printable thenCase → Printable elseCase → Printable (.conditional condition thenCase elseCase)

mutual

/-- Height of an expression; what has no parts has height 0. -/
def height : Expr → Nat
  | list members => heightAbove members
  | call _ args => heightAbove args
  | unary _ operand => height operand + 1
  | binary _ left right => max (height left) (height right) + 1
  | conditional condition thenCase elseCase =>
    max (height condition) (max (height thenCase) (height elseCase)) + 1
  | _ => 0

/-- Height of an expression with given parts. -/
def heightAbove : List Expr → Nat
  | [] => 0
  | first :: rest => max (height first + 1) (heightAbove rest)

end

theorem height_lt_heightAbove {member : Expr} {members : List Expr} (h : member ∈ members) :
    member.height < heightAbove members := by
  induction members with
  | nil => cases h
  | cons first rest ih =>
      rw [heightAbove]
      rcases List.mem_cons.1 h with rfl | hrest
      · omega
      · have := ih hrest
        omega

end Expr

/-! ## Reading parts -/

/-- Tokens after which an expression is complete. -/
def closers : List TokenKind := [.rightParen, .rightBracket, .comma, .colon, .stop]

/-- What is left starts with a token that completes an expression. -/
def Closes (rest : List Token) : Prop := (peek rest).kind ∈ closers

theorem Closes.binaryOp?_eq_none {rest : List Token} (h : Closes rest) :
    binaryOp? rest = none := by
  rcases rest with _ | ⟨⟨kind, offset⟩, rest⟩
  · rfl
  · simp only [Closes, closers, peek_cons, List.mem_cons, List.not_mem_nil, or_false] at h
    rcases h with rfl | rfl | rfl | rfl | rfl <;> rfl

theorem Closes.kind_ne {rest : List Token} (h : Closes rest) {kind : TokenKind}
    (hkind : kind ∉ closers) : (peek rest).kind ≠ kind :=
  fun heq => hkind (heq ▸ h)

/-- A chain may be a single operand. -/
theorem chain_of_unary {inner : Option Level} {tokens rest : List Token} {e : Expr}
    (hread : unary inner tokens = .ok (e, rest)) (least : Nat) (hrest : binaryOp? rest = none) :
    chain inner least tokens = .ok (e, rest) := by
  rw [chain, hread]
  exact extend_of_binaryOp?_eq_none _ _ _ _ hrest

/-- An expression may be a single operand. -/
theorem expression_of_unary {depth : Nat} {tokens rest : List Token} {e : Expr}
    (hread : unary (within depth) tokens = .ok (e, rest)) (hrest : Closes rest) :
    expression (within (depth + 1)) tokens = .ok (e, rest) :=
  expression_of_chain (chain_of_unary hread 0 hrest.binaryOp?_eq_none)
    (hrest.kind_ne (by decide))

/-- Tokens between brackets of some kind. -/
theorem exists_of_map_eq_bracketed {tokens : List Token} {opening closing : TokenKind}
    {kinds : List TokenKind} (h : tokens.map Token.kind = opening :: (kinds ++ [closing])) :
    ∃ offset body offset', tokens = ⟨opening, offset⟩ :: (body ++ [⟨closing, offset'⟩]) ∧
      body.map Token.kind = kinds := by
  obtain ⟨⟨_, offset⟩, tail, rfl, rfl, htail⟩ := List.map_eq_cons_iff.1 h
  obtain ⟨body, last, rfl, hbody, hlast⟩ := List.map_eq_append_iff.1 htail
  obtain ⟨⟨_, offset'⟩, rfl, rfl⟩ := List.map_eq_singleton_iff.1 hlast
  exact ⟨offset, body, offset', rfl, hbody⟩

/-- Reading undoes the printing of an expression. -/
structure ReadsBack (e : Expr) : Prop where
  /-- Where it stands alone, one level for each part is enough. -/
  alone : ∀ (depth : Nat) (tokens rest : List Token), 2 * e.height + 1 ≤ depth →
    e.StandsAlone → e.Printed (tokens.map Token.kind) → (peek rest).kind ≠ .leftParen →
    unary (within depth) (tokens ++ rest) = .ok (e, rest)
  whole : ∀ (depth : Nat) (tokens rest : List Token), 2 * e.height + 2 ≤ depth →
    e.Printed (tokens.map Token.kind) → Closes rest →
    expression (within depth) (tokens ++ rest) = .ok (e, rest)

namespace ReadsBack

variable {e : Expr}

theorem closes_cons {kind : TokenKind} (hkind : kind ∈ closers) (offset : Nat)
    (rest : List Token) : Closes (⟨kind, offset⟩ :: rest) :=
  hkind

/-- A part in parentheses is read as a whole expression. -/
theorem parens (h : ReadsBack e) {depth : Nat} (hdepth : 2 * e.height + 2 ≤ depth)
    {body : List Token} (hprinted : e.Printed (body.map Token.kind)) (offset offset' : Nat)
    (rest : List Token) :
    unary (within depth) (⟨.leftParen, offset⟩ :: (body ++ ⟨.rightParen, offset'⟩ :: rest)) =
      .ok (e, rest) := by
  have hread := h.whole depth body _ hdepth hprinted
    (closes_cons (by decide : TokenKind.rightParen ∈ closers) offset' rest)
  have hprimary : unaryOp? (⟨.leftParen, offset⟩ :: (body ++ ⟨.rightParen, offset'⟩ :: rest)) =
      none := rfl
  rw [unary, hprimary]
  simp [primary, hread, bind, Except.bind, expect, pure, Except.pure]

/-- Parts are read wherever two levels are left for each of their own parts. -/
theorem part (h : ReadsBack e) {depth : Nat} (hdepth : 2 * e.height + 2 ≤ depth)
    {tokens rest : List Token} (hprinted : e.PrintedPart (tokens.map Token.kind))
    (hrest : (peek rest).kind ≠ .leftParen) :
    unary (within depth) (tokens ++ rest) = .ok (e, rest) := by
  generalize hkinds : tokens.map Token.kind = kinds at hprinted
  cases hprinted with
  | alone halone hprinted =>
      subst hkinds
      exact h.alone depth tokens rest (by omega) halone hprinted hrest
  | parens hprinted =>
      obtain ⟨offset, body, offset', rfl, rfl⟩ := exists_of_map_eq_bracketed hkinds
      simpa using h.parens hdepth hprinted offset offset' rest

theorem expression_part (h : ReadsBack e) {depth : Nat} (hdepth : 2 * e.height + 2 ≤ depth)
    {tokens rest : List Token} (hprinted : e.PrintedPart (tokens.map Token.kind))
    (hrest : Closes rest) :
    expression (within (depth + 1)) (tokens ++ rest) = .ok (e, rest) :=
  expression_of_unary (h.part hdepth hprinted (hrest.kind_ne (by decide))) hrest

end ReadsBack

/-! ## Reading members -/

theorem Atom.not_mem_closers {kind : TokenKind} {atom : Expr} (h : Atom kind atom) :
    kind ∉ closers := by
  cases h <;> simp [closers]

/-- A printed part starts with a token that completes nothing. -/
theorem exists_cons_of_printedPart {e : Expr} {kinds : List TokenKind} (h : e.PrintedPart kinds) :
    ∃ kind tail, kinds = kind :: tail ∧ kind ∉ closers := by
  cases h with
  | parens _ => exact ⟨_, _, rfl, by decide⟩
  | alone halone hprinted =>
      cases hprinted with
      | atom hatom => exact ⟨_, _, rfl, hatom.not_mem_closers⟩
      | negative _ => exact ⟨_, _, rfl, by simp [closers]⟩
      | list _ => exact ⟨_, _, rfl, by decide⟩
      | call _ => exact ⟨_, _, rfl, by simp [closers]⟩
      | unary _ _ => exact halone.elim
      | binary _ _ _ => exact halone.elim
      | conditional _ _ _ => exact halone.elim

theorem length_le_of_printedMembers {members : List Expr} {kinds : List TokenKind}
    (h : Expr.PrintedMembers members kinds) : members.length ≤ kinds.length := by
  induction members generalizing kinds with
  | nil => simp
  | cons first others ih =>
      cases h with
      | last hpart =>
          obtain ⟨kind, tail, rfl, -⟩ := exists_cons_of_printedPart hpart
          simp
      | more hpart hothers =>
          have := ih hothers
          simp only [List.length_cons, List.length_append] at this ⊢
          omega

/-- Members are read one after the other, each as an expression. -/
theorem items_of_printedMembers {inner : Option Level} {close : TokenKind}
    (hclose : close ∈ closers) (hcomma : close ≠ .comma) (what : String) {members : List Expr}
    (hne : members ≠ [])
    (hparts : ∀ member ∈ members, ∀ tokens rest, member.PrintedPart (tokens.map Token.kind) →
      Closes rest → expression inner (tokens ++ rest) = .ok (member, rest))
    (offset : Nat) (rest : List Token) {fuel : Nat} (hfuel : members.length ≤ fuel)
    (before : List Expr) {tokens : List Token}
    (hprinted : Expr.PrintedMembers members (tokens.map Token.kind)) :
    items inner close what fuel before (tokens ++ ⟨close, offset⟩ :: rest) =
      .ok (before.reverse ++ members, rest) := by
  induction members generalizing fuel before tokens with
  | nil => exact absurd rfl hne
  | cons first others ih =>
      obtain ⟨hfirst, hothers⟩ := List.forall_mem_cons.1 hparts
      obtain ⟨fuel, rfl⟩ : ∃ f, fuel = f + 1 := ⟨fuel - 1, by simp at hfuel; omega⟩
      generalize hkinds : tokens.map Token.kind = kinds at hprinted
      cases hprinted with
      | last hpart =>
          subst hkinds
          have hread := hfirst tokens (⟨close, offset⟩ :: rest) hpart hclose
          simp [items, hread, bind, Except.bind, hcomma, expect, pure, Except.pure]
      | @more _ next others kinds kinds' hpart hmembers =>
          obtain ⟨part, tail, rfl, rfl, htail⟩ := List.map_eq_append_iff.1 hkinds
          obtain ⟨⟨_, offset'⟩, tail, rfl, rfl, rfl⟩ := List.map_eq_cons_iff.1 htail
          have hread := hfirst part (⟨.comma, offset'⟩ :: (tail ++ ⟨close, offset⟩ :: rest)) hpart
            (by simp [Closes, closers])
          have hlength : (next :: others).length ≤ fuel := by simpa using hfuel
          have hrest := ih (by simp) hothers hlength (first :: before) hmembers
          simp [items, hread, bind, Except.bind, hrest]

theorem exists_cons_of_printedMembers {first : Expr} {others : List Expr} {kinds : List TokenKind}
    (h : Expr.PrintedMembers (first :: others) kinds) :
    ∃ kind tail, kinds = kind :: tail ∧ kind ∉ closers := by
  cases h with
  | last hpart => exact exists_cons_of_printedPart hpart
  | more hpart _ =>
      obtain ⟨kind, tail, rfl, hkind⟩ := exists_cons_of_printedPart hpart
      exact ⟨kind, _, rfl, hkind⟩

/-- Printed members are read up to and with the closing token. -/
theorem itemList_of_printedMembers {inner : Option Level} {close : TokenKind}
    (hclose : close ∈ closers) (hcomma : close ≠ .comma) (what : String) {members : List Expr}
    (hparts : ∀ member ∈ members, ∀ tokens rest, member.PrintedPart (tokens.map Token.kind) →
      Closes rest → expression inner (tokens ++ rest) = .ok (member, rest))
    {tokens : List Token} (hprinted : Expr.PrintedMembers members (tokens.map Token.kind))
    (offset : Nat) (rest : List Token) :
    itemList inner close what (tokens ++ ⟨close, offset⟩ :: rest) = .ok (members, rest) := by
  rcases members with _ | ⟨first, others⟩
  · generalize hkinds : tokens.map Token.kind = kinds at hprinted
    cases hprinted
    rw [List.map_eq_nil_iff.1 hkinds]
    simp [itemList]
  · have hlength := length_le_of_printedMembers hprinted
    have hopen : (peek (tokens ++ ⟨close, offset⟩ :: rest)).kind ≠ close := by
      obtain ⟨kind, tail, hkinds, hkind⟩ := exists_cons_of_printedMembers hprinted
      obtain ⟨opening, tokens, rfl, rfl, -⟩ := List.map_eq_cons_iff.1 hkinds
      intro heq
      have hsame : opening.kind = close := heq
      exact hkind (hsame ▸ hclose)
    rw [itemList, if_neg hopen]
    refine items_of_printedMembers hclose hcomma what (by simp) hparts offset rest ?_ [] hprinted
    simp only [List.length_map, List.length_append] at hlength ⊢
    omega

/-! ## Reading whole expressions -/

/-- What is read as a part is read as a whole one level further out. -/
theorem ReadsBack.of_alone {e : Expr}
    (hread : ∀ (depth : Nat) (tokens rest : List Token), 2 * e.height + 1 ≤ depth →
      e.Printed (tokens.map Token.kind) → (peek rest).kind ≠ .leftParen →
      unary (within depth) (tokens ++ rest) = .ok (e, rest)) : ReadsBack e where
  alone depth tokens rest hdepth _ := hread depth tokens rest hdepth
  whole depth tokens rest hdepth hprinted hrest := by
    obtain ⟨depth, rfl⟩ : ∃ d, depth = d + 1 := ⟨depth - 1, by omega⟩
    exact expression_of_unary
      (hread depth tokens rest (by omega) hprinted (hrest.kind_ne (by decide))) hrest

theorem ReadsBack.of_atom {e : Expr}
    (h : ∀ kinds, e.Printed kinds → ∃ kind, kinds = [kind] ∧ Atom kind e) : ReadsBack e := by
  refine .of_alone fun depth tokens rest _ hprinted hrest => ?_
  obtain ⟨kind, hkinds, hatom⟩ := h _ hprinted
  obtain ⟨⟨_, offset⟩, rfl, rfl⟩ := List.map_eq_singleton_iff.1 hkinds
  exact unary_atom hatom (within depth) offset hrest

/-- A unary operator is applied to the operand after it. -/
theorem unary_of_operand {op : UnaryOp} {sign : Token} (hop : sign.kind ∈ op.spellings)
    {depth : Nat} {tokens rest : List Token} {operand : Expr}
    (hread : unary (within depth) tokens = .ok (operand, rest)) (hrest : binaryOp? rest = none) :
    unary (within (depth + 1)) (sign :: tokens) = .ok (applyUnary op operand, rest) := by
  have hchain := chain_of_unary hread op.precedence hrest
  simp [unary, unaryOp?_cons hop, enter_within, hchain, bind, Except.bind, pure, Except.pure]

theorem readsBack_int (i : Int64) : ReadsBack (.int i) where
  alone depth tokens rest _ halone hprinted hrest := by
    generalize hkinds : tokens.map Token.kind = kinds at hprinted
    cases hprinted with
    | atom hatom =>
        obtain ⟨⟨_, offset⟩, rfl, rfl⟩ := List.map_eq_singleton_iff.1 hkinds
        exact unary_atom hatom (within depth) offset hrest
    | negative hi => exact absurd hi (Int64.not_lt.2 halone)
  whole depth tokens rest hdepth hprinted hrest := by
    obtain ⟨depth, rfl⟩ : ∃ d, depth = d + 2 := ⟨depth - 2, by omega⟩
    have hparen : (peek rest).kind ≠ .leftParen := hrest.kind_ne (by decide)
    refine expression_of_unary ?_ hrest
    generalize hkinds : tokens.map Token.kind = kinds at hprinted
    cases hprinted with
    | atom hatom =>
        obtain ⟨⟨_, offset⟩, rfl, rfl⟩ := List.map_eq_singleton_iff.1 hkinds
        exact unary_atom hatom _ offset hparen
    | negative _ =>
        obtain ⟨sign, tail, rfl, hsign, htail⟩ := List.map_eq_cons_iff.1 hkinds
        obtain ⟨⟨_, offset⟩, rfl, rfl⟩ := List.map_eq_singleton_iff.1 htail
        have hminus : sign.kind ∈ UnaryOp.neg.spellings := by simp [hsign, UnaryOp.spellings]
        have hread := unary_of_operand hminus
          (unary_atom (.int (-i)) (within depth) offset hparen) hrest.binaryOp?_eq_none
        simpa [applyUnary] using hread

/-- Members are read where two levels are left for each of their parts, one for the
member and one for its parentheses. -/
theorem expression_of_member {members : List Expr} (h : ∀ member ∈ members, ReadsBack member)
    {depth : Nat} (hdepth : 2 * Expr.heightAbove members + 1 ≤ depth) :
    ∀ member ∈ members, ∀ tokens rest, member.PrintedPart (tokens.map Token.kind) →
      Closes rest → expression (within depth) (tokens ++ rest) = .ok (member, rest) := by
  intro member hmember tokens rest hpart hclose
  have hheight := Expr.height_lt_heightAbove hmember
  obtain ⟨depth, rfl⟩ : ∃ d, depth = d + 1 := ⟨depth - 1, by omega⟩
  exact (h member hmember).expression_part (by omega) hpart hclose

theorem readsBack_list {members : List Expr} (h : ∀ member ∈ members, ReadsBack member) :
    ReadsBack (.list members) := by
  refine .of_alone fun depth tokens rest hdepth hprinted _ => ?_
  generalize hkinds : tokens.map Token.kind = kinds at hprinted
  cases hprinted with
  | atom hatom => cases hatom
  | list hmembers =>
      obtain ⟨offset, body, offset', rfl, rfl⟩ := exists_of_map_eq_bracketed hkinds
      have hread := itemList_of_printedMembers (by decide : TokenKind.rightBracket ∈ closers)
        (by decide) "']'" (expression_of_member h hdepth) hmembers offset' rest
      have hnone : unaryOp? (⟨.leftBracket, offset⟩ :: (body ++ ⟨.rightBracket, offset'⟩ :: rest)) =
          none := rfl
      simp [unary, hnone, primary, hread, bind, Except.bind, pure, Except.pure]

theorem readsBack_call {name : String} {args : List Expr} (hname : IsName name)
    (h : ∀ arg ∈ args, ReadsBack arg) : ReadsBack (.call name args) := by
  refine .of_alone fun depth tokens rest hdepth hprinted _ => ?_
  generalize hkinds : tokens.map Token.kind = kinds at hprinted
  cases hprinted with
  | atom hatom => cases hatom
  | call hargs =>
      obtain ⟨⟨_, offset⟩, tail, rfl, rfl, htail⟩ := List.map_eq_cons_iff.1 hkinds
      obtain ⟨offset', body, offset'', rfl, rfl⟩ := exists_of_map_eq_bracketed htail
      have hread := itemList_of_printedMembers (by decide : TokenKind.rightParen ∈ closers)
        (by decide) "')'" (expression_of_member h hdepth) hargs offset'' rest
      have hnone := (Atom.ident hname).unaryOp?_eq_none offset
        (⟨.leftParen, offset'⟩ :: (body ++ ⟨.rightParen, offset''⟩ :: rest))
      obtain ⟨-, hkeyword, hliteral⟩ := hname
      simp only [List.mem_cons, List.not_mem_nil, or_false, not_or] at hliteral
      simp [unary, hnone, primary, hkeyword, hliteral, hread, bind, Except.bind, pure, Except.pure]

theorem readsBack_unary {op : UnaryOp} {operand : Expr} (h : ReadsBack operand)
    (happly : applyUnary op operand = .unary op operand) : ReadsBack (.unary op operand) where
  alone _ _ _ _ halone := halone.elim
  whole depth tokens rest hdepth hprinted hrest := by
    rw [Expr.height] at hdepth
    obtain ⟨depth, rfl⟩ : ∃ d, depth = d + 2 := ⟨depth - 2, by omega⟩
    generalize hkinds : tokens.map Token.kind = kinds at hprinted
    cases hprinted with
    | atom hatom => cases hatom
    | unary hop hpart =>
        obtain ⟨sign, body, rfl, rfl, rfl⟩ := List.map_eq_cons_iff.1 hkinds
        have hread : unary (within depth) (body ++ rest) = .ok (operand, rest) :=
          h.part (by omega) hpart (hrest.kind_ne (by decide))
        rw [← happly]
        exact expression_of_unary (unary_of_operand hop hread hrest.binaryOp?_eq_none) hrest

/-- A binary operator is applied to the operands around it. -/
theorem chain_of_operands {op : BinaryOp} {symbol : List Token}
    (hop : symbol.map Token.kind ∈ op.spellings) {depth : Nat} {tokens tokens' rest : List Token}
    {left right : Expr}
    (hleft : unary (within (depth + 1)) tokens = .ok (left, symbol ++ tokens'))
    (hright : unary (within depth) tokens' = .ok (right, rest)) (hrest : binaryOp? rest = none) :
    chain (within (depth + 1)) 0 tokens = .ok (.binary op left right, rest) := by
  have hchain := chain_of_unary hright (op.precedence + 1) hrest
  obtain ⟨fuel, hfuel⟩ : ∃ fuel, (symbol ++ tokens').length = fuel + 1 := by
    rcases symbol with _ | ⟨token, symbol⟩
    · cases op <;> simp [BinaryOp.spellings] at hop
    · exact ⟨(symbol ++ tokens').length, rfl⟩
  rw [chain, hleft]
  simp only [bind, Except.bind, hfuel, extend, binaryOp?_append hop, Nat.not_lt_zero, if_false,
    List.drop_left, enter_within, hchain]
  exact extend_of_binaryOp?_eq_none _ _ _ _ hrest

theorem readsBack_binary {op : BinaryOp} {left right : Expr} (hleft : ReadsBack left)
    (hright : ReadsBack right) : ReadsBack (.binary op left right) where
  alone _ _ _ _ halone := halone.elim
  whole depth tokens rest hdepth hprinted hrest := by
    rw [Expr.height] at hdepth
    obtain ⟨depth, rfl⟩ : ∃ d, depth = d + 2 := ⟨depth - 2, by omega⟩
    generalize hkinds : tokens.map Token.kind = kinds at hprinted
    cases hprinted with
    | atom hatom => cases hatom
    | binary hop hfirst hsecond =>
        obtain ⟨first, tail, rfl, rfl, htail⟩ := List.map_eq_append_iff.1 hkinds
        obtain ⟨symbol, second, rfl, rfl, rfl⟩ := List.map_eq_append_iff.1 htail
        have hreadleft : unary (within (depth + 1)) (first ++ (symbol ++ (second ++ rest))) =
            .ok (left, symbol ++ (second ++ rest)) :=
          hleft.part (by omega) hfirst (kind_ne_leftParen_of_spelling hop _)
        have hreadright : unary (within depth) (second ++ rest) = .ok (right, rest) :=
          hright.part (by omega) hsecond (hrest.kind_ne (by decide))
        rw [List.append_assoc, List.append_assoc]
        exact expression_of_chain
          (chain_of_operands hop hreadleft hreadright hrest.binaryOp?_eq_none)
          (hrest.kind_ne (by decide))

theorem readsBack_conditional {condition thenCase elseCase : Expr} (hcond : ReadsBack condition)
    (hthen : ReadsBack thenCase) (helse : ReadsBack elseCase) :
    ReadsBack (.conditional condition thenCase elseCase) where
  alone _ _ _ _ halone := halone.elim
  whole depth tokens rest hdepth hprinted hrest := by
    rw [Expr.height] at hdepth
    obtain ⟨depth, rfl⟩ : ∃ d, depth = d + 2 := ⟨depth - 2, by omega⟩
    generalize hkinds : tokens.map Token.kind = kinds at hprinted
    cases hprinted with
    | atom hatom => cases hatom
    | conditional hfirst hsecond hthird =>
        obtain ⟨first, tail, rfl, rfl, htail⟩ := List.map_eq_append_iff.1 hkinds
        obtain ⟨⟨_, offset⟩, branches, rfl, rfl, hbranches⟩ := List.map_eq_cons_iff.1 htail
        obtain ⟨second, last, rfl, rfl, hlast⟩ := List.map_eq_append_iff.1 hbranches
        obtain ⟨⟨_, offset'⟩, third, rfl, rfl, rfl⟩ := List.map_eq_cons_iff.1 hlast
        have hreadcond : chain (within (depth + 1)) 0
            (first ++ ⟨.question, offset⟩ :: (second ++ ⟨.colon, offset'⟩ :: (third ++ rest))) =
              .ok (condition,
                ⟨.question, offset⟩ :: (second ++ ⟨.colon, offset'⟩ :: (third ++ rest))) :=
          chain_of_unary (hcond.part (by omega) hfirst (by simp)) 0 rfl
        have hreadthen : expression (within (depth + 1))
            (second ++ ⟨.colon, offset'⟩ :: (third ++ rest)) =
            .ok (thenCase, ⟨.colon, offset'⟩ :: (third ++ rest)) :=
          hthen.expression_part (by omega) hsecond (by simp [Closes, closers])
        have hreadelse : expression (within (depth + 1)) (third ++ rest) = .ok (elseCase, rest) :=
          helse.expression_part (by omega) hthird hrest
        rw [expression, enter_within]
        simp [hreadcond, hreadthen, hreadelse, bind, Except.bind, expect, pure, Except.pure]

/-- Reading undoes printing for every expression that printing is meant for. -/
theorem readsBack_of_printable {e : Expr} (h : e.Printable) : ReadsBack e := by
  induction e using Expr.induction with
  | literal e v hliteral =>
      cases h with
      | nil => exact .of_atom fun kinds hprinted => by cases hprinted; exact ⟨_, rfl, ‹_›⟩
      | bool b => exact .of_atom fun kinds hprinted => by cases hprinted; exact ⟨_, rfl, ‹_›⟩
      | text s => exact .of_atom fun kinds hprinted => by cases hprinted; exact ⟨_, rfl, ‹_›⟩
      | int _ => exact readsBack_int _
      | _ => cases hliteral
  | list members ih =>
      cases h with
      | list hmembers =>
          exact readsBack_list fun member hmember => ih member hmember (hmembers member hmember)
  | ident name => exact .of_atom fun kinds hprinted => by cases hprinted; exact ⟨_, rfl, ‹_›⟩
  | call name args ih =>
      cases h with
      | call hname hargs => exact readsBack_call hname fun arg harg => ih arg harg (hargs arg harg)
  | unary op operand ih =>
      cases h with
      | unary hneg hoperand =>
          refine readsBack_unary (ih hoperand) ?_
          cases op with
          | not => rfl
          | neg =>
              cases hoperand with
              | int _ => exact absurd ⟨rfl, rfl⟩ (hneg _)
              | _ => rfl
  | binary op left right ihleft ihright =>
      cases h with
      | binary hleft hright => exact readsBack_binary (ihleft hleft) (ihright hright)
  | conditional condition thenCase elseCase ihcond ihthen ihelse =>
      cases h with
      | conditional hcond hthen helse =>
          exact readsBack_conditional (ihcond hcond) (ihthen hthen) (ihelse helse)

/-! ## Every printable expression has a printed form -/

/-- Tokens that are not none and that can each be written. -/
def Writable (kinds : List TokenKind) : Prop :=
  kinds ≠ [] ∧ ∀ kind ∈ kinds, ∃ lexeme, Spells kind lexeme

theorem exists_spells_mark {c : Char} {kind : TokenKind} (h : (c, kind) ∈ marks) :
    ∃ lexeme, Spells kind lexeme :=
  ⟨[c], .mark h⟩

theorem Writable.of_spells {kind : TokenKind} {lexeme : List Char} (h : Spells kind lexeme) :
    Writable [kind] :=
  ⟨by simp, by simpa using ⟨lexeme, h⟩⟩

theorem Writable.cons {kind : TokenKind} {kinds : List TokenKind}
    (h : ∃ lexeme, Spells kind lexeme) (hkinds : ∀ kind ∈ kinds, ∃ lexeme, Spells kind lexeme) :
    Writable (kind :: kinds) :=
  ⟨by simp, List.forall_mem_cons.2 ⟨h, hkinds⟩⟩

theorem Writable.append {first rest : List TokenKind} (h : Writable first)
    (hrest : ∀ kind ∈ rest, ∃ lexeme, Spells kind lexeme) : Writable (first ++ rest) :=
  ⟨by simp [h.1], List.forall_mem_append.2 ⟨h.2, hrest⟩⟩

theorem exists_printedPart {e : Expr} (h : ∃ kinds, e.Printed kinds ∧ Writable kinds) :
    ∃ kinds, e.PrintedPart kinds ∧ Writable kinds := by
  obtain ⟨kinds, hprinted, hwritable⟩ := h
  refine ⟨_, .parens hprinted, .cons (exists_spells_mark (c := '(') (by decide)) ?_⟩
  refine List.forall_mem_append.2 ⟨hwritable.2, ?_⟩
  simpa using exists_spells_mark (c := ')') (by decide)

theorem exists_printedMembers {members : List Expr}
    (h : ∀ member ∈ members, ∃ kinds, member.Printed kinds ∧ Writable kinds) :
    ∃ kinds, Expr.PrintedMembers members kinds ∧ ∀ kind ∈ kinds, ∃ lexeme, Spells kind lexeme := by
  induction members with
  | nil => exact ⟨[], .nil, by simp⟩
  | cons first others ih =>
      obtain ⟨hfirst, hothers⟩ := List.forall_mem_cons.1 h
      obtain ⟨kinds, hpart, hwritable⟩ := exists_printedPart hfirst
      obtain ⟨rest, hrest, hspells⟩ := ih hothers
      cases others with
      | nil => exact ⟨kinds, .last hpart, hwritable.2⟩
      | cons next others =>
          have hcomma : ∃ lexeme, Spells .comma lexeme :=
            exists_spells_mark (c := ',') (by decide)
          exact ⟨_, .more hpart hrest,
            List.forall_mem_append.2 ⟨hwritable.2, List.forall_mem_cons.2 ⟨hcomma, hspells⟩⟩⟩

theorem exists_printed_of_atom {kind : TokenKind} {e : Expr} {lexeme : List Char}
    (hatom : Atom kind e) (hspells : Spells kind lexeme) :
    ∃ kinds, e.Printed kinds ∧ Writable kinds :=
  ⟨_, .atom hatom, .of_spells hspells⟩

theorem exists_printed_int {i : Int64} (hi : i ≠ Int64.minValue) :
    ∃ kinds, (Expr.int i).Printed kinds ∧ Writable kinds := by
  by_cases hneg : i < 0
  · have hopposite : 0 ≤ -i := by
      have hmin : i.toInt ≠ -2 ^ 63 := fun h => hi (Int64.toInt_inj.1 h)
      have hrange := Int64.minValue_le_toInt i
      have hlt : i.toInt < 0 := Int64.lt_iff_toInt_lt.1 hneg
      have hminValue : Int64.minValue.toInt = -2 ^ 63 := by decide
      have hword : (-i.toInt).bmod (2 ^ 64) = -i.toInt :=
        Int.bmod_eq_of_le (by omega) (by omega)
      rw [Int64.le_iff_toInt_le, Int64.toInt_neg, hword]
      show 0 ≤ -i.toInt
      omega
    refine ⟨_, .negative hneg, .cons (exists_spells_operator (by decide)) ?_⟩
    simpa using ⟨_, Spells.integer hopposite⟩
  · exact exists_printed_of_atom (.int i) (.integer (Int64.not_lt.1 hneg))

theorem Expr.Printable.exists_printed {e : Expr} (h : e.Printable) :
    ∃ kinds, e.Printed kinds ∧ Writable kinds := by
  induction e using Expr.induction with
  | literal e v hliteral =>
      cases h with
      | nil => exact exists_printed_of_atom .nil (.name (by decide))
      | bool b =>
          cases b with
          | true => exact exists_printed_of_atom .true (.name (by decide))
          | false => exact exists_printed_of_atom .false (.name (by decide))
      | text s => exact exists_printed_of_atom (.text s) (.quoted (.inl rfl) s)
      | int hi => exact exists_printed_int hi
      | _ => cases hliteral
  | ident name =>
      cases h with
      | ident hname => exact exists_printed_of_atom (.ident hname) (.name hname.1)
  | list members ih =>
      cases h with
      | list hmembers =>
          obtain ⟨kinds, hprinted, hspells⟩ :=
            exists_printedMembers fun member hmember => ih member hmember (hmembers member hmember)
          refine ⟨_, .list hprinted, .cons (exists_spells_mark (c := '[') (by decide)) ?_⟩
          refine List.forall_mem_append.2 ⟨hspells, ?_⟩
          simpa using exists_spells_mark (c := ']') (by decide)
  | call name args ih =>
      cases h with
      | call hname hargs =>
          obtain ⟨kinds, hprinted, hspells⟩ :=
            exists_printedMembers fun arg harg => ih arg harg (hargs arg harg)
          refine ⟨_, .call hprinted, .cons (exists_spells_word hname.1) ?_⟩
          refine List.forall_mem_cons.2 ⟨exists_spells_mark (c := '(') (by decide), ?_⟩
          refine List.forall_mem_append.2 ⟨hspells, ?_⟩
          simpa using exists_spells_mark (c := ')') (by decide)
  | unary op operand ih =>
      cases h with
      | unary _ hoperand =>
          obtain ⟨kinds, hpart, hwritable⟩ := exists_printedPart (ih hoperand)
          obtain ⟨sign, hsign⟩ : ∃ sign, sign ∈ op.spellings := by
            cases op <;> exact ⟨_, List.mem_cons_self⟩
          exact ⟨_, .unary hsign hpart, .cons (UnaryOp.exists_spells hsign) hwritable.2⟩
  | binary op left right ihleft ihright =>
      cases h with
      | binary hleft hright =>
          obtain ⟨first, hfirst, hwritable⟩ := exists_printedPart (ihleft hleft)
          obtain ⟨second, hsecond, hwritable'⟩ := exists_printedPart (ihright hright)
          obtain ⟨symbol, hsymbol⟩ : ∃ symbol, symbol ∈ op.spellings := by
            cases op <;> exact ⟨_, List.mem_cons_self⟩
          exact ⟨_, .binary hsymbol hfirst hsecond, hwritable.append
            (List.forall_mem_append.2 ⟨BinaryOp.exists_spells hsymbol, hwritable'.2⟩)⟩
  | conditional condition thenCase elseCase ihcond ihthen ihelse =>
      cases h with
      | conditional hcond hthen helse =>
          obtain ⟨first, hfirst, hwritable⟩ := exists_printedPart (ihcond hcond)
          obtain ⟨second, hsecond, hwritable'⟩ := exists_printedPart (ihthen hthen)
          obtain ⟨third, hthird, hwritable''⟩ := exists_printedPart (ihelse helse)
          have hquestion : ∃ lexeme, Spells .question lexeme :=
            exists_spells_mark (c := '?') (by decide)
          have hcolon : ∃ lexeme, Spells .colon lexeme :=
            exists_spells_mark (c := ':') (by decide)
          exact ⟨_, .conditional hfirst hsecond hthird, hwritable.append
            (List.forall_mem_cons.2 ⟨hquestion, List.forall_mem_append.2 ⟨hwritable'.2,
              List.forall_mem_cons.2 ⟨hcolon, hwritable''.2⟩⟩⟩)⟩

namespace Expr

/-- Reading undoes printing. Every printable expression of height 60 at most can be
printed, and whichever way it is printed, with each operator written in any of its
ways, texts in either kind of quotes, and any blanks between the tokens, it is read
as just that expression. -/
theorem parse_printed {e : Expr} (hprintable : e.Printable) (hheight : e.height ≤ 60) :
    (∃ source, e.Prints source) ∧ ∀ source, e.Prints source → parse source = .ok e := by
  constructor
  · obtain ⟨kinds, hprinted, hne, hspells⟩ := hprintable.exists_printed
    obtain ⟨source, hsource⟩ := exists_writes hne hspells
    exact ⟨source, kinds, .inl hprinted, hsource⟩
  · rintro source ⟨kinds, hprinted, hsource⟩
    have hreads := readsBack_of_printable hprintable
    obtain ⟨tokens, htokens, hkinds⟩ := tokenize_of_writes hsource
    obtain ⟨body, last, rfl, rfl, hlast⟩ := List.map_eq_append_iff.1 hkinds
    obtain ⟨⟨_, offset⟩, rfl, rfl⟩ := List.map_eq_singleton_iff.1 hlast
    have hstop : Closes [⟨.stop, offset⟩] := by simp [Closes, closers]
    have hread : expression (within maxDepth) (body ++ [⟨.stop, offset⟩]) =
        .ok (e, [⟨.stop, offset⟩]) := by
      rcases hprinted with hwhole | hpart
      · exact hreads.whole maxDepth body _ (by rw [maxDepth]; omega) hwhole hstop
      · exact hreads.expression_part (by omega) hpart hstop
    exact parse_of_expression htokens hread rfl

/-- A negative integer in parentheses, a quote that is escaped, and blanks of several
kinds. -/
theorem parse_printed_membership :
    parse "( - 5 ) in\t[ 'it\\'s' ,\r\n( nil ) ]" =
      .ok (.binary .mem (.int (-5)) (.list [.text "it's", .nil])) := by
  have hfive : (Expr.int (-5)).PrintedPart _ := .parens (.negative (by decide))
  have htext : (Expr.text "it's").PrintedPart _ := .alone True.intro (.atom (.text "it's"))
  have hnil : Expr.nil.PrintedPart _ := .parens (.atom .nil)
  have hlist : (Expr.list [.text "it's", .nil]).PrintedPart _ :=
    .alone True.intro (.list (.more htext (.last hnil)))
  have hprinted := Printed.binary (show [.word "in"] ∈ BinaryOp.mem.spellings by decide) hfive hlist
  have hmark : ∀ c kind, (c, kind) ∈ marks → Spells kind [c] := fun _ _ => .mark
  have hminus : Spells (.operator (.binary .sub)) ['-'] := .operator (by decide)
  have hdigit : Spells (.int (-(-5))) ['5'] := .int (by decide) (by decide)
  have hquoted : Spells (.text "it's") "'it\\'s'".toList := .quoted (.inr rfl) "it's"
  have hspaced : Spaced [.leftParen, .operator (.binary .sub), .int (-(-5)), .rightParen,
      .word "in", .leftBracket, .text "it's", .comma, .leftParen, .word "nil", .rightParen,
      .rightBracket] "( - 5 ) in\t[ 'it\\'s' ,\r\n( nil ) ]".toList :=
    .next [' '] (hmark '(' _ (by decide)) (by decide) (by decide) <|
    .next [' '] hminus (by decide) (by decide) <|
    .next [' '] hdigit (by decide) (by decide) <|
    .next [' '] (hmark ')' _ (by decide)) (by decide) (by decide) <|
    .next ['\t'] (.name (show IsWord "in".toList by decide)) (by decide) (by decide) <|
    .next [' '] (hmark '[' _ (by decide)) (by decide) (by decide) <|
    .next [' '] hquoted (by decide) (by decide) <|
    .next ['\r', '\n'] (hmark ',' _ (by decide)) (by decide) (by decide) <|
    .next [' '] (hmark '(' _ (by decide)) (by decide) (by decide) <|
    .next [' '] (.name (show IsWord "nil".toList by decide)) (by decide) (by decide) <|
    .next [' '] (hmark ')' _ (by decide)) (by decide) (by decide) <|
    .last (hmark ']' _ (by decide))
  have hprintable : (Expr.binary .mem (.int (-5)) (.list [.text "it's", .nil])).Printable :=
    .binary (.int (by decide)) (.list (by simpa using ⟨.text _, .nil⟩))
  exact (parse_printed hprintable (by decide)).2 _
    ⟨_, .inl hprinted, [], _, [], by decide, by decide, hspaced, (List.append_nil _).symm⟩

end Expr

end Targeting.Condition
