/-
# Arithmetic as it is written

A source of arithmetic consists of numerals, names, parentheses and the signs of four
operators, in the order that the grammar asks for and with any blanks or none between
them. Here it is given as a tree with its parentheses, from which the pieces of the
source are listed and the expression is built that it stands for. The main statement is
that reading the source gives that expression. There are two obstacles, and no others:
a numeral that is no word, and parentheses, signs and right operands that go more
levels in than there are.

No blanks are needed because a numeral or a name always stands next to a sign or a
parenthesis. Signs and parentheses are read without looking at what follows them, and
none of them goes on with a numeral or a name.
-/

import Targeting.Proofs.Condition.Printing

namespace Targeting.Condition

open Targeting.Condition.Lexer
open Targeting.Condition.Parser

/-! ## Operators and pieces -/

/-- The operators of exact arithmetic. -/
inductive ArithOp where
  | add | sub | mul | rem
  deriving DecidableEq

namespace ArithOp

/-- The operator among those of conditions. -/
def op : ArithOp → BinaryOp
  | add => .add
  | sub => .sub
  | mul => .mul
  | rem => .rem

/-- The character that writes the operator. -/
def sign : ArithOp → Char
  | add => '+'
  | sub => '-'
  | mul => '*'
  | rem => '%'

theorem precedence_le (op : ArithOp) : op.op.precedence ≤ 60 := by
  cases op <;> decide

end ArithOp

/-- The number that a run of digits stands for. -/
def runValue (run : List Char) : Nat := Nat.ofDigitChars 10 (ungrouped run) 0

/-- Where nothing follows that could go on with a numeral or a name. -/
def Detached (rest : List Char) : Prop := ∀ c ∈ rest.head?, continuesWord c = false ∧ c ≠ '.'

/-- A token of arithmetic as it is written. -/
inductive Piece where
  | numeral (run : List Char)
  | name (word : String)
  | sign (op : ArithOp)
  | opening
  | closing

namespace Piece

def chars : Piece → List Char
  | numeral run => run
  | name word => word.toList
  | sign op => [op.sign]
  | opening => ['(']
  | closing => [')']

/-- What the piece is read as. A numeral beyond the words has no token of its own. -/
def kind : Piece → TokenKind
  | numeral run => .int (Int64.ofInt (runValue run))
  | name word => .word word
  | sign op => .operator (.binary op.op)
  | opening => .leftParen
  | closing => .rightParen

def WellFormed : Piece → Prop
  | numeral run => IsRun run
  | name word => IsWord word.toList
  | _ => True

/-- A numeral has to be a word. -/
def Readable : Piece → Prop
  | numeral run => (runValue run : Int) ≤ Int64.maxValue.toInt
  | _ => True

/-- Signs and parentheses. -/
def IsMark : Piece → Prop
  | numeral _ | name _ => False
  | _ => True

/-- One of two neighbours is a sign or a parenthesis. -/
def Apart (a b : Piece) : Prop := a.IsMark ∨ b.IsMark

end Piece

/-- Pieces in order, with blanks or none around each. -/
inductive Laid : List Piece → List Char → Prop
  | last (gap : List Char) : IsGap gap → Laid [] gap
  | next {piece : Piece} {pieces : List Piece} {rest : List Char} (gap : List Char) : IsGap gap →
      Laid pieces rest → Laid (piece :: pieces) (gap ++ (piece.chars ++ rest))

/-! ## Reading the pieces -/

theorem Detached.stops {rest : List Char} (hrest : Detached rest) :
    ∀ c ∈ rest.head?, continuesDigits c = false := by
  intro c hc
  obtain ⟨hword, -⟩ := hrest c hc
  simp only [continuesWord, Char.isAlphanum, Bool.or_eq_false_iff] at hword
  simp [continuesDigits, hword]

theorem Detached.exponentPart_eq_nil {rest : List Char} (hrest : Detached rest) :
    exponentPart rest = [] := by
  refine Condition.exponentPart_eq_nil fun c hc => ?_
  obtain ⟨hword, -⟩ := hrest c hc
  rintro (rfl | rfl) <;> exact absurd hword (by decide)

/-- Without its underscores a run of digits is a numeral. -/
theorem parse?_ungrouped {run : List Char} (hrun : IsRun run) :
    Word.parse? (ungrouped run) = Word.ofInt? (runValue run) := by
  obtain ⟨d, more, rfl, hdigit⟩ := hrun.exists_cons
  have hd : d ≠ '_' := by
    rintro rfl
    exact absurd hdigit (by decide)
  have hne : ungrouped (d :: more) ≠ [] := by
    simp [ungrouped, hd]
  have hdigits : ∀ c ∈ ungrouped (d :: more), c.isDigit := by
    intro c hc
    obtain ⟨hmem, hc⟩ := List.mem_filter.1 hc
    have hcontinues := hrun.2 c hmem
    simp only [continuesDigits, Bool.or_eq_true, decide_eq_true_eq] at hcontinues hc
    exact hcontinues.resolve_right hc
  rw [Word.parse?, Digits.signed?_of_digits hne hdigits]
  rfl

/-- A run of digits that nothing goes on with is an integer, if it is a word. -/
theorem number_run {run rest : List Char} (hrun : IsRun run) (hrest : Detached rest) :
    number (run ++ rest) =
      match Word.ofInt? (runValue run) with
      | some i => .ok (.int i, run.length - 1)
      | none => .error (.invalidNumber (String.ofList run)) := by
  have hinteger : (run ++ rest).takeWhile continuesDigits = run :=
    takeWhile_append_of_stops hrun.2 hrest.stops
  have hfraction : fractionPart rest = [] :=
    fractionPart_append .none hrest.stops fun hpoint => (hrest '.' hpoint).2 rfl
  simp only [number, hinteger, List.drop_left, hfraction, List.length_nil, List.drop_zero,
    hrest.exponentPart_eq_nil, parse?_ungrouped hrun]
  cases Word.ofInt? (runValue run) <;> rfl

theorem ofInt?_of_le {n : Nat} (hn : (n : Int) ≤ Int64.maxValue.toInt) :
    Word.ofInt? n = some (Int64.ofInt n) := by
  have hmin : Int64.minValue.toInt ≤ 0 := by decide
  rw [Word.ofInt?, if_pos ⟨by omega, hn⟩]

theorem ofInt?_of_gt {n : Nat} (hn : ¬ (n : Int) ≤ Int64.maxValue.toInt) :
    Word.ofInt? n = none := by
  rw [Word.ofInt?, if_neg fun h => hn h.2]

namespace Piece

/-- The first character of a piece is not blank. -/
theorem WellFormed.exists_cons {piece : Piece} (hpiece : piece.WellFormed) :
    ∃ c tail, piece.chars = c :: tail ∧ Blank.isAscii c = false := by
  cases piece with
  | numeral run =>
      obtain ⟨d, more, rfl, hdigit⟩ := IsRun.exists_cons hpiece
      exact ⟨d, more, rfl, isAscii_eq_false hdigit (by decide)⟩
  | name word => exact (Spells.name hpiece).exists_cons
  | sign op => exact ⟨_, [], rfl, by cases op <;> decide⟩
  | opening => exact ⟨_, [], rfl, by decide⟩
  | closing => exact ⟨_, [], rfl, by decide⟩

theorem lexeme_sign (op : ArithOp) (rest : List Char) :
    lexeme op.sign rest = .ok (.operator (.binary op.op), 0) := by
  cases op <;> rfl

/-- What is found where a piece stands: the token, or an objection to a numeral. -/
theorem lexeme_eq {piece : Piece} (hpiece : piece.WellFormed) {c : Char} {tail rest : List Char}
    (hcons : piece.chars = c :: tail) (hrest : piece.IsMark ∨ Detached rest) :
    (piece.Readable → lexeme c (tail ++ rest) = .ok (piece.kind, tail.length)) ∧
      (¬ piece.Readable → ∃ run, piece = .numeral run ∧
        lexeme c (tail ++ rest) = .error (.invalidNumber (String.ofList run))) := by
  cases piece with
  | numeral run =>
      obtain rfl : run = c :: tail := hcons
      obtain ⟨d, more, heq, hdigit⟩ := IsRun.exists_cons hpiece
      cases heq
      have hread := number_run hpiece (hrest.resolve_left id)
      rw [lexeme_digit hdigit, ← List.cons_append, hread]
      refine ⟨fun hreadable => ?_, fun hreadable => ⟨_, rfl, ?_⟩⟩
      · rw [ofInt?_of_le hreadable]
        rfl
      · rw [ofInt?_of_gt hreadable]
  | name word =>
      refine ⟨fun _ => ?_, fun hreadable => absurd True.intro hreadable⟩
      have hword : IsWord (c :: tail) := hcons ▸ hpiece
      have hread := lexeme_word hword fun d hd => (hrest.resolve_left id d hd).1
      rw [hread, ← hcons]
      simp [chars, kind]
  | sign op =>
      refine ⟨fun _ => ?_, fun hreadable => absurd True.intro hreadable⟩
      cases hcons
      exact lexeme_sign op rest
  | opening | closing =>
      refine ⟨fun _ => ?_, fun hreadable => absurd True.intro hreadable⟩
      cases hcons
      rfl

/-- A piece that stands next to a numeral or a name does not go on with it. -/
theorem detached_of_laid {pieces : List Piece} {rest : List Char} (hlaid : Laid pieces rest)
    (hmark : ∀ piece ∈ pieces.head?, piece.IsMark) : Detached rest := by
  have hgap {gap after : List Char} (hgap : IsGap gap) (hafter : Detached after) :
      Detached (gap ++ after) := by
    rcases gap with _ | ⟨b, gap⟩
    · exact hafter
    · intro c hc
      obtain rfl : b = c := by simpa using hc
      have hbreaks : Breaks [b] := by simpa [Breaks] using hgap b List.mem_cons_self
      refine ⟨hbreaks.stops (by decide) b rfl, ?_⟩
      rintro rfl
      exact absurd (hbreaks '.' rfl) (by decide)
  cases hlaid with
  | last gap hblank =>
      have hend : Detached [] := by simp [Detached]
      simpa using hgap hblank hend
  | @next piece pieces rest gap hblank _ =>
      refine hgap hblank ?_
      have hpiece : piece.IsMark := hmark piece rfl
      cases piece with
      | numeral run => exact hpiece.elim
      | name word => exact hpiece.elim
      | sign op => cases op <;> simp [Detached, chars, ArithOp.sign] <;> decide
      | opening => simp [Detached, chars]; decide
      | closing => simp [Detached, chars]; decide

end Piece

/-! ## Scanning -/

/-- A scan that fails after a token fails. -/
theorem scan_eq_error {c : Char} {tail rest : List Char} {kind : TokenKind}
    (hblank : Blank.isAscii c = false)
    (hread : lexeme c (tail ++ rest) = .ok (kind, tail.length)) {problem : SyntaxProblem}
    (hrest : ∀ offset, ∃ place, scan 0 offset rest = .error ⟨place, problem⟩) (offset : Nat) :
    ∃ place, scan 0 offset (c :: (tail ++ rest)) = .error ⟨place, problem⟩ := by
  obtain ⟨offset', hskip⟩ := scan_skip tail rest (offset + c.utf8Size)
  obtain ⟨place, hscan⟩ := hrest offset'
  refine ⟨place, ?_⟩
  rw [scan, hblank, hread]
  simp [hskip, hscan]

/-- Pieces that are laid out are read one by one, up to the first numeral that is no word. -/
theorem Laid.scan {pieces : List Piece} {text : List Char} (hlaid : Laid pieces text)
    (hpieces : ∀ piece ∈ pieces, piece.WellFormed) (hapart : pieces.IsChain Piece.Apart) :
    ((∀ piece ∈ pieces, piece.Readable) → ScansTo text (pieces.map Piece.kind ++ [.stop])) ∧
      (¬ (∀ piece ∈ pieces, piece.Readable) → ∃ run, .numeral run ∈ pieces ∧
        ¬ (Piece.numeral run).Readable ∧ ∀ offset, ∃ place,
          Lexer.scan 0 offset text = .error ⟨place, .invalidNumber (String.ofList run)⟩) := by
  induction hlaid with
  | last gap hgap =>
      refine ⟨fun _ => ?_, fun hreadable => absurd (by simp) hreadable⟩
      simpa using scansTo_nil.blanks hgap
  | @next piece pieces rest gap hgap hrest ih =>
      obtain ⟨hpiece, hpieces⟩ := List.forall_mem_cons.1 hpieces
      obtain ⟨hhead, hapart⟩ := List.isChain_cons.1 hapart
      obtain ⟨c, tail, hcons, hblank⟩ := hpiece.exists_cons
      have hnext : piece.IsMark ∨ Detached rest := by
        by_cases hmark : piece.IsMark
        · exact .inl hmark
        · exact .inr (Piece.detached_of_laid hrest fun next hmem =>
            (hhead next hmem).resolve_left hmark)
      obtain ⟨hread, hrefused⟩ := Piece.lexeme_eq hpiece hcons hnext
      obtain ⟨hscans, herror⟩ := ih hpieces hapart
      rw [hcons, List.cons_append]
      refine ⟨fun hreadable => ?_, fun hreadable => ?_⟩
      · obtain ⟨hfirst, hothers⟩ := List.forall_mem_cons.1 hreadable
        exact (ScansTo.cons hblank (hread hfirst) (hscans hothers)).blanks hgap
      · by_cases hfirst : piece.Readable
        · have hothers : ¬ ∀ piece ∈ pieces, piece.Readable :=
            fun h => hreadable (List.forall_mem_cons.2 ⟨hfirst, h⟩)
          obtain ⟨run, hrun, hlarge, hscan⟩ := herror hothers
          refine ⟨run, List.mem_cons_of_mem _ hrun, hlarge, fun offset => ?_⟩
          obtain ⟨offset', hskip⟩ := scan_blanks hgap (c :: (tail ++ rest)) offset
          rw [hskip]
          exact scan_eq_error hblank (hread hfirst) hscan offset'
        · obtain ⟨run, rfl, hlexeme⟩ := hrefused hfirst
          refine ⟨run, List.mem_cons_self, hfirst, fun offset => ?_⟩
          obtain ⟨offset', hskip⟩ := scan_blanks hgap (c :: (tail ++ rest)) offset
          refine ⟨offset', ?_⟩
          rw [hskip, Lexer.scan, hblank, hlexeme]
          rfl

/-! ## Trees -/

/-- Arithmetic with its parentheses. -/
inductive Arith where
  | numeral (run : List Char) (hrun : IsRun run)
  | name (word : String) (hword : IsName word)
  | parens (inner : Arith)
  | neg (operand : Arith)
  | binary (op : ArithOp) (left right : Arith)

namespace Arith

/-- The pieces of the source, in order. -/
def pieces : Arith → List Piece
  | numeral run _ => [.numeral run]
  | name word _ => [.name word]
  | parens inner => .opening :: (inner.pieces ++ [.closing])
  | neg operand => .sign .sub :: operand.pieces
  | binary op left right => left.pieces ++ .sign op :: right.pieces

/-- The expression that is meant. The negation of a numeral is an integer itself. -/
def tree : Arith → Expr
  | numeral run _ => .int (Int64.ofInt (runValue run))
  | name word _ => .ident word
  | parens inner => inner.tree
  | neg operand => applyUnary .neg operand.tree
  | binary op left right => .binary op.op left.tree right.tree

/-- The parentheses are where the grammar needs them for operators that bind at least as tightly as
given: equal operators group to the left, and the minus sign binds tighter than all others. -/
def Groups (least : Nat) : Arith → Prop
  | numeral _ _ | name _ _ => True
  | parens inner => inner.Groups 0
  | neg operand => operand.Groups UnaryOp.neg.precedence
  | binary op left right =>
    least ≤ op.op.precedence ∧ left.Groups op.op.precedence ∧ right.Groups (op.op.precedence + 1)

/-- How many levels the reader goes further in. A left operand stays on the level of its operator. -/
def depth : Arith → Nat
  | numeral _ _ | name _ _ => 0
  | parens inner => inner.depth + 1
  | neg operand => operand.depth + 1
  | binary _ left right => max left.depth (right.depth + 1)

/-- Every numeral is a word. -/
def Readable (e : Arith) : Prop := ∀ piece ∈ e.pieces, piece.Readable

theorem wellFormed (e : Arith) : ∀ piece ∈ e.pieces, piece.WellFormed := by
  induction e with
  | numeral run hrun => simpa [pieces, Piece.WellFormed] using hrun
  | name word hword => simpa [pieces, Piece.WellFormed] using hword.1
  | parens inner ih =>
      simpa [pieces, or_imp, forall_and, Piece.WellFormed] using ih
  | neg operand ih => simpa [pieces, Piece.WellFormed] using ih
  | binary op left right ihleft ihright =>
      simpa [pieces, or_imp, forall_and, Piece.WellFormed] using ⟨ihleft, ihright⟩

/-- Numerals and names stand next to signs and parentheses only. -/
theorem isChain_apart (e : Arith) : e.pieces.IsChain Piece.Apart := by
  induction e with
  | numeral _ _ => simp [pieces]
  | name _ _ => simp [pieces]
  | parens inner ih =>
      simpa [pieces, List.isChain_cons, List.isChain_append, Piece.Apart, Piece.IsMark] using ih
  | neg operand ih => simpa [pieces, List.isChain_cons, Piece.Apart, Piece.IsMark] using ih
  | binary op left right ihleft ihright =>
      simpa [pieces, List.isChain_cons, List.isChain_append, Piece.Apart, Piece.IsMark] using
        ⟨ihleft, ihright⟩

end Arith

/-! ## Reading the tree -/

/-- After arithmetic that binds at least as tightly as given comes an operator that does not bind
more tightly, or a token that completes an expression. -/
def Follows (least : Nat) (rest : List Token) : Prop :=
  Closes rest ∨ ∃ (op : ArithOp) (offset : Nat) (more : List Token),
    rest = ⟨.operator (.binary op.op), offset⟩ :: more ∧ op.op.precedence ≤ least

namespace Follows

variable {least : Nat} {rest : List Token}

theorem kind_ne_leftParen (h : Follows least rest) : (peek rest).kind ≠ .leftParen := by
  obtain hcloses | ⟨op, offset, more, rfl, -⟩ := h
  · exact hcloses.kind_ne (by decide)
  · simp

theorem mono (h : Follows least rest) {least' : Nat} (hle : least ≤ least') :
    Follows least' rest :=
  h.imp_right fun ⟨op, offset, more, hrest, hop⟩ => ⟨op, offset, more, hrest, hop.trans hle⟩

/-- No operator of arithmetic binds more tightly than sixty. -/
theorem sixty (h : Follows least rest) : Follows 60 rest :=
  h.imp_right fun ⟨op, offset, more, hrest, _⟩ => ⟨op, offset, more, hrest, op.precedence_le⟩

/-- A chain of operators that bind more tightly ends here. -/
theorem extend_eq (h : Follows least rest) (inner : Option Level) {least' : Nat}
    (hlt : least < least') (fuel : Nat) (left : Expr) :
    extend inner least' fuel left rest = .ok (left, rest) := by
  obtain hcloses | ⟨op, offset, more, rfl, hop⟩ := h
  · exact extend_of_binaryOp?_eq_none _ _ _ _ hcloses.binaryOp?_eq_none
  · cases fuel with
    | zero => rfl
    | succ fuel =>
        have hread : binaryOp? (⟨.operator (.binary op.op), offset⟩ :: more) = some (op.op, 1) := rfl
        rw [extend, hread]
        exact if_pos (Nat.lt_of_le_of_lt hop hlt)

end Follows

/-- How a chain is read that starts with an expression: as what the expression starts, or not at all
where it goes in too far. -/
structure Starts (depth : Nat) (tree : Expr) (need least : Nat) (tokens rest : List Token) :
    Prop where
  goesOn : need ≤ depth → ∃ fuel, rest.length ≤ fuel ∧
    chain (within depth) least (tokens ++ rest) = extend (within depth) least fuel tree rest
  tooDeep : depth < need → ∃ offset,
    chain (within depth) least (tokens ++ rest) = .error ⟨offset, .nestedTooDeeply⟩

namespace Starts

variable {depth need least : Nat} {tree : Expr} {tokens rest : List Token}

/-- A chain that starts with one operand goes on after it. -/
theorem of_unary
    (hread : need ≤ depth → unary (within depth) (tokens ++ rest) = .ok (tree, rest))
    (hdeep : depth < need → ∃ offset,
      unary (within depth) (tokens ++ rest) = .error ⟨offset, .nestedTooDeeply⟩) :
    Starts depth tree need least tokens rest where
  goesOn hneed := ⟨rest.length, Nat.le_refl _, by rw [chain, hread hneed]; rfl⟩
  tooDeep hneed := by
    obtain ⟨offset, herror⟩ := hdeep hneed
    exact ⟨offset, by rw [chain, herror]; rfl⟩

/-- One level further in, a chain is all that there is to an operand if none of what follows belongs
to it. -/
theorem enter_eq {depth : Nat} {stop : Nat}
    (h : ∀ inner, depth = inner + 1 → Starts inner tree need least tokens rest)
    (hfollows : Follows stop rest) (hstop : stop < least) :
    (need + 1 ≤ depth → enter (within depth) (fun level => level.chain least) (tokens ++ rest) =
        .ok (tree, rest)) ∧
      (depth < need + 1 → ∃ offset,
        enter (within depth) (fun level => level.chain least) (tokens ++ rest) =
          .error ⟨offset, .nestedTooDeeply⟩) := by
  cases depth with
  | zero => exact ⟨fun h => by omega, fun _ => ⟨_, rfl⟩⟩
  | succ inner =>
      rw [enter_within]
      refine ⟨fun hneed => ?_, fun hneed => (h inner rfl).tooDeep (by omega)⟩
      obtain ⟨fuel, -, hchain⟩ := (h inner rfl).goesOn (by omega)
      exact hchain.trans (hfollows.extend_eq _ hstop _ _)

/-- One level further in, an expression is all that there is up to a token that completes it. -/
theorem expression_eq (depth : Nat)
    (h : ∀ inner, depth = inner + 1 → Starts inner tree need 0 tokens rest) (hrest : Closes rest) :
    (need + 1 ≤ depth → expression (within depth) (tokens ++ rest) = .ok (tree, rest)) ∧
      (depth < need + 1 → ∃ offset,
        expression (within depth) (tokens ++ rest) = .error ⟨offset, .nestedTooDeeply⟩) := by
  cases depth with
  | zero => exact ⟨fun h => by omega, fun _ => ⟨_, rfl⟩⟩
  | succ inner =>
      refine ⟨fun hneed => ?_, fun hneed => ?_⟩
      · obtain ⟨fuel, -, hchain⟩ := (h inner rfl).goesOn (by omega)
        rw [extend_of_binaryOp?_eq_none _ _ _ _ hrest.binaryOp?_eq_none] at hchain
        exact expression_of_chain hchain (hrest.kind_ne (by decide))
      · obtain ⟨offset, herror⟩ := (h inner rfl).tooDeep (by omega)
        refine ⟨offset, ?_⟩
        rw [expression, enter_within]
        simp only [herror]
        rfl

/-- An expression in parentheses is one operand. -/
theorem of_parens {least : Nat} (offset offset' : Nat)
    (h : ∀ inner, depth = inner + 1 →
      Starts inner tree need 0 tokens (⟨.rightParen, offset'⟩ :: rest)) :
    Starts depth tree (need + 1) least
      (⟨.leftParen, offset⟩ :: (tokens ++ [⟨.rightParen, offset'⟩])) rest := by
  have hcloses : Closes (⟨.rightParen, offset'⟩ :: rest) := by simp [Closes, closers]
  obtain ⟨hread, hdeep⟩ := expression_eq depth h hcloses
  have hsign : unaryOp? (⟨.leftParen, offset⟩ :: (tokens ++ [⟨.rightParen, offset'⟩]) ++ rest) =
      none := rfl
  refine .of_unary (fun hneed => ?_) fun hneed => ?_
  · rw [unary, hsign]
    simp [primary, hread hneed, bind, Except.bind, expect, pure, Except.pure]
  · obtain ⟨place, herror⟩ := hdeep hneed
    refine ⟨place, ?_⟩
    rw [unary, hsign]
    simp [primary, herror, bind, Except.bind]

/-- A minus sign and its operand are one operand. -/
theorem of_neg {least stop : Nat} (offset : Nat)
    (h : ∀ inner, depth = inner + 1 →
      Starts inner tree need UnaryOp.neg.precedence tokens rest)
    (hrest : Follows stop rest) :
    Starts depth (applyUnary .neg tree) (need + 1) least
      (⟨.operator (.binary .sub), offset⟩ :: tokens) rest := by
  obtain ⟨hread, hdeep⟩ := enter_eq h hrest.sixty (by decide)
  have hsign : unaryOp? (⟨.operator (.binary .sub), offset⟩ :: tokens ++ rest) = some .neg := rfl
  refine .of_unary (fun hneed => ?_) fun hneed => ?_
  · rw [unary, hsign]
    simp only [List.cons_append, List.tail_cons, hread hneed]
    rfl
  · obtain ⟨place, herror⟩ := hdeep hneed
    refine ⟨place, ?_⟩
    rw [unary, hsign]
    simp only [List.cons_append, List.tail_cons, herror]
    rfl

/-- A chain that starts with the left operand of an operator starts with both operands. -/
theorem of_binary {op : ArithOp} {left right : Expr} {need' stop offset : Nat}
    {first second : List Token} (hleast : least ≤ op.op.precedence)
    (hleft : Starts depth left need least first
      (⟨.operator (.binary op.op), offset⟩ :: (second ++ rest)))
    (hright : ∀ inner, depth = inner + 1 →
      Starts inner right need' (op.op.precedence + 1) second rest)
    (hrest : Follows stop rest) (hstop : stop ≤ op.op.precedence) :
    Starts depth (.binary op.op left right) (max need (need' + 1)) least
      (first ++ ⟨.operator (.binary op.op), offset⟩ :: second) rest := by
  obtain ⟨hread, hdeep⟩ := enter_eq hright hrest (Nat.lt_succ_of_le hstop)
  have hop : binaryOp? (⟨.operator (.binary op.op), offset⟩ :: (second ++ rest)) =
      some (op.op, 1) := rfl
  have hextend (fuel : Nat) : extend (within depth) least (fuel + 1) left
      (⟨.operator (.binary op.op), offset⟩ :: (second ++ rest)) =
        enter (within depth) (fun level => level.chain (op.op.precedence + 1)) (second ++ rest) >>=
          fun read => extend (within depth) least fuel (.binary op.op left read.1) read.2 := by
    rw [extend, hop]
    exact if_neg (Nat.not_lt.2 hleast)
  -- The left operand leaves fuel for the operator and for everything after it.
  have hchain (hneed : need ≤ depth) : ∃ fuel, (second ++ rest).length ≤ fuel ∧
      chain (within depth) least
        (first ++ ⟨.operator (.binary op.op), offset⟩ :: second ++ rest) =
      extend (within depth) least (fuel + 1) left
        (⟨.operator (.binary op.op), offset⟩ :: (second ++ rest)) := by
    obtain ⟨fuel, hfuel, hchain⟩ := hleft.goesOn hneed
    rw [List.length_cons] at hfuel
    obtain ⟨fuel, rfl⟩ : ∃ f, fuel = f + 1 := ⟨fuel - 1, by omega⟩
    refine ⟨fuel, by omega, ?_⟩
    rw [List.append_assoc]
    exact hchain
  constructor
  case goesOn =>
    intro hneed
    obtain ⟨fuel, hfuel, hchain⟩ := hchain (by omega)
    rw [List.length_append] at hfuel
    refine ⟨fuel, by omega, ?_⟩
    rw [hchain, hextend, hread (by omega)]
    rfl
  case tooDeep =>
    intro hneed
    by_cases hdepth : depth < need
    · obtain ⟨place, herror⟩ := hleft.tooDeep hdepth
      refine ⟨place, ?_⟩
      rw [List.append_assoc]
      exact herror
    · obtain ⟨fuel, -, hchain⟩ := hchain (Nat.le_of_not_lt hdepth)
      obtain ⟨place, herror⟩ := hdeep (by omega)
      refine ⟨place, ?_⟩
      rw [hchain, hextend, herror]
      rfl

end Starts

namespace Arith

/-- Wherever the grammar allows for it, arithmetic is read as the expression that is meant. -/
theorem starts (e : Arith) : ∀ {depth group least : Nat} {tokens rest : List Token},
    tokens.map Token.kind = e.pieces.map Piece.kind → e.Groups group → least ≤ group →
    Follows group rest → Starts depth e.tree e.depth least tokens rest := by
  induction e with
  | numeral run hrun =>
      intro depth group least tokens rest htokens _ _ hrest
      obtain ⟨⟨_, offset⟩, rfl, rfl⟩ := List.map_eq_singleton_iff.1 htokens
      exact .of_unary (fun _ => unary_atom (.int _) _ offset hrest.kind_ne_leftParen)
        fun hneed => absurd hneed (Nat.not_lt_zero _)
  | name word hword =>
      intro depth group least tokens rest htokens _ _ hrest
      obtain ⟨⟨_, offset⟩, rfl, rfl⟩ := List.map_eq_singleton_iff.1 htokens
      exact .of_unary (fun _ => unary_atom (.ident hword) _ offset hrest.kind_ne_leftParen)
        fun hneed => absurd hneed (Nat.not_lt_zero _)
  | parens inner ih =>
      intro depth group least tokens rest htokens hgroups _ _
      rw [pieces, List.map_cons, List.map_append] at htokens
      obtain ⟨offset, body, offset', rfl, hbody⟩ := exists_of_map_eq_bracketed htokens
      exact .of_parens offset offset' fun _ _ =>
        ih hbody hgroups (Nat.le_refl 0) (.inl (by simp [Closes, closers]))
  | neg operand ih =>
      intro depth group least tokens rest htokens hgroups _ hrest
      obtain ⟨⟨_, offset⟩, tail, rfl, rfl, htail⟩ := List.map_eq_cons_iff.1 htokens
      exact .of_neg offset
        (fun _ _ => ih htail hgroups (Nat.le_refl _) (hrest.sixty.mono (by decide))) hrest
  | binary op left right ihleft ihright =>
      intro depth group least tokens rest htokens hgroups hleast hrest
      obtain ⟨hgroup, hgroupsleft, hgroupsright⟩ := hgroups
      rw [pieces, List.map_append, List.map_cons] at htokens
      obtain ⟨first, tail, rfl, hfirst, htail⟩ := List.map_eq_append_iff.1 htokens
      obtain ⟨⟨_, offset⟩, second, rfl, rfl, hsecond⟩ := List.map_eq_cons_iff.1 htail
      have hnext : Follows op.op.precedence
          (⟨.operator (.binary op.op), offset⟩ :: (second ++ rest)) :=
        .inr ⟨op, offset, second ++ rest, rfl, Nat.le_refl _⟩
      exact .of_binary (hleast.trans hgroup)
        (ihleft hfirst hgroupsleft (hleast.trans hgroup) hnext)
        (fun _ _ => ihright hsecond hgroupsright (Nat.le_refl _) (hrest.mono (by omega)))
        hrest hgroup

/-- A source of arithmetic is read as the expression that is meant, unless a numeral is no word or
the source goes in too far. -/
theorem parse_eq {e : Arith} (hgroups : e.Groups 0) {source : String}
    (hsource : Laid e.pieces source.toList) :
    (e.Readable → e.depth < maxDepth → Expr.parse source = .ok e.tree) ∧
      (e.Readable → maxDepth ≤ e.depth →
        ∃ offset, Expr.parse source = .error ⟨offset, .nestedTooDeeply⟩) ∧
      (¬ e.Readable → ∃ run offset, .numeral run ∈ e.pieces ∧
        ¬ (Piece.numeral run).Readable ∧
        Expr.parse source = .error ⟨offset, .invalidNumber (String.ofList run)⟩) := by
  obtain ⟨hscans, hrefused⟩ := hsource.scan e.wellFormed e.isChain_apart
  have htokens (hreadable : e.Readable) : ∃ body offset,
      tokenize source = .ok (body ++ [⟨.stop, offset⟩]) ∧
        body.map Token.kind = e.pieces.map Piece.kind := by
    obtain ⟨tokens, hscan, hkinds⟩ := hscans hreadable 0
    obtain ⟨body, last, rfl, hbody, hlast⟩ := List.map_eq_append_iff.1 hkinds
    obtain ⟨⟨_, offset⟩, rfl, rfl⟩ := List.map_eq_singleton_iff.1 hlast
    exact ⟨body, offset, hscan, hbody⟩
  have hreads {body : List Token} (hbody : body.map Token.kind = e.pieces.map Piece.kind)
      (offset : Nat) := by
    have hstop : Closes [⟨.stop, offset⟩] := by simp [Closes, closers]
    exact Starts.expression_eq maxDepth
      (fun _ _ => e.starts hbody hgroups (Nat.le_refl 0) (.inl hstop)) hstop
  refine ⟨fun hreadable hdepth => ?_, fun hreadable hdepth => ?_, fun hreadable => ?_⟩
  · obtain ⟨body, offset, hscan, hbody⟩ := htokens hreadable
    exact parse_of_expression hscan ((hreads hbody offset).1 hdepth) rfl
  · obtain ⟨body, offset, hscan, hbody⟩ := htokens hreadable
    obtain ⟨place, herror⟩ := (hreads hbody offset).2 (Nat.lt_succ_of_le hdepth)
    refine ⟨place, ?_⟩
    rw [Expr.parse, hscan, level_eq]
    simp only [bind, Except.bind, herror]
  · obtain ⟨run, hrun, hlarge, hscan⟩ := hrefused hreadable
    obtain ⟨place, herror⟩ := hscan 0
    refine ⟨run, place, hrun, hlarge, ?_⟩
    rw [Expr.parse, tokenize, herror]
    rfl

end Arith

end Targeting.Condition
