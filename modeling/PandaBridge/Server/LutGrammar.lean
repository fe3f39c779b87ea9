import Mathlib.Algebra.GroupWithZero.Nat
import Mathlib.Data.List.Chain
import Mathlib.Tactic.Common
import PandaBridge.Server.LutParser

/-! The language of lookup table expressions: its parse trees, what they compute, and the lines
that spell them. Nothing here looks at how the parser works but for the room on its stack. -/
namespace Server.Lut

/-- A parse tree, brackets included. -/
inductive Expr
  | constant (name : Constant)
  | bracket (inner : Expr)
  | not (operand : Expr)
  | binary (op : BinaryOp) (left right : Expr)
  | choose (cond first second : Expr)
  deriving DecidableEq

namespace Expr

def tokens : Expr → List Token
  | constant name => [.constant name]
  | bracket inner => .bra :: inner.tokens ++ [.ket]
  | not operand => .not :: operand.tokens
  | binary op left right => left.tokens ++ .binary op :: right.tokens
  | choose cond first second =>
      cond.tokens ++ .ifMark :: first.tokens ++ .elseMark :: second.tokens

/-- How tightly an expression binds: `?:` least of all, then the binary operators by their
precedence, then the rest. -/
def level : Expr → Nat
  | constant _ | bracket _ | not _ => 6
  | binary op _ _ => op.precedence
  | choose _ _ _ => 0

/-- The precedences are kept: binary operators associate to the left, `?:` to the right. -/
def Valid : Expr → Prop
  | constant _ => True
  | bracket inner => inner.Valid
  | not operand => operand.Valid ∧ operand.level = 6
  | binary op left right =>
      left.Valid ∧ right.Valid ∧ op.precedence ≤ left.level ∧ op.precedence < right.level
  | choose cond first second => cond.Valid ∧ first.Valid ∧ second.Valid ∧ 0 < cond.level

/-- The tokens that wait at one time, when operators are pushed as soon as they are read. -/
def depth : Expr → Nat
  | constant _ => 1
  | bracket inner => inner.depth + 1
  | not operand => operand.depth + 1
  | binary _ left right => max left.depth (right.depth + 1)
  | choose cond first second => max cond.depth (max (first.depth + 1) (second.depth + 2))

theorem depth_pos (expr : Expr) : 0 < expr.depth := by
  induction expr <;> simp only [depth] <;> omega

def eval {Value : Type} (meaning : Meaning Value) : Expr → Value
  | constant name => meaning.constant name
  | bracket inner => meaning.bracket (inner.eval meaning)
  | not operand => meaning.not (operand.eval meaning)
  | binary op left right => meaning.binary op (left.eval meaning) (right.eval meaning)
  | choose cond first second =>
      meaning.choose (cond.eval meaning) (first.eval meaning) (second.eval meaning)

end Expr

/-- The inputs of the table are the bits of an index, `E` the lowest of them. -/
def inputs (index : Nat) : Constant → Bool
  | .zero => false
  | .one => true
  | .a => index.testBit 4
  | .b => index.testBit 3
  | .c => index.testBit 2
  | .d => index.testBit 1
  | .e => index.testBit 0

/-- The operators of logic. -/
def logic (index : Nat) : Meaning Bool where
  constant := inputs index
  not value := !value
  binary
    | .eq, first, second => first == second
    | .and, first, second => first && second
    | .xor, first, second => first != second
    | .or, first, second => first || second
    | .implies, first, second => if first then second else true
  choose cond first second := if cond then first else second
  bracket value := value

/-- The value of an expression where the inputs have these bits. -/
def Expr.value (expr : Expr) (index : Nat) : Bool :=
  expr.eval (logic index)

/-! ### Spelling -/

def Token.spellings : Token → List Text
  | constant .zero => [['0']]
  | constant .one => [['1']]
  | constant .a => [['A']]
  | constant .b => [['B']]
  | constant .c => [['C']]
  | constant .d => [['D']]
  | constant .e => [['E']]
  | bra => [['(']]
  | ket => [[')']]
  | not => [['~']]
  | binary .eq => [['='], ['=', '=']]
  | binary .and => [['&']]
  | binary .xor => [['^']]
  | binary .or => [['|']]
  | binary .implies => [['=', '>']]
  | ifMark => [['?']]
  | elseMark => [[':']]
  | endOfInput => []

/-- A line that spells these tokens, with blanks anywhere between them. -/
def Spells : List Token → Text → Prop
  | [], text => ∃ blanks, text = List.replicate blanks ' '
  | token :: tokens, text => ∃ blanks word tail,
      text = List.replicate blanks ' ' ++ (word ++ tail) ∧ word ∈ token.spellings ∧
        Spells tokens tail

/-- The line is an expression, and this is a parse tree for it. -/
structure IsExpression (expr : Expr) (text : Text) : Prop where
  valid : expr.Valid
  spelled : Spells expr.tokens text

/-! ### The words of the source compute all the values at once -/

theorem getLsbD_constant : ∀ name, ∀ index < 32,
    (words.constant name).getLsbD index = inputs index name := by
  intro name
  cases name <;> decide

section Words

variable {index : Nat} (h : index < 32)
include h

theorem getLsbD_not (value : BitVec 32) :
    (words.not value).getLsbD index = (logic index).not (value.getLsbD index) := by
  change (~~~value).getLsbD index = !value.getLsbD index
  rw [BitVec.getLsbD_not, decide_eq_true h, Bool.true_and]

theorem getLsbD_binary (op : BinaryOp) (first second : BitVec 32) :
    (words.binary op first second).getLsbD index =
      (logic index).binary op (first.getLsbD index) (second.getLsbD index) := by
  cases op with
  | and => exact BitVec.getLsbD_and
  | or => exact BitVec.getLsbD_or
  | xor => exact BitVec.getLsbD_xor
  | eq =>
      simp only [words, logic, BitVec.getLsbD_xor, BitVec.getLsbD_not, h, decide_true,
        Bool.true_and]
      cases first.getLsbD index <;> cases second.getLsbD index <;> rfl
  | implies =>
      simp only [words, logic, BitVec.getLsbD_or, BitVec.getLsbD_not, h, decide_true,
        Bool.true_and]
      cases first.getLsbD index <;> rfl

theorem getLsbD_choose (cond first second : BitVec 32) :
    (words.choose cond first second).getLsbD index =
      (logic index).choose (cond.getLsbD index) (first.getLsbD index) (second.getLsbD index) := by
  simp only [words, logic, BitVec.getLsbD_and, BitVec.getLsbD_or, BitVec.getLsbD_not, h,
    decide_true, Bool.true_and]
  cases cond.getLsbD index <;> simp

theorem getLsbD_eval (expr : Expr) : (expr.eval words).getLsbD index = expr.value index := by
  induction expr with
  | constant name => exact getLsbD_constant name index h
  | bracket inner ih => exact ih
  | not operand ih => exact (getLsbD_not h _).trans (congrArg _ ih)
  | binary op left right ihLeft ihRight =>
      exact (getLsbD_binary h op _ _).trans (congrArg₂ _ ihLeft ihRight)
  | choose cond first second ihCond ihFirst ihSecond =>
      refine (getLsbD_choose h _ _ _).trans ?_
      rw [ihCond, ihFirst, ihSecond]
      rfl

end Words

/-! ### Reading what is spelled -/

/-- The tokens an expression can start with. -/
def Token.starts : Token → Bool
  | constant _ | bra | not => true
  | ket | binary _ | ifMark | elseMark | endOfInput => false

/-- The tokens that are read one after the other, this one first. -/
inductive Stream : Token → Text → List Token → Prop
  | finish (input : Text) : Stream .endOfInput input []
  | next {token following : Token} {input rest : Text} {tokens : List Token}
      (some : token ≠ .endOfInput) (read : readToken input = .ok (following, rest))
      (stream : Stream following rest tokens) : Stream token input (token :: tokens)

theorem dropWhile_blanks (blanks : Nat) {text : Text} (h : ∀ ch ∈ text.head?, ch ≠ ' ') :
    (List.replicate blanks ' ' ++ text).dropWhile (· == ' ') = text := by
  induction blanks with
  | zero =>
      cases text with
      | nil => rfl
      | cons ch text => exact List.dropWhile_cons_of_neg (by simpa using h ch rfl)
  | succ blanks ih =>
      rw [List.replicate_succ, List.cons_append, List.dropWhile_cons_of_pos (by rfl), ih]

theorem exists_blanks (text : Text) :
    ∃ blanks, text = List.replicate blanks ' ' ++ text.dropWhile (· == ' ') := by
  refine ⟨(text.takeWhile (· == ' ')).length, ?_⟩
  have hBlank : text.takeWhile (· == ' ') =
      List.replicate (text.takeWhile (· == ' ')).length ' ' := by
    rw [List.eq_replicate_iff]
    exact ⟨rfl, fun ch hMem => by simpa using List.mem_takeWhile_imp hMem⟩
  rw [← hBlank, List.takeWhile_append_dropWhile]

theorem spelled_of_readToken {input rest : Text} {token : Token}
    (h : readToken input = .ok (token, rest)) :
    (token = .endOfInput ∧ rest = [] ∧ ∃ blanks, input = List.replicate blanks ' ') ∨
      ∃ blanks word, input = List.replicate blanks ' ' ++ (word ++ rest) ∧
        word ∈ token.spellings := by
  obtain ⟨blanks, hInput⟩ := exists_blanks input
  unfold readToken at h
  split at h
  case h_20 => exact absurd h nofun
  case h_1 hNone =>
    obtain ⟨rfl, rfl⟩ := Prod.mk.inj (Except.ok.inj h)
    rw [hNone, List.append_nil] at hInput
    exact .inl ⟨rfl, rfl, blanks, hInput⟩
  all_goals
    next hLine =>
      obtain ⟨rfl, rfl⟩ := Prod.mk.inj (Except.ok.inj h)
      rw [hLine] at hInput
      first
        | exact .inr ⟨blanks, [_], hInput, by decide⟩
        | exact .inr ⟨blanks, [_, _], hInput, by decide⟩

theorem readToken_spelled {token : Token} {word tail : Text} (hWord : word ∈ token.spellings)
    (hTail : token = .binary .eq → ∀ ch ∈ tail.head?, ch ≠ '=' ∧ ch ≠ '>') (blanks : Nat) :
    readToken (List.replicate blanks ' ' ++ (word ++ tail)) = .ok (token, tail) := by
  have hHead : ∀ ch ∈ (word ++ tail).head?, ch ≠ ' ' := by
    have hWords : ∀ word ∈ token.spellings, word ≠ [] ∧ ∀ ch ∈ word.head?, ch ≠ ' ' := by
      cases token with
      | constant name => cases name <;> simp [Token.spellings]
      | binary op => cases op <;> simp [Token.spellings]
      | _ => simp [Token.spellings]
    obtain ⟨hSome, hFirst⟩ := hWords word hWord
    rwa [List.head?_append_of_ne_nil _ hSome]
  have hDrop := dropWhile_blanks blanks hHead
  have hRead : readToken (List.replicate blanks ' ' ++ (word ++ tail)) = readToken (word ++ tail) := by
    have hPlain := dropWhile_blanks 0 hHead
    rw [List.replicate_zero, List.nil_append] at hPlain
    unfold readToken
    rw [hDrop, hPlain]
  rw [hRead]
  cases token with
  | constant name =>
      cases name <;> obtain rfl := List.mem_singleton.mp hWord <;> rfl
  | binary op =>
      cases op with
      | eq =>
          rcases List.mem_pair.mp hWord with rfl | rfl
          · cases tail with
            | nil => rfl
            | cons ch tail =>
                obtain ⟨hEqual, hGreater⟩ := hTail rfl ch rfl
                unfold readToken
                simp [hEqual, hGreater]
          · rfl
      | _ =>
          obtain rfl := List.mem_singleton.mp hWord
          rfl
  | endOfInput => exact absurd hWord (List.not_mem_nil)
  | _ =>
      obtain rfl := List.mem_singleton.mp hWord
      rfl

/-- Only a token that starts an expression follows a binary operator. -/
def Meets (first second : Token) : Prop :=
  ∀ op, first = .binary op → second.starts = true

theorem Expr.tokens_head (expr : Expr) :
    ∃ first rest, expr.tokens = first :: rest ∧ first.starts = true := by
  induction expr with
  | constant name => exact ⟨_, _, rfl, rfl⟩
  | bracket inner ih => exact ⟨_, _, rfl, rfl⟩
  | not operand ih => exact ⟨_, _, rfl, rfl⟩
  | binary op left right ihLeft ihRight =>
      obtain ⟨first, rest, hTokens, hStarts⟩ := ihLeft
      exact ⟨first, _, by rw [tokens, hTokens, List.cons_append], hStarts⟩
  | choose cond first second ihCond ihFirst ihSecond =>
      obtain ⟨start, rest, hTokens, hStarts⟩ := ihCond
      exact ⟨start, _, by rw [tokens, hTokens]; rfl, hStarts⟩

theorem isChain_cons_of_not_binary {first : Token} {rest : List Token}
    (hFirst : ∀ op, first ≠ .binary op) (hRest : rest.IsChain Meets) :
    (first :: rest).IsChain Meets :=
  List.isChain_cons.mpr ⟨fun _ _ op hOp => absurd hOp (hFirst op), hRest⟩

theorem Expr.isChain_tokens (expr : Expr) {rest : List Token} (hRest : rest.IsChain Meets) :
    (expr.tokens ++ rest).IsChain Meets := by
  induction expr generalizing rest with
  | constant name => exact isChain_cons_of_not_binary nofun hRest
  | bracket inner ih =>
      rw [tokens, List.append_assoc, List.cons_append]
      exact isChain_cons_of_not_binary nofun (ih (isChain_cons_of_not_binary nofun hRest))
  | not operand ih => exact isChain_cons_of_not_binary nofun (ih hRest)
  | binary op left right ihLeft ihRight =>
      rw [tokens, List.append_assoc, List.cons_append]
      refine ihLeft (List.isChain_cons.mpr ⟨?_, ihRight hRest⟩)
      obtain ⟨first, tail, hTokens, hStarts⟩ := right.tokens_head
      rw [hTokens]
      rintro second hSecond - -
      rw [← Option.some.inj hSecond]
      exact hStarts
  | choose cond first second ihCond ihFirst ihSecond =>
      simp only [tokens, List.append_assoc, List.cons_append]
      exact ihCond (isChain_cons_of_not_binary nofun
        (ihFirst (isChain_cons_of_not_binary nofun (ihSecond hRest))))

/-- Nothing that starts an expression looks like a sign of equality. -/
theorem head_spelled {tokens : List Token} {text : Text} (hSpelled : Spells tokens text)
    (hStarts : ∀ token ∈ tokens.head?, token.starts = true) :
    ∀ ch ∈ text.head?, ch ≠ '=' ∧ ch ≠ '>' := by
  have hBlank : ∀ blanks (text : Text), (∀ ch ∈ text.head?, ch ≠ '=' ∧ ch ≠ '>') →
      ∀ ch ∈ (List.replicate blanks ' ' ++ text).head?, ch ≠ '=' ∧ ch ≠ '>' := by
    intro blanks text hText
    cases blanks with
    | zero => exact hText
    | succ blanks =>
        rintro ch hHead
        rw [← Option.some.inj hHead]
        decide
  cases tokens with
  | nil =>
      obtain ⟨blanks, rfl⟩ := hSpelled
      simpa using hBlank blanks [] (by simp)
  | cons token tokens =>
      obtain ⟨blanks, word, tail, rfl, hWord, -⟩ := hSpelled
      refine hBlank blanks _ ?_
      have hStart := hStarts token rfl
      cases token with
      | constant name =>
          cases name <;> obtain rfl := List.mem_singleton.mp hWord <;> simp
      | bra =>
          obtain rfl := List.mem_singleton.mp hWord
          simp
      | not =>
          obtain rfl := List.mem_singleton.mp hWord
          simp
      | _ => exact absurd hStart nofun

theorem stream_of_spells {tokens : List Token} {text : Text} (hChain : tokens.IsChain Meets)
    (hSpelled : Spells tokens text) :
    ∃ token rest, readToken text = .ok (token, rest) ∧ Stream token rest tokens := by
  induction tokens generalizing text with
  | nil =>
      obtain ⟨blanks, rfl⟩ := hSpelled
      have hDrop := @dropWhile_blanks blanks [] (by simp)
      rw [List.append_nil] at hDrop
      refine ⟨.endOfInput, [], ?_, .finish []⟩
      unfold readToken
      rw [hDrop]
  | cons token tokens ih =>
      obtain ⟨blanks, word, tail, rfl, hWord, hRest⟩ := hSpelled
      obtain ⟨hMeets, hTail⟩ := List.isChain_cons.mp hChain
      obtain ⟨following, rest, hRead, hStream⟩ := ih hTail hRest
      refine ⟨token, tail, readToken_spelled hWord ?_ blanks, .next ?_ hRead hStream⟩
      · rintro rfl
        exact head_spelled hRest fun second hSecond => hMeets second hSecond .eq rfl
      · rintro rfl
        exact absurd hWord List.not_mem_nil

theorem spells_of_stream {tokens : List Token} {token : Token} {text rest : Text}
    (hRead : readToken text = .ok (token, rest)) (hStream : Stream token rest tokens) :
    Spells tokens text := by
  induction hStream generalizing text with
  | finish input =>
      rcases spelled_of_readToken hRead with ⟨-, -, hBlanks⟩ | ⟨blanks, word, hText, hWord⟩
      · exact hBlanks
      · exact absurd hWord List.not_mem_nil
  | @next token following input rest tokens hSome hNext hStream ih =>
      rcases spelled_of_readToken hRead with ⟨hEnd, -⟩ | ⟨blanks, word, hText, hWord⟩
      · exact absurd hEnd hSome
      · exact ⟨blanks, word, input, hText, hWord, ih hNext⟩

end Server.Lut
