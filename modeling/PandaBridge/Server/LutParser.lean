import Mathlib.Tactic.SplitIfs
import PandaBridge.Server.Parse

/-! The parser of lookup table expressions: an operator precedence parser with a stack of tokens
and a stack of values. It is the same program for whatever its operators are taken to compute; the
source computes 32-bit words. -/
namespace Server.Lut

/-- `parse_lut_status`, without `LUT_PARSE_OK`. -/
inductive Status
  | tokenError
  | tooComplex
  | noOperator
  | noOpen
  | noClose
  | noValue
  | noIf
  | noElse
  deriving DecidableEq

/-- `parse_lut_error_string`. -/
def Status.message : Status → String
  | .tokenError => "Invalid token"
  | .tooComplex => "Expression too complex"
  | .noOperator => "Missing operator between values"
  | .noOpen => "Missing open bracket"
  | .noClose => "Missing close bracket"
  | .noValue => "Missing value"
  | .noIf => "Missing ? before :"
  | .noElse => "Missing : after ?"

def maxDepth : Nat := 40

inductive Constant
  | zero
  | one
  | a
  | b
  | c
  | d
  | e
  deriving DecidableEq

inductive BinaryOp
  | eq
  | and
  | xor
  | or
  | implies
  deriving DecidableEq

/-- `token_symbol`. A constant is shown with the character it was read from, which the parser does
not look at. -/
inductive Token
  | constant (name : Constant)
  | bra
  | ket
  | not
  | binary (op : BinaryOp)
  | ifMark
  | elseMark
  | endOfInput
  deriving DecidableEq

namespace BinaryOp

/-- `TOKEN_PRECEDENCE`. -/
def precedence : BinaryOp → Nat
  | eq => 5
  | and => 4
  | xor => 3
  | or => 2
  | implies => 1

end BinaryOp

namespace Token

/-- `TOKEN_INDEX`. -/
def index : Token → Nat
  | constant _ => 0
  | bra => 1
  | ket => 2
  | not => 3
  | binary _ => 4
  | ifMark => 5
  | elseMark => 6
  | endOfInput => 7

/-- `TOKEN_PRECEDENCE`. -/
def precedence : Token → Nat
  | binary op => op.precedence
  | _ => 0

/-- `TOKEN_ARITY`. -/
def arity : Token → Nat
  | ket | not => 1
  | binary _ => 2
  | elseMark => 3
  | _ => 0

/-- `TOKEN_REDUCE`. -/
def reduce : Token → Nat
  | constant _ | not | binary _ => 1
  | ket | elseMark => 2
  | _ => 0

end Token

/-- `parse_action`, once binary operators are compared. -/
inductive Action
  | lt
  | eq
  | gt
  | error (status : Status)
  deriving DecidableEq

/-- `parse_table`, with nothing where binary operators are compared by their precedence. -/
def parseTable : List (List (Option Action)) :=
  let lt : Option Action := some .lt
  let eq : Option Action := some .eq
  let gt : Option Action := some .gt
  let pr : Option Action := none
  let e1 : Option Action := some (.error .noOperator)
  let e2 : Option Action := some (.error .noOpen)
  let e3 : Option Action := some (.error .noClose)
  let e4 : Option Action := some (.error .noIf)
  let e5 : Option Action := some (.error .noElse)
  [[e1, e1, gt, e1, gt, gt, gt, gt],
    [lt, lt, eq, lt, lt, lt, e4, e3],
    [e1, e1, gt, e1, gt, gt, gt, gt],
    [lt, lt, gt, lt, gt, gt, gt, gt],
    [lt, lt, gt, lt, pr, gt, gt, gt],
    [lt, lt, e5, lt, lt, lt, eq, e5],
    [lt, lt, gt, lt, lt, lt, gt, gt],
    [lt, lt, e2, lt, lt, lt, e4, lt]]

def lookupAction (left right : Token) : Action :=
  match (parseTable.getD left.index []).getD right.index none with
  | some action => action
  | none => if left.precedence < right.precedence then .lt else .gt

/-- `read_token`: the next token, and what is left of the line. -/
def readToken (input : Text) : Except Status (Token × Text) :=
  match input.dropWhile (· == ' ') with
  | [] => .ok (.endOfInput, [])
  | '0' :: rest => .ok (.constant .zero, rest)
  | '1' :: rest => .ok (.constant .one, rest)
  | 'A' :: rest => .ok (.constant .a, rest)
  | 'B' :: rest => .ok (.constant .b, rest)
  | 'C' :: rest => .ok (.constant .c, rest)
  | 'D' :: rest => .ok (.constant .d, rest)
  | 'E' :: rest => .ok (.constant .e, rest)
  | '(' :: rest => .ok (.bra, rest)
  | ')' :: rest => .ok (.ket, rest)
  | '~' :: rest => .ok (.not, rest)
  | '&' :: rest => .ok (.binary .and, rest)
  | '|' :: rest => .ok (.binary .or, rest)
  | '^' :: rest => .ok (.binary .xor, rest)
  | '?' :: rest => .ok (.ifMark, rest)
  | ':' :: rest => .ok (.elseMark, rest)
  | '=' :: '>' :: rest => .ok (.binary .implies, rest)
  | '=' :: '=' :: rest => .ok (.binary .eq, rest)
  | '=' :: rest => .ok (.binary .eq, rest)
  | _ => .error .tokenError

/-- What the operators compute. -/
structure Meaning (Value : Type) where
  constant : Constant → Value
  not : Value → Value
  binary : BinaryOp → Value → Value → Value
  choose : Value → Value → Value → Value
  /-- What brackets make of what is in them. -/
  bracket : Value → Value

/-- The words of the source. -/
def words : Meaning (BitVec 32) where
  constant
    | .zero => 0x00000000
    | .one => 0xffffffff
    | .a => 0xffff0000
    | .b => 0xff00ff00
    | .c => 0xf0f0f0f0
    | .d => 0xcccccccc
    | .e => 0xaaaaaaaa
  not value := ~~~value
  binary
    | .and, first, second => first &&& second
    | .or, first, second => first ||| second
    | .eq, first, second => ~~~(first ^^^ second)
    | .xor, first, second => first ^^^ second
    | .implies, first, second => ~~~first ||| second
  choose cond first second := (cond &&& first) ||| (~~~cond &&& second)
  bracket value := value

section Parser

variable {Value : Type} (meaning : Meaning Value) (depth : Nat)

/-- The stacks, their tops first; `TOKEN_END` at the bottom of the token stack is left out. -/
structure ParseState (Value : Type) where
  tokenStack : List Token
  valueStack : List Value
  nextToken : Token
  value : Value
  input : Text

/-- The token at the top of the stack. -/
def ParseState.thisToken (state : ParseState Value) : Token :=
  state.tokenStack.headD .endOfInput

/-- The value of a constant takes the place of the last one. -/
def valueOf (token : Token) (value : Value) : Value :=
  match token with
  | .constant name => meaning.constant name
  | _ => value

/-- `reduce`, on the value stack. -/
def reduce : Token → Value → List Value → List Value
  | .constant _, value, values => value :: values
  | .not, _, first :: values => meaning.not first :: values
  | .binary op, _, second :: first :: values => meaning.binary op first second :: values
  | .ket, _, first :: values => meaning.bracket first :: values
  | .elseMark, _, third :: second :: first :: values => meaning.choose first second third :: values
  | _, _, values => values

def pushToken (state : ParseState Value) : Except Status (ParseState Value) :=
  if state.tokenStack.length + 1 = depth then .error .tooComplex
  else
    match readToken state.input with
    | .error status => .error status
    | .ok (token, rest) => .ok
        { tokenStack := state.nextToken :: state.tokenStack
          valueStack := state.valueStack
          nextToken := token
          value := valueOf meaning token state.value
          input := rest }

def reduceStack (state : ParseState Value) : Except Status (ParseState Value) :=
  if state.valueStack.length < state.thisToken.arity then .error .noValue
  else .ok
    { state with
      tokenStack := state.tokenStack.drop state.thisToken.reduce
      valueStack := reduce meaning state.thisToken state.value state.valueStack }

/-- One round of the loop. -/
def step (state : ParseState Value) : Except Status (ParseState Value) :=
  match lookupAction state.thisToken state.nextToken with
  | .lt | .eq => pushToken meaning depth state
  | .gt => reduceStack meaning state
  | .error status => .error status

/-- The loop, for this many rounds at most: the value stack it leaves. -/
def loop : Nat → ParseState Value → Option (Except Status (List Value))
  | 0, _ => none
  | rounds + 1, state =>
      if state.tokenStack = [] ∧ state.nextToken = .endOfInput then some (.ok state.valueStack)
      else
        match step meaning depth state with
        | .error status => some (.error status)
        | .ok next => loop rounds next

def extractResult : List Value → Except Status Value
  | [value] => .ok value
  | _ => .error .noValue

/-- `parse_lut` with this depth of the stacks. Every character is pushed and reduced once at most,
and the rounds are enough for that. -/
def parseWith (zero : Value) (text : Text) : Option (Except Status Value) :=
  match readToken text with
  | .error status => some (.error status)
  | .ok (token, rest) =>
      (loop meaning depth (2 * text.length + 3)
        { tokenStack := []
          valueStack := []
          nextToken := token
          value := valueOf meaning token zero
          input := rest }).map fun result => result >>= extractResult

end Parser

def parseLut (text : Text) : Option (Except Status (BitVec 32)) :=
  parseWith words maxDepth 0 text

example : parseLut "A=>B?C:D".toList = some (.ok 0xf0ccf0f0) := by decide

end Server.Lut
