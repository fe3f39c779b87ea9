import PandaBridge.Memory.Range
import PandaBridge.Memory.Stack
import PandaBridge.Server.LutComplete

/-! `parse_lut` in memory. Its stacks are arrays with a pointer each, its tokens are the numbers
that say by how much these are popped, and every index that is used is recorded. -/
namespace Server.Lut

open Memory (load Holds)

/-! ### The numbers of the source -/

/-- `TOKEN`. -/
def tokenOf (index precedence arity reduce : Nat) : Nat :=
  index ||| precedence <<< (4 : Nat) ||| arity <<< (8 : Nat) ||| reduce <<< (12 : Nat)

def tokenIndex (token : Nat) : Nat := token &&& 0xF
def tokenPrecedence (token : Nat) : Nat := (token >>> (4 : Nat)) &&& 0xF
def tokenArity (token : Nat) : Nat := (token >>> (8 : Nat)) &&& 0xF
def tokenReduce (token : Nat) : Nat := (token >>> (12 : Nat)) &&& 0xF

def tokenConstant : Nat := tokenOf 0 0 0 1
def tokenBra : Nat := tokenOf 1 0 0 0
def tokenKet : Nat := tokenOf 2 0 1 2
def tokenNot : Nat := tokenOf 3 0 1 1
def tokenEq : Nat := tokenOf 4 5 2 1
def tokenAnd : Nat := tokenOf 4 4 2 1
def tokenXor : Nat := tokenOf 4 3 2 1
def tokenOr : Nat := tokenOf 4 2 2 1
def tokenImplies : Nat := tokenOf 4 1 2 1
def tokenIf : Nat := tokenOf 5 0 0 0
def tokenElse : Nat := tokenOf 6 0 3 2
def tokenEnd : Nat := tokenOf 7 0 0 0

/-- `LUT_PARSE_OK`. -/
def lutParseOk : Nat := 0

/-- The errors of `parse_lut_status`. -/
def Status.code : Status → Nat
  | .tokenError => 1
  | .tooComplex => 2
  | .noOperator => 3
  | .noOpen => 4
  | .noClose => 5
  | .noValue => 6
  | .noIf => 7
  | .noElse => 8

/-- The status that goes with a result. -/
def statusOf {Result : Type} : Except Status Result → Nat
  | .ok _ => lutParseOk
  | .error status => status.code

/-- `LT`, `EQ`, `GT`, `PR` and `ERROR_BASE` of `parse_action`. -/
def actionLt : Nat := 0
def actionEq : Nat := 1
def actionGt : Nat := 2
def actionPr : Nat := 3
def errorBase : Nat := 4

/-- `parse_table`. -/
def actionTable : List (List Nat) :=
  let lt := actionLt
  let eq := actionEq
  let gt := actionGt
  let pr := actionPr
  let e1 := errorBase + Status.noOperator.code
  let e2 := errorBase + Status.noOpen.code
  let e3 := errorBase + Status.noClose.code
  let e4 := errorBase + Status.noIf.code
  let e5 := errorBase + Status.noElse.code
  let x := 0
  [[e1, e1, gt, e1, gt, gt, gt, gt],
    [lt, lt, eq, lt, lt, lt, e4, e3],
    [e1, e1, gt, e1, gt, gt, gt, gt],
    [lt, lt, gt, lt, gt, gt, gt, gt],
    [lt, lt, gt, lt, pr, gt, gt, gt],
    [lt, lt, e5, lt, lt, lt, eq, e5],
    [lt, lt, gt, lt, lt, lt, gt, gt],
    [lt, lt, e2, lt, lt, lt, e4, x]]

/-- `lookup_action`. -/
def lookupNumber (left right : Nat) : Nat :=
  let action := (actionTable.getD (tokenIndex left) []).getD (tokenIndex right) 0
  if action = actionPr then
    if tokenPrecedence left < tokenPrecedence right then actionLt else actionGt
  else action

/-! ### The parser in memory -/

/-- What is read or written by an index. -/
inductive Access
  | input (index : Nat)
  | tokenStack (index : Int)
  | valueStack (index : Int)
  | parseTable (row column : Nat)

/-- The index is within its array, or is not past the NUL of the string. -/
def Access.InBounds (nul : Nat) : Access → Prop
  | input index => index ≤ nul
  | tokenStack index => 0 ≤ index ∧ index < maxDepth
  | valueStack index => 0 ≤ index ∧ index < maxDepth
  | parseTable row column => row < 8 ∧ column < 8

/-- The variables of `parse_lut`, and what was accessed. -/
structure Machine where
  input : Nat
  tokenStack : Int → Nat
  tokenSp : Int
  valueStack : Int → BitVec 32
  valueSp : Int
  nextToken : Nat
  value : BitVec 32
  status : Nat
  accesses : List Access

namespace Machine

def accessed (machine : Machine) (more : List Access) : Machine :=
  { machine with accesses := machine.accesses ++ more }

def take (machine : Machine) (token : Nat) : Machine :=
  { machine with nextToken := token, status := lutParseOk }

def takeConstant (machine : Machine) (word : BitVec 32) : Machine :=
  { machine.take tokenConstant with value := word }

/-- The next token is put on the stack. -/
def push (machine : Machine) : Machine :=
  { machine.accessed [.tokenStack machine.tokenSp] with
    tokenStack := Function.update machine.tokenStack machine.tokenSp machine.nextToken
    tokenSp := machine.tokenSp + 1 }

/-- The condition of the loop. -/
def Running (machine : Machine) : Prop :=
  machine.status = lutParseOk ∧ (1 < machine.tokenSp ∨ machine.nextToken ≠ tokenEnd)

instance (machine : Machine) : Decidable machine.Running :=
  inferInstanceAs (Decidable (_ ∧ _))

end Machine

section Source

variable (memory : Nat → Char)

/-- The loop over the blanks, for this many rounds at most. -/
def skipBlanks : Nat → Machine → Option (Char × Machine)
  | 0, _ => none
  | rounds + 1, machine =>
      let ch := memory machine.input
      let after := { machine.accessed [.input machine.input] with input := machine.input + 1 }
      if ch = ' ' then skipBlanks rounds after else some (ch, after)

/-- The `switch` of `read_token`. -/
def switchToken (ch : Char) (machine : Machine) : Machine :=
  match ch with
  | '0' => machine.takeConstant 0x00000000
  | '1' => machine.takeConstant 0xffffffff
  | 'A' => machine.takeConstant 0xffff0000
  | 'B' => machine.takeConstant 0xff00ff00
  | 'C' => machine.takeConstant 0xf0f0f0f0
  | 'D' => machine.takeConstant 0xcccccccc
  | 'E' => machine.takeConstant 0xaaaaaaaa
  | '(' => machine.take tokenBra
  | ')' => machine.take tokenKet
  | '~' => machine.take tokenNot
  | '&' => machine.take tokenAnd
  | '|' => machine.take tokenOr
  | '^' => machine.take tokenXor
  | '?' => machine.take tokenIf
  | ':' => machine.take tokenElse
  | '\x00' => machine.take tokenEnd
  | '=' =>
      let looked := machine.accessed [.input machine.input]
      if memory machine.input = '>' then
        { looked with input := machine.input + 1 }.take tokenImplies
      else if memory machine.input = '=' then
        { looked with input := machine.input + 1 }.take tokenEq
      else looked.take tokenEq
  | _ => { machine with status := Status.tokenError.code }

/-- `read_token`. -/
def readTokenAt (rounds : Nat) (machine : Machine) : Option Machine :=
  (skipBlanks memory rounds machine).map fun found => switchToken memory found.1 found.2

/-- `push_token`. -/
def pushTokenAt (rounds : Nat) (machine : Machine) : Option Machine :=
  if machine.tokenSp = maxDepth then some { machine with status := Status.tooComplex.code }
  else readTokenAt memory rounds machine.push

/-- `reduce`, with the index of its `values[0]`. -/
def reduceAt (token : Nat) (value : BitVec 32) (first : Int) (values : Int → BitVec 32) :
    Int → BitVec 32 :=
  let set := Function.update values first
  if token = tokenConstant then set value
  else if token = tokenNot then set (~~~values first)
  else if token = tokenAnd then set (values first &&& values (first + 1))
  else if token = tokenOr then set (values first ||| values (first + 1))
  else if token = tokenEq then set (~~~(values first ^^^ values (first + 1)))
  else if token = tokenXor then set (values first ^^^ values (first + 1))
  else if token = tokenImplies then set (~~~values first ||| values (first + 1))
  else if token = tokenElse then
    set ((values first &&& values (first + 1)) ||| (~~~values first &&& values (first + 2)))
  else values

/-- The values that `reduce` looks at; it is given the address of the first one by its index. -/
def reduceAccesses (token : Nat) (first : Int) : List Access :=
  .valueStack first ::
    if token = tokenAnd ∨ token = tokenOr ∨ token = tokenEq ∨ token = tokenXor ∨
        token = tokenImplies then [.valueStack (first + 1)]
    else if token = tokenElse then [.valueStack (first + 1), .valueStack (first + 2)]
    else []

/-- The values that a token consumes give way to one, and the tokens that it consumes are dropped. -/
def Machine.pop (machine : Machine) (token : Nat) : Machine :=
  let valueSp := machine.valueSp - (tokenArity token - 1 : Int)
  { machine.accessed (reduceAccesses token (valueSp - 1)) with
    valueSp := valueSp
    tokenSp := machine.tokenSp - tokenReduce token
    valueStack := reduceAt token machine.value (valueSp - 1) machine.valueStack
    status := lutParseOk }

/-- `reduce_stack`. -/
def reduceStackAt (thisToken : Nat) (machine : Machine) : Machine :=
  if machine.valueSp < tokenArity thisToken then { machine with status := Status.noValue.code }
  else machine.pop thisToken

/-- One round of the loop. -/
def round (rounds : Nat) (machine : Machine) : Option Machine :=
  let thisToken := machine.tokenStack (machine.tokenSp - 1)
  let action := lookupNumber thisToken machine.nextToken
  let looked := machine.accessed
    [.tokenStack (machine.tokenSp - 1), .parseTable (tokenIndex thisToken) (tokenIndex machine.nextToken)]
  if action = actionLt ∨ action = actionEq then pushTokenAt memory rounds looked
  else if action = actionGt then some (reduceStackAt thisToken looked)
  else some { looked with status := action - errorBase }

/-- The loop, for this many rounds at most. -/
def loopAt (rounds : Nat) : Nat → Machine → Option Machine
  | 0, _ => none
  | count + 1, machine =>
      if machine.Running then (round memory rounds machine).bind (loopAt rounds count)
      else some machine

/-- The variables before a token is read; `next_token` and the token stack above its first entry are
not initialised. -/
def start (tokens : Int → Nat) (nextToken : Nat) : Machine where
  input := 0
  tokenStack := Function.update tokens 0 tokenEnd
  tokenSp := 1
  valueStack := fun _ => 0
  valueSp := 0
  nextToken := nextToken
  value := 0
  status := lutParseOk
  accesses := [.tokenStack 0]

/-- What follows the loop, with `extract_result`. -/
def extractResultAt (machine : Machine) : Machine × Option (BitVec 32) :=
  if machine.status = lutParseOk then
    if machine.valueSp = 1 then
      (machine.accessed [.valueStack 0], some (machine.valueStack 0))
    else ({ machine with status := Status.noValue.code }, none)
  else (machine, none)

/-- `parse_lut`, with this many rounds for each of its loops: the machine that it leaves, whose
status it returns, and what it stores in the result. -/
def parseLutAt (tokens : Int → Nat) (nextToken rounds : Nat) :
    Option (Machine × Option (BitVec 32)) :=
  ((readTokenAt memory rounds (start tokens nextToken)).bind
    (loopAt memory rounds rounds)).map extractResultAt

/-- The machines at the head of the loop, over all its rounds, and the one that it leaves. -/
inductive Reached (tokens : Int → Nat) (nextToken : Nat) : Machine → Prop
  | first {rounds : Nat} {machine : Machine} :
      readTokenAt memory rounds (start tokens nextToken) = some machine →
      Reached tokens nextToken machine
  | next {rounds : Nat} {machine after : Machine} : Reached tokens nextToken machine →
      machine.Running → round memory rounds machine = some after → Reached tokens nextToken after

end Source

/-! ### The numbers are the tokens -/

/-- The number of a token. -/
def Token.number : Token → Nat
  | constant _ => tokenConstant
  | bra => tokenBra
  | ket => tokenKet
  | not => tokenNot
  | binary .eq => tokenEq
  | binary .and => tokenAnd
  | binary .xor => tokenXor
  | binary .or => tokenOr
  | binary .implies => tokenImplies
  | ifMark => tokenIf
  | elseMark => tokenElse
  | endOfInput => tokenEnd

def Action.number : Action → Nat
  | .lt => actionLt
  | .eq => actionEq
  | .gt => actionGt
  | .error status => errorBase + status.code

theorem tokenIndex_number (token : Token) : tokenIndex token.number = token.index := by
  cases token with
  | constant name => cases name <;> rfl
  | binary op => cases op <;> rfl
  | _ => rfl

theorem tokenArity_number (token : Token) : tokenArity token.number = token.arity := by
  cases token with
  | constant name => cases name <;> rfl
  | binary op => cases op <;> rfl
  | _ => rfl

theorem tokenReduce_number (token : Token) : tokenReduce token.number = token.reduce := by
  cases token with
  | constant name => cases name <;> rfl
  | binary op => cases op <;> rfl
  | _ => rfl

theorem tokenPrecedence_number (token : Token) :
    tokenPrecedence token.number = token.precedence := by
  cases token with
  | constant name => cases name <;> rfl
  | binary op => cases op <;> rfl
  | _ => rfl

theorem index_lt (token : Token) : token.index < 8 := by
  cases token <;> exact Nat.le_of_ble_eq_true rfl

theorem number_ne_actionPr (action : Action) : action.number ≠ actionPr := by
  cases action with
  | error status => exact (Nat.lt_of_lt_of_le (Nat.lt_succ_self 3) (Nat.le_add_right 4 _)).ne'
  | _ => decide

theorem lookupNumber_number (left right : Token) :
    lookupNumber left.number right.number = (lookupAction left right).number := by
  have hEntry : (actionTable.getD left.index []).getD right.index 0 =
      (((parseTable.getD left.index []).getD right.index none).map Action.number).getD
        actionPr := by
    cases left <;> cases right <;> rfl
  unfold lookupNumber lookupAction
  simp only [tokenIndex_number, tokenPrecedence_number, hEntry]
  cases (parseTable.getD left.index []).getD right.index none with
  | some action => exact if_neg (number_ne_actionPr action)
  | none =>
      change (if left.precedence < right.precedence then actionLt else actionGt) = _
      split_ifs <;> rfl

theorem number_eq_end {token : Token} : token.number = tokenEnd ↔ token = .endOfInput := by
  cases token with
  | constant name => cases name <;> decide
  | binary op => cases op <;> decide
  | _ => decide

theorem number_eq_ket {token : Token} : token.number = tokenKet ↔ token = .ket := by
  cases token with
  | constant name => cases name <;> decide
  | binary op => cases op <;> decide
  | _ => decide

theorem number_eq_else {token : Token} : token.number = tokenElse ↔ token = .elseMark := by
  cases token with
  | constant name => cases name <;> decide
  | binary op => cases op <;> decide
  | _ => decide

theorem code_ne_ok (status : Status) : status.code ≠ lutParseOk := by
  cases status <;> decide

/-! ### Reading a token -/

/-- A string in memory, with the index of its NUL. -/
structure CString where
  memory : Nat → Char
  nul : Nat
  terminated : memory nul = '\x00'
  unterminated : ∀ index < nul, memory index ≠ '\x00'

namespace CString

variable (string : CString)

/-- The characters from an index up to the NUL. -/
def tail (index : Nat) : Text := (load string.memory string.nul).drop index

def text : Text := string.tail 0

theorem tail_nul : string.tail string.nul = [] :=
  List.drop_eq_nil_of_le (Memory.length_load _).le

theorem tail_of_lt {index : Nat} (h : index < string.nul) :
    string.tail index = string.memory index :: string.tail (index + 1) := by
  have hLength : index < (load string.memory string.nul).length := by
    rwa [Memory.length_load]
  rw [tail, List.drop_eq_getElem_cons hLength]
  congr 1
  simp [load]

end CString

/-- A token was read: the stacks are as they were, and nothing past the NUL was looked at. -/
structure TokenRead (nul : Nat) (before after : Machine) : Prop where
  tokenStack : after.tokenStack = before.tokenStack
  tokenSp : after.tokenSp = before.tokenSp
  valueStack : after.valueStack = before.valueStack
  valueSp : after.valueSp = before.valueSp
  accesses : ∀ access ∈ after.accesses, access ∈ before.accesses ∨ access.InBounds nul

/-- The token is the one that is read of the text. -/
def Machine.HasToken (string : CString) (value : BitVec 32) (machine : Machine) :
    Except Status (Token × Text) → Prop
  | .ok (token, rest) => machine.status = lutParseOk ∧ machine.nextToken = token.number ∧
      machine.value = valueOf words token value ∧
      (token ≠ .endOfInput → machine.input ≤ string.nul ∧ rest = string.tail machine.input)
  | .error status => machine.status = status.code

theorem TokenRead.trans {nul : Nat} {before middle after : Machine}
    (hFirst : TokenRead nul before middle) (hSecond : TokenRead nul middle after) :
    TokenRead nul before after where
  tokenStack := hSecond.tokenStack.trans hFirst.tokenStack
  tokenSp := hSecond.tokenSp.trans hFirst.tokenSp
  valueStack := hSecond.valueStack.trans hFirst.valueStack
  valueSp := hSecond.valueSp.trans hFirst.valueSp
  accesses := by
    intro access hMem
    rcases hSecond.accesses access hMem with hMiddle | hBounds
    · exact hFirst.accesses access hMiddle
    · exact Or.inr hBounds

theorem TokenRead.looked {nul : Nat} {machine : Machine} (hInput : machine.input ≤ nul) :
    TokenRead nul machine (machine.accessed [.input machine.input]) where
  tokenStack := rfl
  tokenSp := rfl
  valueStack := rfl
  valueSp := rfl
  accesses := by
    intro access hMem
    rcases List.mem_append.mp hMem with hOld | hNew
    · exact Or.inl hOld
    · rw [List.mem_singleton] at hNew
      subst hNew
      exact Or.inr hInput

section Reading

variable {string : CString}

/-- Whatever ends the blanks is a character up to the NUL, and a token is read from there on. -/
theorem skipBlanks_spec {rounds : Nat} {machine after : Machine} {ch : Char}
    (hInput : machine.input ≤ string.nul)
    (h : skipBlanks string.memory rounds machine = some (ch, after)) :
    TokenRead string.nul machine after ∧ after.value = machine.value ∧
      ∃ index ≤ string.nul, after.input = index + 1 ∧ ch = string.memory index ∧ ch ≠ ' ' ∧
        readToken (string.tail machine.input) = readToken (string.tail index) := by
  induction rounds generalizing machine with
  | zero => exact absurd h nofun
  | succ rounds ih =>
      rw [skipBlanks] at h
      have hLooked : TokenRead string.nul machine
          { machine.accessed [.input machine.input] with input := machine.input + 1 } := by
        have hLook := TokenRead.looked hInput
        exact ⟨rfl, rfl, rfl, rfl, hLook.accesses⟩
      by_cases hBlank : string.memory machine.input = ' '
      · have hLess : machine.input < string.nul := by
          rcases hInput.lt_or_eq with hLess | hEnd
          · exact hLess
          · rw [hEnd, string.terminated] at hBlank
            exact absurd hBlank (by decide)
        rw [if_pos hBlank] at h
        obtain ⟨hRead, hValue, index, hIndex, hAfter, hCh, hNot, hRest⟩ :=
          ih (Nat.succ_le_of_lt hLess) h
        refine ⟨hLooked.trans hRead, hValue, index, hIndex, hAfter, hCh, hNot, ?_⟩
        rw [string.tail_of_lt hLess, hBlank]
        exact hRest
      · rw [if_neg hBlank] at h
        obtain ⟨rfl, rfl⟩ := Prod.mk.inj (Option.some.inj h)
        exact ⟨hLooked, rfl, machine.input, hInput, rfl, rfl, hBlank, rfl⟩

theorem skipBlanks_isSome {rounds : Nat} {machine : Machine} (hInput : machine.input ≤ string.nul)
    (hRounds : string.nul < machine.input + rounds) :
    (skipBlanks string.memory rounds machine).isSome = true := by
  induction rounds generalizing machine with
  | zero => omega
  | succ rounds ih =>
      rw [skipBlanks]
      by_cases hBlank : string.memory machine.input = ' '
      · rw [if_pos hBlank]
        apply ih
        · have hNot : machine.input ≠ string.nul := by
            intro hEnd
            rw [hEnd, string.terminated] at hBlank
            exact absurd hBlank (by decide)
          change machine.input + 1 ≤ string.nul
          omega
        · change string.nul < machine.input + 1 + rounds
          omega
      · rw [if_neg hBlank]
        rfl

theorem switchToken_equal {index : Nat} {machine : Machine} (hIndex : index < string.nul)
    (hInput : machine.input = index + 1) :
    TokenRead string.nul machine (switchToken string.memory '=' machine) ∧
      (switchToken string.memory '=' machine).HasToken string machine.value
        (readToken ('=' :: string.tail (index + 1))) := by
  have hMost : machine.input ≤ string.nul := by omega
  have hLook := TokenRead.looked hMost
  have hAhead {ch : Char} (hCh : string.memory machine.input = ch) (hSome : ch ≠ '\x00') :
      machine.input < string.nul ∧ string.tail (index + 1) = ch :: string.tail (index + 2) := by
    have hLess : index + 1 < string.nul := by
      rw [← hInput]
      rcases hMost.lt_or_eq with hLess | hEnd
      · exact hLess
      · rw [hEnd, string.terminated] at hCh
        exact absurd hCh.symm hSome
    rw [string.tail_of_lt hLess, ← hCh, hInput]
    exact ⟨hLess, rfl⟩
  by_cases hImplies : string.memory machine.input = '>'
  · obtain ⟨hLess, hRest⟩ := hAhead hImplies (by decide)
    have hSwitch : switchToken string.memory '=' machine =
        { machine.accessed [.input machine.input] with input := machine.input + 1 }.take
          tokenImplies := if_pos hImplies
    rw [hSwitch, hRest]
    exact ⟨⟨rfl, rfl, rfl, rfl, hLook.accesses⟩, rfl, rfl, rfl, fun _ => ⟨hLess, by
      rw [show index + 2 = machine.input + 1 by omega]; rfl⟩⟩
  · by_cases hEqual : string.memory machine.input = '='
    · obtain ⟨hLess, hRest⟩ := hAhead hEqual (by decide)
      have hSwitch : switchToken string.memory '=' machine =
          { machine.accessed [.input machine.input] with input := machine.input + 1 }.take
            tokenEq := (if_neg hImplies).trans (if_pos hEqual)
      rw [hSwitch, hRest]
      exact ⟨⟨rfl, rfl, rfl, rfl, hLook.accesses⟩, rfl, rfl, rfl, fun _ => ⟨hLess, by
        rw [show index + 2 = machine.input + 1 by omega]; rfl⟩⟩
    · have hSwitch : switchToken string.memory '=' machine =
          (machine.accessed [.input machine.input]).take tokenEq :=
        (if_neg hImplies).trans (if_neg hEqual)
      have hNext : ∀ ch ∈ (string.tail (index + 1)).head?, ch ≠ '=' ∧ ch ≠ '>' := by
        intro ch hHead
        rcases hMost.lt_or_eq with hLess | hEnd
        · rw [← hInput, string.tail_of_lt hLess] at hHead
          obtain rfl := Option.some.inj hHead
          exact ⟨hEqual, hImplies⟩
        · rw [← hInput, hEnd, string.tail_nul] at hHead
          exact absurd hHead nofun
      have hRead : readToken ('=' :: string.tail (index + 1)) =
          .ok (.binary .eq, string.tail (index + 1)) :=
        @readToken_spelled (.binary .eq) ['='] _ (by decide) (fun _ => hNext) 0
      rw [hSwitch, hRead]
      exact ⟨⟨rfl, rfl, rfl, rfl, hLook.accesses⟩, rfl, rfl, rfl, fun _ => ⟨hMost, by
        rw [← hInput]; rfl⟩⟩

theorem switchToken_spec {index : Nat} {machine : Machine} {ch : Char}
    (hIndex : index ≤ string.nul) (hCh : ch = string.memory index) (hBlank : ch ≠ ' ')
    (hInput : machine.input = index + 1) :
    TokenRead string.nul machine (switchToken string.memory ch machine) ∧
      (switchToken string.memory ch machine).HasToken string machine.value
        (readToken (string.tail index)) := by
  rcases hIndex.lt_or_eq with hLess | rfl
  · have hSome := string.unterminated index hLess
    have hRest : string.tail (index + 1) = string.tail machine.input := by rw [hInput]
    have hMost : machine.input ≤ string.nul := by omega
    rw [string.tail_of_lt hLess, ← hCh]
    rw [← hCh] at hSome
    unfold switchToken
    split
    case h_16 => exact absurd rfl hSome
    case h_17 => exact switchToken_equal hLess hInput
    case h_18 =>
      refine ⟨⟨rfl, rfl, rfl, rfl, fun _ hMem => Or.inl hMem⟩, ?_⟩
      have hDrop : (ch :: string.tail (index + 1)).dropWhile (· == ' ') =
          ch :: string.tail (index + 1) := List.dropWhile_cons_of_neg (by simpa using hBlank)
      unfold readToken
      rw [hDrop]
      split
      case h_1 hLine => exact absurd hLine nofun
      case h_20 => rfl
      all_goals
        next hLine => exact absurd (List.cons.inj hLine).1 (by assumption)
    all_goals
      exact ⟨⟨rfl, rfl, rfl, rfl, fun _ hMem => Or.inl hMem⟩, rfl, rfl, rfl,
        fun _ => ⟨hMost, hRest⟩⟩
  · rw [string.terminated] at hCh
    subst hCh
    rw [string.tail_nul]
    exact ⟨⟨rfl, rfl, rfl, rfl, fun _ hMem => Or.inl hMem⟩, rfl, rfl, rfl,
      fun hNot => absurd rfl hNot⟩

theorem readTokenAt_spec {rounds : Nat} {machine after : Machine}
    (hInput : machine.input ≤ string.nul)
    (h : readTokenAt string.memory rounds machine = some after) :
    TokenRead string.nul machine after ∧
      after.HasToken string machine.value (readToken (string.tail machine.input)) := by
  obtain ⟨⟨ch, found⟩, hFound, rfl⟩ := Option.map_eq_some_iff.mp h
  obtain ⟨hSkipped, hValue, index, hIndex, hAfter, hCh, hBlank, hText⟩ :=
    skipBlanks_spec hInput hFound
  obtain ⟨hRead, hToken⟩ := switchToken_spec hIndex hCh hBlank hAfter
  rw [hText, ← hValue]
  exact ⟨hSkipped.trans hRead, hToken⟩

theorem readTokenAt_isSome {rounds : Nat} {machine : Machine} (hInput : machine.input ≤ string.nul)
    (hRounds : string.nul < rounds) : (readTokenAt string.memory rounds machine).isSome = true := by
  rw [readTokenAt, Option.isSome_map]
  exact skipBlanks_isSome hInput (by omega)

end Reading

/-! ### The stacks -/

/-- The stacks of the machine hold these tokens and values, as many as there can be of them, and
every access has been in bounds. -/
structure Sound (nul : Nat) (machine : Machine) (tokens : List Token) (values : List (BitVec 32)) :
    Prop where
  tokenStack : Holds machine.tokenStack (tokens.map Token.number ++ [tokenEnd])
  tokenSp : machine.tokenSp = tokens.length + 1
  valueStack : Holds machine.valueStack values
  valueSp : machine.valueSp = values.length
  stacked : Stacked tokens
  depth : tokens.length + 1 ≤ maxDepth
  count : values.length ≤ tokens.length + 1
  bounds : ∀ access ∈ machine.accesses, access.InBounds nul

/-- The machine has read what the parser has read, and no error was found. -/
structure At (string : CString) (machine : Machine) (state : ParseState (BitVec 32)) : Prop where
  nextToken : machine.nextToken = state.nextToken.number
  value : machine.value = state.value
  input : state.nextToken ≠ .endOfInput →
    machine.input ≤ string.nul ∧ state.input = string.tail machine.input
  status : machine.status = lutParseOk

theorem expected_le (stack : List Token) (next : Token) :
    expected stack next ≤ stack.length + 1 := by
  have hHeld : (stack.map Token.held).sum ≤ stack.length := by
    induction stack with
    | nil => exact Nat.zero_le 0
    | cons token below ih =>
        have hToken : token.held ≤ 1 := by cases token <;> exact Nat.le_of_ble_eq_true rfl
        rw [List.map_cons, List.sum_cons, List.length_cons]
        omega
  unfold expected
  split_ifs <;> omega

/-- The cell under the pointer of the token stack. -/
theorem holds_top {array : Int → Nat} {tokens : List Token}
    (h : Holds array (tokens.map Token.number ++ [tokenEnd])) :
    array tokens.length = (tokens.headD .endOfInput).number := by
  cases tokens with
  | nil => exact h.1
  | cons token below =>
      have hTop := h.1
      change array ((below.map Token.number ++ [tokenEnd]).length : Nat) = _ at hTop
      rwa [List.length_append, List.length_map] at hTop

namespace Sound

variable {nul : Nat} {machine after : Machine} {tokens : List Token} {values : List (BitVec 32)}

theorem read (h : Sound nul machine tokens values) (hRead : TokenRead nul machine after) :
    Sound nul after tokens values where
  tokenStack := hRead.tokenStack ▸ h.tokenStack
  tokenSp := hRead.tokenSp.trans h.tokenSp
  valueStack := hRead.valueStack ▸ h.valueStack
  valueSp := hRead.valueSp.trans h.valueSp
  stacked := h.stacked
  depth := h.depth
  count := h.count
  bounds := by
    intro access hMem
    rcases hRead.accesses access hMem with hOld | hNew
    · exact h.bounds access hOld
    · exact hNew

theorem accessed (h : Sound nul machine tokens values) {more : List Access}
    (hMore : ∀ access ∈ more, access.InBounds nul) :
    Sound nul (machine.accessed more) tokens values where
  tokenStack := h.tokenStack
  tokenSp := h.tokenSp
  valueStack := h.valueStack
  valueSp := h.valueSp
  stacked := h.stacked
  depth := h.depth
  count := h.count
  bounds := by
    intro access hMem
    rcases List.mem_append.mp hMem with hOld | hNew
    · exact h.bounds access hOld
    · exact hMore access hNew

theorem top (h : Sound nul machine tokens values) :
    machine.tokenStack (machine.tokenSp - 1) = (tokens.headD .endOfInput).number := by
  rw [h.tokenSp, Int.add_sub_cancel]
  exact holds_top h.tokenStack

theorem cell (h : Sound nul machine tokens values) {index : Int} (hLow : 0 < index)
    (hHigh : index < machine.tokenSp) :
    ∃ (token : Token) (below : List Token), token :: below <:+ tokens ∧
      machine.tokenStack index = token.number ∧
        machine.tokenStack (index - 1) = (below.headD .endOfInput).number := by
  have hLength : (index : Int) < (tokens.map Token.number ++ [tokenEnd]).length := by
    rw [List.length_append, List.length_map]
    exact hHigh.trans_le h.tokenSp.le
  obtain ⟨above, below, hSplit, hBelow⟩ := h.tokenStack.split hLow.le hLength
  rcases List.eq_nil_or_concat below with rfl | ⟨inner, last, rfl⟩
  · rw [← hBelow] at hLow
    exact absurd hLow (lt_irrefl _)
  · rw [List.concat_eq_append] at hBelow
    rw [List.concat_eq_append, ← List.cons_append, ← List.append_assoc] at hSplit
    obtain ⟨hTokens, -⟩ := List.append_inj' hSplit rfl
    obtain ⟨aboveTokens, rest, rfl, -, hRest⟩ := List.map_eq_append_iff.mp hTokens
    obtain ⟨token, belowTokens, rfl, hToken, rfl⟩ := List.map_eq_cons_iff.mp hRest
    refine ⟨token, belowTokens, List.suffix_append _ _, hToken.symm, ?_⟩
    have hHolds := h.tokenStack
    rw [List.map_append, List.map_cons, List.append_assoc] at hHolds
    rw [List.length_append, List.length_map, List.length_singleton] at hBelow
    have hIndex : index - 1 = belowTokens.length := by omega
    rw [hIndex]
    exact holds_top hHolds.above.2

end Sound

/-- The token that another one is only ever on. -/
def Token.partner : Token → Option Token
  | ket => some bra
  | elseMark => some ifMark
  | _ => none

/-- Every token is on its partner, and the end of the line is not on the stack. -/
def Supported (stack : List Token) : Prop :=
  ∀ token below, token :: below <:+ stack →
    token ≠ .endOfInput ∧ ∀ partner ∈ token.partner, below.headD .endOfInput = partner

theorem Supported.cons {stack : List Token} {token : Token} (h : Supported stack)
    (hSome : token ≠ .endOfInput)
    (hPartner : ∀ partner ∈ token.partner, stack.headD .endOfInput = partner) :
    Supported (token :: stack) := by
  intro other below hSuffix
  rcases List.suffix_cons_iff.mp hSuffix with hSame | hBelow
  · obtain ⟨rfl, rfl⟩ := List.cons.inj hSame
    exact ⟨hSome, hPartner⟩
  · exact h other below hBelow

theorem Open.supported {stack : List Token} (h : Open stack) : Supported stack := by
  induction h with
  | bottom =>
      intro token below hSuffix
      exact absurd (List.suffix_nil.mp hSuffix) (List.cons_ne_nil _ _)
  | bra hRest ih => exact ih.cons nofun nofun
  | not hRest ih => exact ih.cons nofun nofun
  | binary op hRest ih => exact ih.cons nofun nofun
  | ifMark hRest ih => exact ih.cons nofun nofun
  | @elseMark stack hRest ih =>
      have hIf : Supported (.ifMark :: stack) := ih.cons nofun nofun
      exact hIf.cons nofun fun partner hPartner => Option.some.inj hPartner

theorem Stacked.supported {stack : List Token} (h : Stacked stack) : Supported stack := by
  cases h with
  | opened hOpen => exact hOpen.supported
  | constant name hOpen => exact hOpen.supported.cons nofun nofun
  | @ket stack hOpen =>
      have hBra : Supported (.bra :: stack) := hOpen.supported.cons nofun nofun
      exact hBra.cons nofun fun partner hPartner => Option.some.inj hPartner

/-- What the machine keeps to at every step: its pointers, the end of the line at the bottom of the
token stack and nowhere else, a bracket or a `:` on its partner, and the bounds. -/
structure Machine.Safe (nul : Nat) (machine : Machine) : Prop where
  tokenSp : 1 ≤ machine.tokenSp ∧ machine.tokenSp ≤ maxDepth
  valueSp : 0 ≤ machine.valueSp ∧ machine.valueSp ≤ maxDepth
  bottom : machine.tokenStack 0 = tokenEnd
  noEnd : ∀ index, 0 < index → index < machine.tokenSp → machine.tokenStack index ≠ tokenEnd
  ket : ∀ index, 0 ≤ index → index < machine.tokenSp → machine.tokenStack index = tokenKet →
    1 ≤ index ∧ machine.tokenStack (index - 1) = tokenBra
  elseMark : ∀ index, 0 ≤ index → index < machine.tokenSp → machine.tokenStack index = tokenElse →
    1 ≤ index ∧ machine.tokenStack (index - 1) = tokenIf
  bounds : ∀ access ∈ machine.accesses, access.InBounds nul

theorem Sound.safe {nul : Nat} {machine : Machine} {tokens : List Token}
    {values : List (BitVec 32)} (h : Sound nul machine tokens values) : machine.Safe nul := by
  have hTokens := h.tokenSp
  have hValues := h.valueSp
  have hDepth := h.depth
  have hCount := h.count
  have hBottom : machine.tokenStack 0 = tokenEnd := h.tokenStack.above.1
  have hAbove {index : Int} (hLow : 0 ≤ index) (hSome : machine.tokenStack index ≠ tokenEnd) :
      0 < index := by
    rcases hLow.lt_or_eq with hLess | rfl
    · exact hLess
    · exact absurd hBottom hSome
  refine ⟨by omega, by omega, hBottom, ?_, ?_, ?_, h.bounds⟩
  · intro index hLow hHigh
    obtain ⟨token, below, hSuffix, hToken, -⟩ := h.cell hLow hHigh
    rw [hToken]
    exact fun hEnd => (h.stacked.supported token below hSuffix).1 (number_eq_end.mp hEnd)
  · intro index hLow hHigh hKet
    have hPos := hAbove hLow (by rw [hKet]; decide)
    obtain ⟨token, below, hSuffix, hToken, hUnder⟩ := h.cell hPos hHigh
    obtain rfl := number_eq_ket.mp (hToken.symm.trans hKet)
    rw [hUnder, (h.stacked.supported _ below hSuffix).2 .bra rfl]
    exact ⟨hPos, rfl⟩
  · intro index hLow hHigh hElse
    have hPos := hAbove hLow (by rw [hElse]; decide)
    obtain ⟨token, below, hSuffix, hToken, hUnder⟩ := h.cell hPos hHigh
    obtain rfl := number_eq_else.mp (hToken.symm.trans hElse)
    rw [hUnder, (h.stacked.supported _ below hSuffix).2 .ifMark rfl]
    exact ⟨hPos, rfl⟩

/-! ### Reducing in memory -/

theorem reduceAt_binary (op : BinaryOp) (value : BitVec 32) (first : Int)
    (array : Int → BitVec 32) :
    reduceAt (Token.binary op).number value first array =
      Function.update array first (words.binary op (array first) (array (first + 1))) := by
  cases op <;> rfl

/-- What a token makes of the values in the array is what it makes of them in the list. -/
theorem holds_reduce {token : Token} {array : Int → BitVec 32} {values : List (BitVec 32)}
    {first : Int} (value : BitVec 32) (h : Holds array values) (hReduced : token.reduce ≠ 0)
    (hLow : 0 ≤ first) (hFirst : first + token.arity = values.length) :
    Holds (reduceAt token.number value first array) (reduce words token value values) := by
  have hArity : token.arity ≤ values.length := by omega
  cases token with
  | constant name => exact h.push (hFirst.symm.trans (Int.add_zero first)) value
  | not =>
      obtain ⟨top, rest, rfl⟩ := List.exists_cons_of_length_pos hArity
      have hTop : (rest.length : Int) = first := by
        simp only [List.length_cons, Token.arity] at hFirst
        omega
      have hOp : reduceAt Token.not.number value first array =
          Function.update array first (~~~array first) := rfl
      rw [hOp, ← hTop, h.1]
      exact h.2.push rfl _
  | ket =>
      obtain ⟨top, rest, rfl⟩ := List.exists_cons_of_length_pos hArity
      exact h
  | binary op =>
      match values, hArity with
      | second :: top :: rest, _ =>
          have hTop : (rest.length : Int) = first := by
            simp only [List.length_cons, Token.arity] at hFirst
            omega
          have hSecond : array (first + 1) = second := by
            rw [← hTop]
            exact h.1
          rw [reduceAt_binary, hSecond, ← hTop, h.2.1]
          exact h.2.2.push rfl _
  | elseMark =>
      match values, hArity with
      | third :: second :: top :: rest, _ =>
          have hTop : (rest.length : Int) = first := by
            simp only [List.length_cons, Token.arity] at hFirst
            omega
          have hSecond : array (first + 1) = second := by
            rw [← hTop]
            exact h.2.1
          have hThird : array (first + 2) = third := by
            rw [← hTop]
            exact h.1
          have hOp : reduceAt Token.elseMark.number value first array = Function.update array first
              ((array first &&& array (first + 1)) ||| (~~~array first &&& array (first + 2))) := rfl
          rw [hOp, hThird, hSecond, ← hTop, h.2.2.1]
          exact h.2.2.2.push rfl _
  | _ => exact absurd rfl hReduced

/-- A token looks at the values that it consumes, and at the one that it stores. -/
theorem reduceAccesses_eq (token : Token) (first : Int) :
    reduceAccesses token.number first = .valueStack first ::
      (List.range (token.arity - 1)).map fun offset => .valueStack (first + (offset + 1 : Nat)) := by
  cases token with
  | constant name => cases name <;> rfl
  | binary op => cases op <;> rfl
  | _ => rfl

theorem reduceAccesses_inBounds {nul : Nat} {token : Token} {first : Int} (hLow : 0 ≤ first)
    (hFirst : first < maxDepth) (hArity : first + token.arity ≤ maxDepth) :
    ∀ access ∈ reduceAccesses token.number first, access.InBounds nul := by
  rw [reduceAccesses_eq]
  intro access hMem
  rcases List.mem_cons.mp hMem with rfl | hMore
  · exact ⟨hLow, hFirst⟩
  · obtain ⟨offset, hOffset, rfl⟩ := List.mem_map.mp hMore
    rw [List.mem_range] at hOffset
    refine ⟨?_, ?_⟩ <;> omega

/-! ### Rounds of the loop -/

section Rounds

variable {string : CString} {machine after : Machine} {state : ParseState (BitVec 32)}

/-- The machine is in this state of the parser, which has no more values than are expected. -/
structure Tracks (string : CString) (machine : Machine) (state : ParseState (BitVec 32)) : Prop where
  sound : Sound string.nul machine state.tokenStack state.valueStack
  read : At string machine state
  counted : state.valueStack.length ≤ expected state.tokenStack state.nextToken

/-- The machine is where the parser is, in a state of it or at an error. -/
def Agrees (string : CString) (machine : Machine) :
    Except Status (ParseState (BitVec 32)) → Prop
  | .ok state => Tracks string machine state
  | .error status => machine.status = status.code ∧
      ∃ tokens values, Sound string.nul machine tokens values

theorem Sound.failed {nul : Nat} {tokens : List Token} {values : List (BitVec 32)}
    (h : Sound nul machine tokens values) (status : Nat) :
    Sound nul { machine with status := status } tokens values :=
  h.read ⟨rfl, rfl, rfl, rfl, fun _ hMem => Or.inl hMem⟩

theorem Sound.push {nul : Nat} {tokens : List Token} {values : List (BitVec 32)} {token : Token}
    (h : Sound nul machine tokens values) (hNext : machine.nextToken = token.number)
    (hStacked : Stacked (token :: tokens)) (hRoom : tokens.length + 2 ≤ maxDepth) :
    Sound nul machine.push (token :: tokens) values where
  tokenStack := by
    change Holds (Function.update machine.tokenStack machine.tokenSp machine.nextToken) _
    rw [hNext]
    apply h.tokenStack.push
    rw [List.length_append, List.length_map, h.tokenSp]
    rfl
  tokenSp := congrArg (· + 1) h.tokenSp
  valueStack := h.valueStack
  valueSp := h.valueSp
  stacked := hStacked
  depth := hRoom
  count := h.count.trans (Nat.le_succ _)
  bounds := by
    have hSp := h.tokenSp
    refine (h.accessed ?_).bounds
    intro access hMem
    rw [List.mem_singleton] at hMem
    subst hMem
    refine ⟨?_, ?_⟩ <;> omega

theorem Stacked.reduce_le {stack : List Token} (h : Stacked stack) :
    (stack.headD .endOfInput).reduce ≤ stack.length := by
  have hOpen {stack : List Token} (h : Open stack) :
      (stack.headD .endOfInput).reduce ≤ stack.length := by
    cases h <;> simp [Token.reduce]
  cases h with
  | opened h => exact hOpen h
  | constant name h => exact Nat.succ_le_succ (Nat.zero_le _)
  | ket h => exact Nat.succ_le_succ (Nat.succ_le_succ (Nat.zero_le _))

theorem Sound.pop {nul : Nat} {tokens : List Token} {values : List (BitVec 32)} {token : Token}
    (h : Sound nul machine tokens values) (hReduced : token.reduce ≠ 0)
    (hReduce : token.reduce ≤ tokens.length) (hArity : token.arity ≤ values.length)
    (hStacked : Stacked (tokens.drop token.reduce))
    (hCount : (reduce words token machine.value values).length ≤
      (tokens.drop token.reduce).length + 1) :
    Sound nul (machine.pop token.number) (tokens.drop token.reduce)
      (reduce words token machine.value values) := by
  have hTokenSp := h.tokenSp
  have hValueSp := h.valueSp
  have hDepth := h.depth
  have hValues := h.count
  have hLength := @length_reduce _ words _ _ machine.value hReduced hArity
  have hDrop := tokens.length_drop (i := token.reduce)
  have hFirst : machine.valueSp - (token.arity - 1 : Int) - 1 + token.arity = values.length := by
    omega
  refine ⟨?_, ?_, ?_, ?_, hStacked, by omega, hCount, ?_⟩
  · have hTokens := h.tokenStack.drop token.reduce
    rw [List.drop_append_of_le_length (by rwa [List.length_map]), ← List.map_drop] at hTokens
    exact hTokens
  · change machine.tokenSp - tokenReduce token.number = _
    rw [tokenReduce_number]
    omega
  · change Holds (reduceAt _ _ (machine.valueSp - (tokenArity token.number - 1 : Int) - 1) _) _
    rw [tokenArity_number]
    exact holds_reduce machine.value h.valueStack hReduced (by omega) hFirst
  · change machine.valueSp - (tokenArity token.number - 1 : Int) = _
    rw [tokenArity_number]
    omega
  · refine (h.accessed (reduceAccesses_inBounds ?_ ?_ ?_)).bounds <;>
      rw [tokenArity_number] <;> omega

theorem Tracks.accessed (h : Tracks string machine state) {more : List Access}
    (hMore : ∀ access ∈ more, access.InBounds string.nul) :
    Tracks string (machine.accessed more) state where
  sound := h.sound.accessed hMore
  read := ⟨h.read.nextToken, h.read.value, h.read.input, h.read.status⟩
  counted := h.counted

/-- The condition of the loop is that the parser has not ended. -/
theorem Tracks.running_iff (h : Tracks string machine state) :
    machine.Running ↔ ¬ state.Done := by
  have hSp := h.sound.tokenSp
  have hStack : 1 < machine.tokenSp ↔ state.tokenStack ≠ [] := by
    rw [← List.length_pos_iff]
    omega
  rw [Machine.Running, hStack, h.read.nextToken, ParseState.Done, not_and_or, Ne, Ne, number_eq_end]
  exact and_iff_right h.read.status

theorem Tracks.push {rounds : Nat} (h : Tracks string machine state) (hDone : ¬ state.Done)
    (hAction : lookupAction state.thisToken state.nextToken = .lt ∨
      lookupAction state.thisToken state.nextToken = .eq)
    (hAfter : pushTokenAt string.memory rounds machine = some after) :
    Agrees string after (pushToken words maxDepth state) := by
  have hSp := h.sound.tokenSp
  have hDepth := h.sound.depth
  have hSome := next_ne_endOfInput h.sound.stacked hDone hAction
  have hOpen := h.sound.stacked.open_of_not_closes (not_closes_of_push hAction)
  obtain ⟨hInput, hText⟩ := h.read.input hSome
  rw [pushTokenAt] at hAfter
  rw [pushToken]
  by_cases hFull : state.tokenStack.length + 1 = maxDepth
  · rw [if_pos (by omega)] at hAfter
    obtain rfl := Option.some.inj hAfter
    rw [if_pos hFull]
    exact ⟨rfl, _, _, h.sound.failed _⟩
  · rw [if_neg (by omega)] at hAfter
    rw [if_neg hFull]
    have hPushed := h.sound.push h.read.nextToken
      (stacked_push hOpen hAction hSome) (by omega)
    have hMost : machine.push.input ≤ string.nul := hInput
    obtain ⟨hRead, hToken⟩ := readTokenAt_spec hMost hAfter
    change after.HasToken string machine.value (readToken (string.tail machine.input)) at hToken
    rw [← hText, h.read.value] at hToken
    cases hResult : readToken state.input with
    | error status =>
        rw [hResult] at hToken
        exact ⟨hToken, _, _, hPushed.read hRead⟩
    | ok result =>
        rw [hResult] at hToken
        obtain ⟨hStatus, hNext, hValue, hRest⟩ := hToken
        exact ⟨hPushed.read hRead, ⟨hNext, hValue, hRest, hStatus⟩,
          h.counted.trans (expected_push hOpen hSome)⟩

theorem Tracks.pop (h : Tracks string machine state)
    (hAction : lookupAction state.thisToken state.nextToken = .gt) :
    Agrees string (reduceStackAt state.thisToken.number machine) (reduceStack words state) := by
  have hSp := h.sound.tokenSp
  have hValueSp := h.sound.valueSp
  have hDepth := h.sound.depth
  have hCount := h.sound.count
  rw [reduceStackAt, reduceStack, tokenArity_number]
  by_cases hFew : state.valueStack.length < state.thisToken.arity
  · rw [if_pos (by omega), if_pos hFew]
    exact ⟨rfl, _, _, h.sound.failed _⟩
  · rw [if_neg (by omega), if_neg hFew]
    have hArity : state.thisToken.arity ≤ state.valueStack.length := not_lt.mp hFew
    obtain ⟨hReduced, hOpen, hExpected⟩ := stacked_reduce h.sound.stacked hAction
    have hLength := @length_reduce _ words _ _ state.value hReduced hArity
    have hCounted : (reduce words state.thisToken state.value state.valueStack).length ≤
        expected (state.tokenStack.drop state.thisToken.reduce) state.nextToken := by
      have hBefore := h.counted
      unfold ParseState.thisToken at hLength ⊢
      omega
    have hMost := expected_le (state.tokenStack.drop state.thisToken.reduce) state.nextToken
    have hSound := h.sound.pop hReduced h.sound.stacked.reduce_le hArity (.opened hOpen)
      (h.read.value ▸ hCounted.trans hMost)
    rw [h.read.value] at hSound
    exact ⟨hSound, ⟨h.read.nextToken, h.read.value, h.read.input, rfl⟩, hCounted⟩

/-- What is looked up is the action of the two tokens. -/
theorem Tracks.round_eq (h : Tracks string machine state) (rounds : Nat) :
    ∃ looked, Tracks string looked state ∧
      round string.memory rounds machine =
        match lookupAction state.thisToken state.nextToken with
        | .lt | .eq => pushTokenAt string.memory rounds looked
        | .gt => some (reduceStackAt state.thisToken.number looked)
        | .error status => some { looked with status := status.code } := by
  have hTop : machine.tokenStack (machine.tokenSp - 1) = state.thisToken.number := h.sound.top
  have hSp := h.sound.tokenSp
  have hDepth := h.sound.depth
  refine ⟨machine.accessed [.tokenStack (machine.tokenSp - 1),
    .parseTable state.thisToken.index state.nextToken.index], h.accessed ?_, ?_⟩
  · intro access hMem
    simp only [List.mem_cons, List.not_mem_nil, or_false] at hMem
    rcases hMem with rfl | rfl
    · refine ⟨?_, ?_⟩ <;> omega
    · exact ⟨index_lt _, index_lt _⟩
  · rw [round]
    simp only [hTop, h.read.nextToken, lookupNumber_number, tokenIndex_number]
    cases lookupAction state.thisToken state.nextToken with
    | lt => rfl
    | eq => rfl
    | gt => rfl
    | error status =>
        have hCode : (Action.error status).number - errorBase = status.code :=
          Nat.add_sub_cancel_left errorBase status.code
        rw [hCode]
        cases status <;> rfl

theorem Tracks.round {rounds : Nat} (h : Tracks string machine state) (hDone : ¬ state.Done)
    (hAfter : round string.memory rounds machine = some after) :
    Agrees string after (step words maxDepth state) := by
  obtain ⟨looked, hLooked, hRound⟩ := h.round_eq rounds
  rw [hRound] at hAfter
  unfold step
  cases hAction : lookupAction state.thisToken state.nextToken with
  | lt =>
      rw [hAction] at hAfter
      exact hLooked.push hDone (.inl hAction) hAfter
  | eq =>
      rw [hAction] at hAfter
      exact hLooked.push hDone (.inr hAction) hAfter
  | gt =>
      rw [hAction] at hAfter
      obtain rfl := Option.some.inj hAfter
      exact hLooked.pop hAction
  | error status =>
      rw [hAction] at hAfter
      obtain rfl := Option.some.inj hAfter
      exact ⟨rfl, _, _, hLooked.sound.failed _⟩

theorem Tracks.push_isSome {rounds : Nat} (h : Tracks string machine state) (hDone : ¬ state.Done)
    (hAction : lookupAction state.thisToken state.nextToken = .lt ∨
      lookupAction state.thisToken state.nextToken = .eq) (hRounds : string.nul < rounds) :
    (pushTokenAt string.memory rounds machine).isSome = true := by
  obtain ⟨hInput, -⟩ := h.read.input (next_ne_endOfInput h.sound.stacked hDone hAction)
  unfold pushTokenAt
  split_ifs
  · rfl
  · exact readTokenAt_isSome hInput hRounds

theorem Tracks.round_isSome {rounds : Nat} (h : Tracks string machine state) (hDone : ¬ state.Done)
    (hRounds : string.nul < rounds) :
    (Lut.round string.memory rounds machine).isSome = true := by
  obtain ⟨looked, hLooked, hRound⟩ := h.round_eq rounds
  rw [hRound]
  cases hAction : lookupAction state.thisToken state.nextToken with
  | lt => exact hLooked.push_isSome hDone (.inl hAction) hRounds
  | eq => exact hLooked.push_isSome hDone (.inr hAction) hRounds
  | gt => rfl
  | error status => rfl

end Rounds

/-! ### Runs -/

section Runs

variable {string : CString} {tokens : Int → Nat} {nextToken : Nat} {machine after : Machine}

/-- Before a token is read the end of the line is alone on its stack. -/
theorem start_sound (nul : Nat) : Sound nul (start tokens nextToken) [] [] where
  tokenStack := ⟨rfl, trivial⟩
  tokenSp := rfl
  valueStack := trivial
  valueSp := rfl
  stacked := .opened .bottom
  depth := by decide
  count := Nat.zero_le _
  bounds := by
    intro access hMem
    rw [List.mem_singleton.mp hMem]
    exact ⟨le_refl _, by decide⟩

/-- The parser after the first token. -/
def firstState (text : Text) : Except Status (ParseState (BitVec 32)) :=
  (readToken text).map fun read => ParseState.initial words 0 read.1 read.2

theorem agrees_first {rounds : Nat}
    (h : readTokenAt string.memory rounds (start tokens nextToken) = some machine) :
    Agrees string machine (firstState string.text) := by
  have hStart : (start tokens nextToken).input ≤ string.nul := Nat.zero_le _
  obtain ⟨hRead, hToken⟩ := readTokenAt_spec hStart h
  have hSound := (start_sound string.nul).read hRead
  change machine.HasToken string 0 (readToken string.text) at hToken
  unfold firstState
  cases hResult : readToken string.text with
  | error status =>
      rw [hResult] at hToken
      exact ⟨hToken, _, _, hSound⟩
  | ok result =>
      rw [hResult] at hToken
      obtain ⟨hStatus, hNext, hValue, hRest⟩ := hToken
      exact ⟨hSound, ⟨hNext, hValue, hRest, hStatus⟩, Nat.zero_le _⟩

theorem Reached.agrees (h : Reached string.memory tokens nextToken machine) :
    ∃ result, Agrees string machine result := by
  induction h with
  | first hRead => exact ⟨_, agrees_first hRead⟩
  | next _ hRunning hRound ih =>
      obtain ⟨result, hAgrees⟩ := ih
      cases result with
      | error status => exact absurd (hAgrees.1.symm.trans hRunning.1) (code_ne_ok status)
      | ok state =>
          have hDone := hAgrees.running_iff.mp hRunning
          exact ⟨_, hAgrees.round hDone hRound⟩

theorem Agrees.sound {result : Except Status (ParseState (BitVec 32))}
    (h : Agrees string machine result) :
    ∃ tokens values, Sound string.nul machine tokens values := by
  cases result with
  | ok state => exact ⟨_, _, Tracks.sound h⟩
  | error status => exact h.2

/-- The machine has left the loop with this result. -/
def Finished (string : CString) (machine : Machine) : Except Status (List (BitVec 32)) → Prop
  | .ok values => machine.status = lutParseOk ∧ ∃ tokens, Sound string.nul machine tokens values
  | .error status => machine.status = status.code ∧
      ∃ tokens values, Sound string.nul machine tokens values

theorem loopAt_error {rounds count : Nat} {status : Status} (h : machine.status = status.code) :
    loopAt string.memory rounds (count + 1) machine = some machine := by
  have hNot : ¬ machine.Running := fun hRunning =>
    code_ne_ok status (h.symm.trans hRunning.1)
  rw [loopAt, if_neg hNot]

theorem loopAt_spec {rounds count : Nat} {state : ParseState (BitVec 32)}
    {result : Except Status (List (BitVec 32))} (h : Tracks string machine state)
    (hRounds : string.nul < rounds) (hLoop : loop words maxDepth count state = some result) :
    ∃ final, loopAt string.memory rounds (count + 1) machine = some final ∧
      Finished string final result := by
  induction count generalizing machine state with
  | zero => exact absurd hLoop nofun
  | succ count ih =>
      rw [loop] at hLoop
      rw [loopAt]
      by_cases hDone : state.tokenStack = [] ∧ state.nextToken = .endOfInput
      · rw [if_pos hDone] at hLoop
        obtain rfl := Option.some.inj hLoop
        rw [if_neg (h.running_iff.not_left.mpr hDone)]
        exact ⟨machine, rfl, h.read.status, _, h.sound⟩
      · rw [if_neg hDone] at hLoop
        obtain ⟨next, hNext⟩ := Option.isSome_iff_exists.mp (h.round_isSome hDone hRounds)
        have hAgrees := h.round hDone hNext
        rw [if_pos (h.running_iff.mpr hDone), hNext, Option.bind_some]
        cases hStep : step words maxDepth state with
        | error status =>
            rw [hStep] at hLoop hAgrees
            obtain rfl := Option.some.inj hLoop
            exact ⟨next, loopAt_error hAgrees.1, hAgrees⟩
        | ok following =>
            rw [hStep] at hLoop hAgrees
            exact ih hAgrees hLoop

/-- What is returned is what is left on the value stack. -/
theorem extractResultAt_spec {result : Except Status (List (BitVec 32))}
    (h : Finished string machine result) :
    (∃ tokens values, Sound string.nul (extractResultAt machine).1 tokens values) ∧
      (extractResultAt machine).1.status = statusOf (result >>= extractResult) ∧
      (extractResultAt machine).2 = (result >>= extractResult).toOption := by
  unfold extractResultAt
  cases result with
  | error status =>
      rw [if_neg (fun hOk => code_ne_ok status (h.1.symm.trans hOk))]
      exact ⟨h.2, h.1, rfl⟩
  | ok values =>
      obtain ⟨hStatus, tokens, hSound⟩ := h
      have hSp := hSound.valueSp
      rw [if_pos hStatus]
      match values with
      | [] =>
          rw [if_neg (by rw [hSp]; decide)]
          exact ⟨⟨_, _, hSound.failed _⟩, rfl, rfl⟩
      | [value] =>
          have hOne : machine.valueSp = 1 := hSp
          rw [if_pos hOne]
          refine ⟨⟨_, _, hSound.accessed ?_⟩, hStatus, congrArg some hSound.valueStack.1⟩
          intro access hMem
          rw [List.mem_singleton.mp hMem]
          exact ⟨le_refl _, by decide⟩
      | first :: second :: rest =>
          rw [if_neg (by rw [hSp, List.length_cons, List.length_cons]; omega)]
          exact ⟨⟨_, _, hSound.failed _⟩, rfl, rfl⟩

theorem length_text : string.text.length = string.nul := by
  rw [CString.text, CString.tail, List.length_drop, Memory.length_load, Nat.sub_zero]

/-- Both loops end: a blank is read once, and every character is pushed and reduced once at most. -/
theorem parseLutAt_spec {rounds : Nat} (hRounds : 2 * string.nul + 4 ≤ rounds) :
    ∃ final outcome, parseLutAt string.memory tokens nextToken rounds =
        some (final, outcome.toOption) ∧
      (∃ held values, Sound string.nul final held values) ∧
      parseLut string.text = some outcome ∧ final.status = statusOf outcome := by
  have hStart : (start tokens nextToken).input ≤ string.nul := Nat.zero_le _
  have hEnough : string.nul < rounds := by omega
  obtain ⟨first, hFirst⟩ := Option.isSome_iff_exists.mp (readTokenAt_isSome hStart hEnough)
  have hAgrees := agrees_first hFirst
  unfold firstState at hAgrees
  unfold parseLut parseWith
  rw [parseLutAt, hFirst, Option.bind_some]
  -- the loops of the parser have one round less than those of the machine
  obtain ⟨more, rfl⟩ := Nat.exists_eq_add_of_le hRounds
  rw [show 2 * string.nul + 4 + more = 2 * string.nul + 3 + more + 1 by omega] at *
  cases hRead : readToken string.text with
  | error status =>
      rw [hRead] at hAgrees
      rw [loopAt_error hAgrees.1]
      have hLeft : Finished string first (.error status) := hAgrees
      obtain ⟨hSound, hStatus, hResult⟩ := extractResultAt_spec hLeft
      exact ⟨_, .error status, congrArg some (Prod.ext rfl hResult), hSound, rfl, hStatus⟩
  | ok read =>
      rw [hRead] at hAgrees
      have hFuel := @initial_fuel _ words 0 _ _ _ hRead
      obtain ⟨result, hLoop⟩ := Option.isSome_iff_exists.mp
        (@loop_isSome _ words maxDepth _ _ (.opened .bottom) hFuel)
      have hMore := loop_add hLoop more
      rw [length_text] at hMore
      obtain ⟨final, hFinal, hLeft⟩ := loopAt_spec hAgrees hEnough hMore
      obtain ⟨hSound, hStatus, hResult⟩ := extractResultAt_spec hLeft
      rw [hFinal]
      refine ⟨_, result >>= extractResult, congrArg some (Prod.ext rfl hResult), hSound, ?_, hStatus⟩
      exact congrArg (Option.map fun result => result >>= extractResult) hLoop

/-- Whatever the string holds, and whatever is in the memory that is not initialised: at every step
the machine is safe, and the parser returns what it returns of the text. -/
theorem parse_lut_memory_safe (string : CString) (tokens : Int → Nat) (nextToken : Nat) :
    (∀ machine, Reached string.memory tokens nextToken machine → machine.Safe string.nul) ∧
      ∀ rounds, 2 * string.nul + 4 ≤ rounds → ∃ final outcome,
        parseLutAt string.memory tokens nextToken rounds = some (final, outcome.toOption) ∧
        final.Safe string.nul ∧ parseLut string.text = some outcome ∧
        final.status = statusOf outcome := by
  constructor
  · intro machine hReached
    obtain ⟨result, hAgrees⟩ := hReached.agrees
    obtain ⟨held, values, hSound⟩ := hAgrees.sound
    exact hSound.safe
  · intro rounds hRounds
    obtain ⟨final, outcome, hReturn, ⟨held, values, hSound⟩, hText, hStatus⟩ :=
      @parseLutAt_spec string tokens nextToken rounds hRounds
    exact ⟨final, outcome, hReturn, hSound.safe, hText, hStatus⟩

end Runs

end Server.Lut
