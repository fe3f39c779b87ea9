import PandaBridge.Server.LutGrammar

/-! What the parser accepts is an expression. While every operator finds its operands the stacks
hold the parts of a parse tree; once an operand is missing there are too few values for the tokens
on the stack, and that stays so to the end. -/
namespace Server.Lut

/-! ### The table -/

theorem push_ket {this : Token} (h : lookupAction this .ket = .lt ∨ lookupAction this .ket = .eq) :
    this = .bra := by
  cases this <;> simp_all [lookupAction, parseTable, Token.index]

theorem push_elseMark {this : Token}
    (h : lookupAction this .elseMark = .lt ∨ lookupAction this .elseMark = .eq) :
    this = .ifMark := by
  cases this <;> simp_all [lookupAction, parseTable, Token.index]

theorem push_endOfInput {this : Token}
    (h : lookupAction this .endOfInput = .lt ∨ lookupAction this .endOfInput = .eq) :
    this = .endOfInput := by
  cases this <;> simp_all [lookupAction, parseTable, Token.index]

/-- The tokens that end an operand, which are reduced before anything follows them. -/
def Token.closes : Token → Bool
  | constant _ | ket => true
  | bra | not | binary _ | ifMark | elseMark | endOfInput => false

theorem not_closes_of_push {this next : Token}
    (h : lookupAction this next = .lt ∨ lookupAction this next = .eq) : this.closes = false := by
  cases this with
  | constant name => cases next <;> simp_all [lookupAction, parseTable, Token.index]
  | ket => cases next <;> simp_all [lookupAction, parseTable, Token.index]
  | _ => rfl

theorem not_starts_of_reduce {this next : Token} (h : lookupAction this next = .gt) :
    next.starts = false := by
  cases next with
  | constant name => cases this <;> simp_all [lookupAction, parseTable, Token.index]
  | bra => cases this <;> simp_all [lookupAction, parseTable, Token.index]
  | not => cases this <;> simp_all [lookupAction, parseTable, Token.index]
  | _ => rfl

section Parser

variable {Value : Type} {meaning : Meaning Value} {depth : Nat}

/-- The state after the next token was pushed and another one read. -/
def ParseState.pushed (meaning : Meaning Value) (state : ParseState Value) (token : Token)
    (rest : Text) : ParseState Value where
  tokenStack := state.nextToken :: state.tokenStack
  valueStack := state.valueStack
  nextToken := token
  value := valueOf meaning token state.value
  input := rest

/-- The state after the top of the stack was reduced. -/
def ParseState.reduced (meaning : Meaning Value) (state : ParseState Value) : ParseState Value :=
  { state with
    tokenStack := state.tokenStack.drop state.thisToken.reduce
    valueStack := reduce meaning state.thisToken state.value state.valueStack }

/-- The loop has ended. -/
def ParseState.Done (state : ParseState Value) : Prop :=
  state.tokenStack = [] ∧ state.nextToken = .endOfInput

theorem step_cases {state next : ParseState Value} (h : step meaning depth state = .ok next) :
    (∃ token rest, (lookupAction state.thisToken state.nextToken = .lt ∨
        lookupAction state.thisToken state.nextToken = .eq) ∧
      state.tokenStack.length + 1 ≠ depth ∧ readToken state.input = .ok (token, rest) ∧
        next = state.pushed meaning token rest) ∨
      (lookupAction state.thisToken state.nextToken = .gt ∧
        state.thisToken.arity ≤ state.valueStack.length ∧ next = state.reduced meaning) := by
  have hPush : pushToken meaning depth state = .ok next → ∃ token rest,
      state.tokenStack.length + 1 ≠ depth ∧ readToken state.input = .ok (token, rest) ∧
        next = state.pushed meaning token rest := by
    intro hPushed
    unfold pushToken at hPushed
    split_ifs at hPushed with hFull
    cases hRead : readToken state.input with
    | error status =>
        rw [hRead] at hPushed
        exact absurd hPushed nofun
    | ok result =>
        rw [hRead] at hPushed
        exact ⟨result.1, result.2, hFull, rfl, (Except.ok.inj hPushed).symm⟩
  unfold step at h
  cases hAction : lookupAction state.thisToken state.nextToken with
  | lt =>
      rw [hAction] at h
      obtain ⟨token, rest, hFull, hRead, hNext⟩ := hPush h
      exact .inl ⟨token, rest, .inl rfl, hFull, hRead, hNext⟩
  | eq =>
      rw [hAction] at h
      obtain ⟨token, rest, hFull, hRead, hNext⟩ := hPush h
      exact .inl ⟨token, rest, .inr rfl, hFull, hRead, hNext⟩
  | gt =>
      rw [hAction] at h
      change reduceStack meaning state = .ok next at h
      unfold reduceStack at h
      split_ifs at h with hFew
      exact .inr ⟨rfl, not_lt.mp hFew, (Except.ok.inj h).symm⟩
  | error status =>
      rw [hAction] at h
      exact absurd h nofun

/-! ### Too few values -/

/-- A token stack on which an operand can follow. -/
inductive Open : List Token → Prop
  | bottom : Open []
  | bra {stack : List Token} : Open stack → Open (.bra :: stack)
  | not {stack : List Token} : Open stack → Open (.not :: stack)
  | binary {stack : List Token} (op : BinaryOp) : Open stack → Open (.binary op :: stack)
  | ifMark {stack : List Token} : Open stack → Open (.ifMark :: stack)
  | elseMark {stack : List Token} : Open stack → Open (.elseMark :: .ifMark :: stack)

/-- The stacks there are: a token that ends an operand is at the top only, and a bracket or a `:`
stands on its partner. -/
inductive Stacked : List Token → Prop
  | opened {stack : List Token} : Open stack → Stacked stack
  | constant {stack : List Token} (name : Constant) : Open stack → Stacked (.constant name :: stack)
  | ket {stack : List Token} : Open stack → Stacked (.ket :: .bra :: stack)

/-- The values that a token on the stack waits with. -/
def Token.held : Token → Nat
  | ket | binary _ | ifMark | elseMark => 1
  | constant _ | bra | not | endOfInput => 0

/-- The values for these tokens, if no operand is missing. -/
def expected (stack : List Token) (next : Token) : Nat :=
  (stack.map Token.held).sum +
    if (stack.headD .endOfInput).closes || next.starts then 0 else 1

/-- An operand is missing. -/
def Short (state : ParseState Value) : Prop :=
  Stacked state.tokenStack ∧
    state.valueStack.length < expected state.tokenStack state.nextToken

theorem Open.not_closes {stack : List Token} (h : Open stack) :
    (stack.headD .endOfInput).closes = false := by
  cases h <;> rfl

theorem Stacked.open_of_not_closes {stack : List Token} (h : Stacked stack)
    (hTop : (stack.headD .endOfInput).closes = false) : Open stack := by
  cases h with
  | opened hOpen => exact hOpen
  | constant name hOpen => exact absurd hTop nofun
  | ket hOpen => exact absurd hTop nofun

theorem expected_open {stack : List Token} (h : Open stack) {next : Token}
    (hNext : next.starts = false) : expected stack next = (stack.map Token.held).sum + 1 := by
  rw [expected, h.not_closes, hNext]
  rfl

theorem expected_push {stack : List Token} {next following : Token} (hOpen : Open stack)
    (hNext : next ≠ .endOfInput) :
    expected stack next ≤ expected (next :: stack) following := by
  have hToken : (if next.starts then 0 else 1) ≤ next.held := by
    cases next with
    | endOfInput => exact absurd rfl hNext
    | _ => exact Nat.le_of_ble_eq_true rfl
  rw [expected, hOpen.not_closes, Bool.false_or, expected, List.map_cons, List.sum_cons]
  omega

theorem stacked_push {stack : List Token} {next : Token} (hOpen : Open stack)
    (hAction : lookupAction (stack.headD .endOfInput) next = .lt ∨
      lookupAction (stack.headD .endOfInput) next = .eq)
    (hNext : next ≠ .endOfInput) : Stacked (next :: stack) := by
  cases next with
  | constant name => exact .constant name hOpen
  | bra => exact .opened (.bra hOpen)
  | ket =>
      have hTop := push_ket hAction
      cases hOpen with
      | bra hRest => exact .ket hRest
      | _ => exact absurd hTop nofun
  | not => exact .opened (.not hOpen)
  | binary op => exact .opened (.binary op hOpen)
  | ifMark => exact .opened (.ifMark hOpen)
  | elseMark =>
      have hTop := push_elseMark hAction
      cases hOpen with
      | ifMark hRest => exact .opened (.elseMark hRest)
      | _ => exact absurd hTop nofun
  | endOfInput => exact absurd rfl hNext

theorem length_reduce {token : Token} {values : List Value} (value : Value)
    (hReduced : token.reduce ≠ 0) (hArity : token.arity ≤ values.length) :
    (reduce meaning token value values).length + token.arity = values.length + 1 := by
  cases token with
  | constant name => rfl
  | not =>
      obtain ⟨first, values, rfl⟩ := List.exists_cons_of_length_pos hArity
      rfl
  | ket =>
      obtain ⟨first, values, rfl⟩ := List.exists_cons_of_length_pos hArity
      rfl
  | binary op =>
      match values, hArity with
      | second :: first :: values, _ => rfl
  | elseMark =>
      match values, hArity with
      | third :: second :: first :: values, _ => rfl
  | _ => exact absurd rfl hReduced

theorem stacked_reduce {stack : List Token} {next : Token} (h : Stacked stack)
    (hAction : lookupAction (stack.headD .endOfInput) next = .gt) :
    (stack.headD .endOfInput).reduce ≠ 0 ∧
      Open (stack.drop (stack.headD .endOfInput).reduce) ∧
      expected (stack.drop (stack.headD .endOfInput).reduce) next +
        (stack.headD .endOfInput).arity = expected stack next + 1 := by
  have hNext := not_starts_of_reduce hAction
  cases h with
  | @constant stack name hOpen =>
      refine ⟨nofun, hOpen, ?_⟩
      change expected stack next + 0 = expected (.constant name :: stack) next + 1
      rw [expected_open hOpen hNext]
      simp [expected, Token.closes, Token.held]
  | @ket stack hOpen =>
      refine ⟨nofun, hOpen, ?_⟩
      change expected stack next + 1 = expected (.ket :: .bra :: stack) next + 1
      rw [expected_open hOpen hNext]
      simp [expected, Token.closes, Token.held]
      omega
  | opened hOpen =>
      have hExpected := expected_open hOpen hNext
      cases hOpen with
      | @not stack hRest =>
          refine ⟨nofun, hRest, ?_⟩
          change expected stack next + 1 = _
          rw [expected_open hRest hNext, hExpected]
          simp [Token.held]
      | @binary stack op hRest =>
          refine ⟨nofun, hRest, ?_⟩
          change expected stack next + 2 = _
          rw [expected_open hRest hNext, hExpected]
          simp [Token.held]
          omega
      | @elseMark stack hRest =>
          refine ⟨nofun, hRest, ?_⟩
          change expected stack next + 3 = _
          rw [expected_open hRest hNext, hExpected]
          simp [Token.held]
          omega
      | bottom => cases next <;> simp_all [lookupAction, parseTable, Token.index]
      | bra hRest => cases next <;> simp_all [lookupAction, parseTable, Token.index]
      | ifMark hRest => cases next <;> simp_all [lookupAction, parseTable, Token.index]

theorem next_ne_endOfInput {state : ParseState Value} (hStacked : Stacked state.tokenStack)
    (hDone : ¬ state.Done)
    (hAction : lookupAction state.thisToken state.nextToken = .lt ∨
      lookupAction state.thisToken state.nextToken = .eq) : state.nextToken ≠ .endOfInput := by
  intro hEnd
  have hOpen := hStacked.open_of_not_closes (not_closes_of_push hAction)
  rw [hEnd] at hAction
  have hTop := push_endOfInput hAction
  cases hStack : state.tokenStack with
  | nil => exact hDone ⟨hStack, hEnd⟩
  | cons top stack =>
      rw [hStack] at hOpen
      rw [ParseState.thisToken, hStack] at hTop
      subst hTop
      exact absurd hOpen nofun

/-- A round adds no more to the values than to what is expected of them. -/
theorem step_account {state next : ParseState Value} (hStacked : Stacked state.tokenStack)
    (hDone : ¬ state.Done) (h : step meaning depth state = .ok next) :
    Stacked next.tokenStack ∧
      next.valueStack.length + expected state.tokenStack state.nextToken ≤
        state.valueStack.length + expected next.tokenStack next.nextToken := by
  rcases step_cases h with ⟨token, rest, hAction, -, -, rfl⟩ | ⟨hAction, hArity, rfl⟩
  · have hOpen := hStacked.open_of_not_closes (not_closes_of_push hAction)
    have hNext := next_ne_endOfInput hStacked hDone hAction
    exact ⟨stacked_push hOpen hAction hNext, Nat.add_le_add_left (expected_push hOpen hNext) _⟩
  · obtain ⟨hReduced, hOpen, hExpected⟩ := stacked_reduce hStacked hAction
    refine ⟨.opened hOpen, ?_⟩
    have hLength := @length_reduce _ meaning _ _ state.value hReduced hArity
    change (reduce meaning state.thisToken state.value state.valueStack).length + _ ≤ _ +
      expected (state.tokenStack.drop (state.tokenStack.headD .endOfInput).reduce) state.nextToken
    unfold ParseState.thisToken at hLength ⊢
    omega

theorem Short.step {state next : ParseState Value} (hShort : Short state) (hDone : ¬ state.Done)
    (h : step meaning depth state = .ok next) : Short next := by
  obtain ⟨hStacked, hFew⟩ := hShort
  obtain ⟨hNext, hAccount⟩ := step_account hStacked hDone h
  exact ⟨hNext, by omega⟩

theorem loop_short {rounds : Nat} {state : ParseState Value} {values : List Value}
    (hShort : Short state) (h : loop meaning depth rounds state = some (.ok values)) :
    values = [] := by
  induction rounds generalizing state with
  | zero => exact absurd h nofun
  | succ rounds ih =>
      rw [loop] at h
      split_ifs at h with hDone
      · obtain rfl := Except.ok.inj (Option.some.inj h)
        have hFew := hShort.2
        rw [hDone.1, hDone.2] at hFew
        exact List.eq_nil_of_length_eq_zero (Nat.lt_one_iff.mp hFew)
      · cases hStep : step meaning depth state with
        | error status =>
            rw [hStep] at h
            exact absurd h nofun
        | ok next =>
            rw [hStep] at h
            exact ih (hShort.step hDone hStep) h

/-! ### The parts of a parse tree -/

/-- An expression of this level can stand where the stack waits for one. -/
def Fits (stack : List Token) (level : Nat) : Prop :=
  match stack.headD .endOfInput with
  | .not => level = 6
  | .binary op => op.precedence < level
  | _ => True

/-- An expression of this level is complete when this token follows it. -/
def Follows (level : Nat) (next : Token) : Prop :=
  match next with
  | .binary op => op.precedence ≤ level
  | .ifMark => 0 < level
  | _ => True

theorem fits_binary {stack : List Token} {op : BinaryOp}
    (h : lookupAction (stack.headD .endOfInput) (.binary op) = .lt ∨
      lookupAction (stack.headD .endOfInput) (.binary op) = .eq) : Fits stack op.precedence := by
  unfold Fits
  generalize stack.headD .endOfInput = this at h ⊢
  cases this with
  | not => simp [lookupAction, parseTable, Token.index] at h
  | binary below =>
      by_contra hNot
      simp only [not_lt] at hNot
      simp [lookupAction, parseTable, Token.index, Token.precedence, Nat.not_lt.mpr hNot] at h
  | _ => trivial

theorem fits_ifMark {stack : List Token}
    (h : lookupAction (stack.headD .endOfInput) .ifMark = .lt ∨
      lookupAction (stack.headD .endOfInput) .ifMark = .eq) : Fits stack 0 := by
  unfold Fits
  generalize stack.headD .endOfInput = this at h ⊢
  cases this with
  | not => simp [lookupAction, parseTable, Token.index] at h
  | binary below => simp [lookupAction, parseTable, Token.index] at h
  | _ => trivial

/-- An expression that was parsed on this stack. -/
structure Parsed (depth : Nat) (stack : List Token) (expr : Expr) : Prop where
  valid : expr.Valid
  room : stack.length + 1 + expr.depth ≤ depth

/-- A stack that waits for an operand, with the expressions on the value stack and the tokens that
were read. -/
inductive Awaiting (depth : Nat) : List Token → List Expr → List Token → Prop
  | bottom : Awaiting depth [] [] []
  | bra {stack : List Token} {exprs : List Expr} {read : List Token} :
      Awaiting depth stack exprs read → Awaiting depth (.bra :: stack) exprs (read ++ [.bra])
  | not {stack : List Token} {exprs : List Expr} {read : List Token} :
      Awaiting depth stack exprs read → Awaiting depth (.not :: stack) exprs (read ++ [.not])
  | binary {stack : List Token} {exprs : List Expr} {read : List Token} {op : BinaryOp}
      {left : Expr} : Awaiting depth stack exprs read → Parsed depth stack left →
      op.precedence ≤ left.level → Fits stack op.precedence →
      Awaiting depth (.binary op :: stack) (left :: exprs) (read ++ left.tokens ++ [.binary op])
  | ifMark {stack : List Token} {exprs : List Expr} {read : List Token} {cond : Expr} :
      Awaiting depth stack exprs read → Parsed depth stack cond → 0 < cond.level → Fits stack 0 →
      Awaiting depth (.ifMark :: stack) (cond :: exprs) (read ++ cond.tokens ++ [.ifMark])
  | elseMark {stack : List Token} {exprs : List Expr} {read : List Token} {first : Expr} :
      Awaiting depth (.ifMark :: stack) exprs read → Parsed depth (.ifMark :: stack) first →
      Awaiting depth (.elseMark :: .ifMark :: stack) (first :: exprs)
        (read ++ first.tokens ++ [.elseMark])

/-- The stacks hold the parts of a parse tree for the tokens that were read: an operand is to come,
or a constant is there, or an operand is there with what can follow it, or a bracket was closed. -/
inductive Good (meaning : Meaning Value) (depth : Nat) : ParseState Value → List Token → Prop
  | awaiting {stack : List Token} {exprs : List Expr} {read : List Token} {next : Token}
      {value : Value} {input : Text} :
      Awaiting depth stack exprs read → stack.length + 1 ≤ depth → next.starts = true →
      (∀ name, next = .constant name → value = meaning.constant name) →
      Good meaning depth ⟨stack, exprs.map (Expr.eval meaning), next, value, input⟩ read
  | constant {stack : List Token} {exprs : List Expr} {read : List Token} {name : Constant}
      {next : Token} {value : Value} {input : Text} :
      Awaiting depth stack exprs read → stack.length + 2 ≤ depth →
      (next.starts = false → value = meaning.constant name) →
      Good meaning depth ⟨.constant name :: stack, exprs.map (Expr.eval meaning), next, value, input⟩
        (read ++ [.constant name])
  | complete {stack : List Token} {exprs : List Expr} {read : List Token} {expr : Expr}
      {next : Token} {value : Value} {input : Text} :
      Awaiting depth stack exprs read → Parsed depth stack expr → Fits stack expr.level →
      Follows expr.level next → next.starts = false →
      Good meaning depth ⟨stack, expr.eval meaning :: exprs.map (Expr.eval meaning), next, value, input⟩
        (read ++ expr.tokens)
  | ket {stack : List Token} {exprs : List Expr} {read : List Token} {inner : Expr}
      {next : Token} {value : Value} {input : Text} :
      Awaiting depth stack exprs read → Parsed depth (.bra :: stack) inner →
      Good meaning depth
        ⟨.ket :: .bra :: stack, inner.eval meaning :: exprs.map (Expr.eval meaning), next, value, input⟩
        (read ++ [.bra] ++ inner.tokens ++ [.ket])

theorem Awaiting.opened {stack : List Token} {exprs : List Expr} {read : List Token}
    (h : Awaiting depth stack exprs read) : Open stack := by
  induction h with
  | bottom => exact .bottom
  | bra _ ih => exact .bra ih
  | not _ ih => exact .not ih
  | binary _ _ _ _ ih => exact .binary _ ih
  | ifMark _ _ _ _ ih => exact .ifMark ih
  | elseMark _ _ ih =>
      cases ih with
      | ifMark hRest => exact .elseMark hRest

theorem Good.stacked {state : ParseState Value} {read : List Token}
    (h : Good meaning depth state read) : Stacked state.tokenStack := by
  cases h with
  | awaiting hAwaiting hRoom hNext hValue => exact .opened hAwaiting.opened
  | constant hAwaiting hRoom hValue => exact .constant _ hAwaiting.opened
  | complete hAwaiting hParsed hFits hFollows hNext => exact .opened hAwaiting.opened
  | ket hAwaiting hParsed => exact .ket hAwaiting.opened

/-- Where an operand is awaited there is a value for every token that holds one. -/
theorem Awaiting.length {stack : List Token} {exprs : List Expr} {read : List Token}
    (h : Awaiting depth stack exprs read) : exprs.length = (stack.map Token.held).sum := by
  induction h with
  | bottom => rfl
  | bra _ ih => simpa [Token.held] using ih
  | not _ ih => simpa [Token.held] using ih
  | binary _ _ _ _ ih => simp [Token.held, ih, Nat.add_comm]
  | ifMark _ _ _ _ ih => simp [Token.held, ih, Nat.add_comm]
  | elseMark _ _ ih =>
      simp only [List.map_cons, List.sum_cons, List.length_cons, Token.held] at ih ⊢
      omega

/-- Once a token is pushed that an operand follows, the next one starts it or it is missing. -/
theorem Awaiting.next {stack : List Token} {exprs : List Expr} {read : List Token}
    (h : Awaiting depth stack exprs read) (hRoom : stack.length + 1 ≤ depth) (token : Token)
    (value : Value) (input : Text) :
    Short ⟨stack, exprs.map (Expr.eval meaning), token, valueOf meaning token value, input⟩ ∨
      Good meaning depth
        ⟨stack, exprs.map (Expr.eval meaning), token, valueOf meaning token value, input⟩ read := by
  cases hStarts : token.starts with
  | true =>
      refine .inr (.awaiting h hRoom hStarts ?_)
      rintro name rfl
      rfl
  | false =>
      refine .inl ⟨.opened h.opened, ?_⟩
      simp only [List.length_map, h.length, expected_open h.opened hStarts]
      omega

theorem Good.push {state : ParseState Value} {read : List Token} (h : Good meaning depth state read)
    (hAction : lookupAction state.thisToken state.nextToken = .lt ∨
      lookupAction state.thisToken state.nextToken = .eq)
    (hFull : state.tokenStack.length + 1 ≠ depth) (hDone : ¬ state.Done) (token : Token)
    (rest : Text) :
    Short (state.pushed meaning token rest) ∨
      Good meaning depth (state.pushed meaning token rest) (read ++ [state.nextToken]) := by
  cases h with
  | @awaiting stack exprs read next value input hAwaiting hRoom hStarts hValue =>
      simp only at hFull
      have hMore : stack.length + 2 ≤ depth := by omega
      cases next with
      | constant name =>
          refine .inr (.constant hAwaiting hMore fun hOther => ?_)
          cases token with
          | constant other => exact absurd hOther nofun
          | _ => exact hValue name rfl
      | bra => exact (Awaiting.bra hAwaiting).next hMore token value rest
      | not => exact (Awaiting.not hAwaiting).next hMore token value rest
      | _ => exact absurd hStarts nofun
  | constant hAwaiting hRoom hValue => exact absurd (not_closes_of_push hAction) nofun
  | ket hAwaiting hParsed => exact absurd (not_closes_of_push hAction) nofun
  | @complete stack exprs read expr next value input hAwaiting hParsed hFits hFollows hStarts =>
      have hMore : stack.length + 2 ≤ depth := by
        have hRoom := hParsed.room
        have hDepth := expr.depth_pos
        omega
      cases next with
      | constant name => exact absurd hStarts nofun
      | bra => exact absurd hStarts nofun
      | not => exact absurd hStarts nofun
      | ket =>
          have hTop := push_ket hAction
          cases hAwaiting with
          | bra hRest =>
              exact .inr (.ket hRest hParsed)
          | _ => exact absurd hTop nofun
      | binary op =>
          exact (Awaiting.binary hAwaiting hParsed hFollows (fits_binary hAction)).next hMore token
            value rest
      | ifMark =>
          exact (Awaiting.ifMark hAwaiting hParsed hFollows (fits_ifMark hAction)).next hMore token
            value rest
      | elseMark =>
          have hTop := push_elseMark hAction
          cases hAwaiting with
          | ifMark hRest hCond hLevel hBelow =>
              exact (Awaiting.elseMark (.ifMark hRest hCond hLevel hBelow) hParsed).next hMore token
                value rest
          | _ => exact absurd hTop nofun
      | endOfInput =>
          have hTop := push_endOfInput hAction
          cases hAwaiting with
          | bottom => exact absurd ⟨rfl, rfl⟩ hDone
          | _ => exact absurd hTop nofun

theorem fits_six (stack : List Token) : Fits stack 6 := by
  unfold Fits
  split
  · rfl
  · next op _ => cases op <;> decide
  · trivial

theorem follows_six (next : Token) : Follows 6 next := by
  cases next with
  | binary op =>
      change op.precedence ≤ 6
      cases op <;> decide
  | ifMark => exact Nat.zero_lt_succ 5
  | _ => trivial

theorem precedence_pos (op : BinaryOp) : 0 < op.precedence := by
  cases op <;> decide

theorem reducible_of_gt {this next : Token} (h : lookupAction this next = .gt) :
    this ≠ .endOfInput ∧ this ≠ .bra ∧ this ≠ .ifMark := by
  refine ⟨?_, ?_, ?_⟩ <;>
  · rintro rfl
    cases next <;> simp [lookupAction, parseTable, Token.index] at h

theorem follows_of_gt {op : BinaryOp} {next : Token} (h : lookupAction (.binary op) next = .gt) :
    Follows op.precedence next := by
  cases next with
  | binary above =>
      by_contra hNot
      simp [lookupAction, parseTable, Token.index, Token.precedence, not_le.mp hNot] at h
  | ifMark => exact precedence_pos op
  | _ => trivial

theorem follows_zero_of_gt {next : Token} (h : lookupAction .elseMark next = .gt) :
    Follows 0 next := by
  cases next with
  | binary above => simp [lookupAction, parseTable, Token.index] at h
  | ifMark => simp [lookupAction, parseTable, Token.index] at h
  | _ => trivial

theorem Good.reduce {state : ParseState Value} {read : List Token}
    (h : Good meaning depth state read)
    (hAction : lookupAction state.thisToken state.nextToken = .gt) :
    Good meaning depth (state.reduced meaning) read := by
  have hStarts := not_starts_of_reduce hAction
  obtain ⟨hEnd, hBra, hIf⟩ := reducible_of_gt hAction
  cases h with
  | awaiting hAwaiting hRoom hNext hValue =>
      rw [hStarts] at hNext
      exact absurd hNext nofun
  | @constant stack exprs read name next value input hAwaiting hRoom hValue =>
      obtain rfl := hValue hStarts
      have hConstant : Parsed depth stack (.constant name) := ⟨trivial, hRoom⟩
      exact .complete hAwaiting hConstant (fits_six stack) (follows_six next) hStarts
  | @ket stack exprs read inner next value input hAwaiting hParsed =>
      have hTokens : read ++ [.bra] ++ inner.tokens ++ [.ket] =
          read ++ (Expr.bracket inner).tokens := by
        simp [Expr.tokens]
      have hRoom := hParsed.room
      rw [List.length_cons] at hRoom
      have hBracket : Parsed depth stack (.bracket inner) :=
        ⟨hParsed.valid, by simp only [Expr.depth]; omega⟩
      rw [hTokens]
      exact .complete hAwaiting hBracket (fits_six stack) (follows_six next) hStarts
  | @complete stack exprs read expr next value input hAwaiting hParsed hFits hFollows hNext =>
      have hRoom := hParsed.room
      cases hAwaiting with
      | bottom => exact absurd rfl hEnd
      | bra hRest => exact absurd rfl hBra
      | ifMark hRest hCond hLevel hBelow => exact absurd rfl hIf
      | @not stack exprs read hRest =>
          have hTokens : read ++ [.not] ++ expr.tokens = read ++ (Expr.not expr).tokens := by
            simp [Expr.tokens]
          rw [List.length_cons] at hRoom
          have hNot : Parsed depth stack (.not expr) :=
            ⟨⟨hParsed.valid, hFits⟩, by simp only [Expr.depth]; omega⟩
          rw [hTokens]
          exact .complete hRest hNot (fits_six stack) (follows_six next) hStarts
      | @binary stack exprs read op left hRest hLeft hLevel hBelow =>
          have hTokens : read ++ left.tokens ++ [.binary op] ++ expr.tokens =
              read ++ (Expr.binary op left expr).tokens := by
            simp [Expr.tokens]
          have hLeftRoom := hLeft.room
          rw [List.length_cons] at hRoom
          have hBinary : Parsed depth stack (.binary op left expr) :=
            ⟨⟨hLeft.valid, hParsed.valid, hLevel, hFits⟩, by simp only [Expr.depth]; omega⟩
          rw [hTokens]
          exact .complete hRest hBinary hBelow (follows_of_gt hAction) hStarts
      | @elseMark stack exprs read first hIfMark hFirst =>
          cases hIfMark with
          | @ifMark stack exprs read cond hRest hCond hLevel hBelow =>
              have hTokens : read ++ cond.tokens ++ [.ifMark] ++ first.tokens ++ [.elseMark] ++
                  expr.tokens = read ++ (Expr.choose cond first expr).tokens := by
                simp [Expr.tokens]
              have hCondRoom := hCond.room
              have hFirstRoom := hFirst.room
              simp only [List.length_cons] at hRoom hFirstRoom
              have hChoose : Parsed depth stack (.choose cond first expr) :=
                ⟨⟨hCond.valid, hFirst.valid, hParsed.valid, hLevel⟩, by
                  simp only [Expr.depth]; omega⟩
              rw [hTokens]
              exact .complete hRest hChoose hBelow (follows_zero_of_gt hAction) hStarts

theorem loop_sound {rounds : Nat} {state : ParseState Value} {read : List Token}
    {values : List Value} {value : Value} (hGood : Good meaning depth state read)
    (h : loop meaning depth rounds state = some (.ok values))
    (hValue : extractResult values = .ok value) :
    ∃ (tokens : List Token) (expr : Expr), Stream state.nextToken state.input tokens ∧
      expr.Valid ∧ expr.tokens = read ++ tokens ∧ expr.depth < depth ∧
        value = expr.eval meaning := by
  induction rounds generalizing state read with
  | zero => exact absurd h nofun
  | succ rounds ih =>
      rw [loop] at h
      split_ifs at h with hDone
      · obtain rfl := Except.ok.inj (Option.some.inj h)
        cases hGood with
        | awaiting hAwaiting hRoom hNext hRegister =>
            obtain ⟨-, hEnd⟩ := hDone
            simp only at hEnd
            rw [hEnd] at hNext
            exact absurd hNext nofun
        | constant hAwaiting hRoom hRegister => exact absurd hDone.1 nofun
        | ket hAwaiting hParsed => exact absurd hDone.1 nofun
        | @complete stack exprs read expr next register input hAwaiting hParsed hFits hFollows hNext =>
            obtain ⟨hStack, hEnd⟩ := hDone
            simp only at hStack hEnd
            subst hStack hEnd
            cases hAwaiting
            have hRoom := hParsed.room
            refine ⟨[], expr, .finish input, hParsed.valid, by simp, ?_, (Except.ok.inj hValue).symm⟩
            simp only [List.length_nil] at hRoom
            omega
      · cases hStep : step meaning depth state with
        | error status =>
            rw [hStep] at h
            exact absurd h nofun
        | ok next =>
            rw [hStep] at h
            rcases step_cases hStep with
              ⟨token, rest, hAction, hFull, hRead, rfl⟩ | ⟨hAction, -, rfl⟩
            · rcases hGood.push hAction hFull hDone token rest with hShort | hNext
              · rw [loop_short hShort h] at hValue
                exact absurd hValue nofun
              · obtain ⟨tokens, expr, hStream, hValid, hTokens, hDepth, hResult⟩ := ih hNext h
                have hSome := next_ne_endOfInput hGood.stacked hDone hAction
                exact ⟨state.nextToken :: tokens, expr, .next hSome hRead hStream, hValid,
                  by simpa using hTokens, hDepth, hResult⟩
            · have hRest := ih (hGood.reduce hAction) h
              exact hRest

end Parser

end Server.Lut
