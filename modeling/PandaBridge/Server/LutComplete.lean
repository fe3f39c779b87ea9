import Mathlib.Logic.Relation
import PandaBridge.Server.FieldTypes
import PandaBridge.Server.LutSound

/-! Every expression is parsed: the parser runs through the tokens of a parse tree and leaves its
value, if its stack has room. With what is known of accepted lines this settles what the parser
does, and that a line has one parse tree. -/
namespace Server.Lut

/-! ### The table -/

theorem lookup_starts {this next : Token} (hThis : this.closes = false)
    (hNext : next.starts = true) : lookupAction this next = .lt := by
  cases this with
  | constant name => exact absurd hThis nofun
  | ket => exact absurd hThis nofun
  | _ => cases next <;> first | rfl | exact absurd hNext nofun

theorem lookup_closes {this next : Token} (hThis : this.closes = true)
    (hNext : next.starts = false) : lookupAction this next = .gt := by
  cases this with
  | constant name => cases next <;> first | rfl | exact absurd hNext nofun
  | ket => cases next <;> first | rfl | exact absurd hNext nofun
  | _ => exact absurd hThis nofun

theorem lookup_not {next : Token} (hNext : next.starts = false) :
    lookupAction .not next = .gt := by
  cases next <;> first | rfl | exact absurd hNext nofun

theorem lookup_binary {op : BinaryOp} {next : Token} (hNext : next.starts = false)
    (hFollows : Follows op.precedence next) : lookupAction (.binary op) next = .gt := by
  cases next with
  | binary above =>
      simp [lookupAction, parseTable, Token.index, Token.precedence, Nat.not_lt.mpr hFollows]
  | _ => first | rfl | cases hNext

theorem lookup_elseMark {next : Token} (hNext : next.starts = false) (hFollows : Follows 0 next) :
    lookupAction .elseMark next = .gt := by
  cases next with
  | binary above => exact absurd hFollows (Nat.not_le.mpr (precedence_pos above))
  | ifMark => exact absurd hFollows (Nat.lt_irrefl 0)
  | _ => first | rfl | exact absurd hNext nofun

theorem push_binary {stack : List Token} {op : BinaryOp}
    (hTop : (stack.headD .endOfInput).closes = false) (hFits : Fits stack op.precedence) :
    lookupAction (stack.headD .endOfInput) (.binary op) = .lt := by
  unfold Fits at hFits
  generalize stack.headD .endOfInput = this at hTop hFits ⊢
  cases this with
  | not => cases op <;> exact absurd hFits (by decide)
  | binary below => simp_all [lookupAction, parseTable, Token.index, Token.precedence]
  | _ => first | rfl | cases hTop

theorem push_ifMark {stack : List Token} (hTop : (stack.headD .endOfInput).closes = false)
    (hFits : Fits stack 0) : lookupAction (stack.headD .endOfInput) .ifMark = .lt := by
  unfold Fits at hFits
  generalize stack.headD .endOfInput = this at hTop hFits ⊢
  cases this with
  | not => exact absurd hFits (by decide)
  | binary below => exact absurd hFits (Nat.not_lt_zero _)
  | _ => first | rfl | exact absurd hTop nofun

theorem Fits.mono {stack : List Token} {low high : Nat} (h : Fits stack low) (hLow : low < 6)
    (hHigh : low ≤ high) : Fits stack high := by
  unfold Fits at h ⊢
  generalize stack.headD .endOfInput = this at h ⊢
  cases this with
  | not => exact absurd h hLow.ne
  | binary op => exact h.trans_le hHigh
  | _ => trivial

theorem Follows.mono {next : Token} {low high : Nat} (h : Follows low next) (hHigh : low ≤ high) :
    Follows high next := by
  cases next with
  | binary op => exact h.trans hHigh
  | ifMark => exact h.trans_le hHigh
  | _ => trivial

theorem precedence_lt_six (op : BinaryOp) : op.precedence < 6 := by
  cases op <;> decide

section Parser

variable {Value : Type} {meaning : Meaning Value} {depth : Nat}

/-! ### Runs -/

/-- Rounds of the loop, one after the other. -/
def Rounds (meaning : Meaning Value) (depth : Nat) : ParseState Value → ParseState Value → Prop :=
  Relation.ReflTransGen fun state next => ¬ state.Done ∧ step meaning depth state = .ok next

/-- The register has the value of the constant that is next. -/
def Registered (meaning : Meaning Value) (state : ParseState Value) : Prop :=
  ∀ name, state.nextToken = .constant name → state.value = meaning.constant name

theorem Stream.head {token : Token} {input : Text} {tokens : List Token}
    (h : Stream token input tokens) : token = tokens.headD .endOfInput := by
  cases h <;> rfl

theorem Stream.uncons {token next : Token} {input : Text} {tokens : List Token}
    (h : Stream token input (next :: tokens)) : token = next ∧ token ≠ .endOfInput ∧
      ∃ following rest, readToken input = .ok (following, rest) ∧ Stream following rest tokens := by
  cases h with
  | next hSome hRead hRest => exact ⟨rfl, hSome, _, _, hRead, hRest⟩

theorem Rounds.push {state : ParseState Value} {next : Token} {tokens : List Token}
    (hAction : lookupAction state.thisToken next = .lt ∨ lookupAction state.thisToken next = .eq)
    (hRoom : state.tokenStack.length + 1 < depth)
    (hStream : Stream state.nextToken state.input (next :: tokens)) :
    ∃ pushed, Rounds meaning depth state pushed ∧ pushed.tokenStack = next :: state.tokenStack ∧
      pushed.valueStack = state.valueStack ∧ Registered meaning pushed ∧
      (pushed.nextToken.starts = false → pushed.value = state.value) ∧
      Stream pushed.nextToken pushed.input tokens := by
  obtain ⟨rfl, hSome, following, rest, hRead, hRest⟩ := hStream.uncons
  refine ⟨state.pushed meaning following rest, .single ⟨?_, ?_⟩, rfl, rfl, ?_, ?_, hRest⟩
  · exact fun hDone => hSome hDone.2
  · have hPush : pushToken meaning depth state = .ok (state.pushed meaning following rest) := by
      rw [pushToken, if_neg hRoom.ne, hRead]
      rfl
    unfold step
    rcases hAction with hLess | hSame
    · rw [hLess]
      exact hPush
    · rw [hSame]
      exact hPush
  · rintro name hName
    change valueOf meaning following state.value = _
    rw [show following = .constant name from hName]
    rfl
  · intro hOther
    change valueOf meaning following state.value = _
    cases following with
    | constant name => exact absurd hOther nofun
    | _ => rfl

theorem Rounds.reduce {state : ParseState Value}
    (hAction : lookupAction state.thisToken state.nextToken = .gt)
    (hArity : state.thisToken.arity ≤ state.valueStack.length) :
    Rounds meaning depth state (state.reduced meaning) := by
  refine .single ⟨fun hDone => ?_, ?_⟩
  · rw [ParseState.thisToken, hDone.1] at hAction
    exact absurd rfl (reducible_of_gt hAction).1
  · unfold step
    rw [hAction]
    change reduceStack meaning state = _
    rw [reduceStack, if_neg (not_lt.mpr hArity)]
    rfl

/-- What a run through the tokens of an expression leaves. -/
structure Ran (meaning : Meaning Value) (depth : Nat) (state final : ParseState Value) (expr : Expr)
    (after : List Token) : Prop where
  rounds : Rounds meaning depth state final
  stack : final.tokenStack = state.tokenStack
  values : final.valueStack = expr.eval meaning :: state.valueStack
  stream : Stream final.nextToken final.input after

theorem Ran.reduce {state middle : ParseState Value} {expr : Expr} {after stack : List Token}
    {this : Token} (hRounds : Rounds meaning depth state middle)
    (hMiddle : middle.tokenStack = this :: stack)
    (hStream : Stream middle.nextToken middle.input after)
    (hAction : lookupAction this (after.headD .endOfInput) = .gt)
    (hArity : this.arity ≤ middle.valueStack.length)
    (hStack : (this :: stack).drop this.reduce = state.tokenStack)
    (hValues : Lut.reduce meaning this middle.value middle.valueStack =
      expr.eval meaning :: state.valueStack) :
    Ran meaning depth state (middle.reduced meaning) expr after := by
  have hThis : middle.thisToken = this := by
    rw [ParseState.thisToken, hMiddle]
    rfl
  rw [← hStream.head, ← hThis] at hAction
  rw [← hMiddle, ← hThis] at hStack
  rw [← hThis] at hArity hValues
  exact ⟨hRounds.trans (Rounds.reduce hAction hArity), hStack, hValues, hStream⟩

theorem Ran.push {state middle : ParseState Value} {expr : Expr} {next : Token}
    {tokens : List Token} (hRan : Ran meaning depth state middle expr (next :: tokens))
    (hAction : lookupAction state.thisToken next = .lt ∨ lookupAction state.thisToken next = .eq)
    (hRoom : state.tokenStack.length + 1 < depth) :
    ∃ pushed, Rounds meaning depth state pushed ∧ pushed.tokenStack = next :: state.tokenStack ∧
      pushed.valueStack = expr.eval meaning :: state.valueStack ∧ Registered meaning pushed ∧
      Stream pushed.nextToken pushed.input tokens := by
  have hThis : middle.thisToken = state.thisToken := by
    rw [ParseState.thisToken, hRan.stack]
    rfl
  rw [← hThis] at hAction
  rw [← hRan.stack] at hRoom
  obtain ⟨pushed, hRounds, hStack, hValues, hRegistered, -, hStream⟩ :=
    Rounds.push hAction hRoom hRan.stream
  rw [hRan.stack] at hStack
  rw [hRan.values] at hValues
  exact ⟨pushed, hRan.rounds.trans hRounds, hStack, hValues, hRegistered, hStream⟩

theorem thisToken_eq {state : ParseState Value} {this : Token} {stack : List Token}
    (h : state.tokenStack = this :: stack) : state.thisToken = this := by
  rw [ParseState.thisToken, h]
  rfl

theorem run_expr {expr : Expr} (hValid : expr.Valid) {state : ParseState Value}
    {after : List Token} (hTop : state.thisToken.closes = false)
    (hFits : Fits state.tokenStack expr.level)
    (hRoom : state.tokenStack.length + 1 + expr.depth ≤ depth)
    (hRegistered : Registered meaning state)
    (hAfter : (after.headD .endOfInput).starts = false)
    (hFollows : Follows expr.level (after.headD .endOfInput))
    (hStream : Stream state.nextToken state.input (expr.tokens ++ after)) :
    ∃ final, Ran meaning depth state final expr after := by
  induction expr generalizing state after with
  | constant name =>
      obtain ⟨pushed, hRounds, hStack, hValues, -, hValue, hRest⟩ :=
        @Rounds.push _ meaning depth _ _ after (.inl (lookup_starts hTop rfl)) hRoom hStream
      obtain ⟨hNext, -⟩ := hStream.uncons
      refine ⟨_, Ran.reduce hRounds hStack hRest (lookup_closes rfl hAfter) (Nat.zero_le _) rfl ?_⟩
      rw [← hRest.head] at hAfter
      rw [hValues, hValue hAfter, hRegistered name hNext]
      rfl
  | bracket inner ih =>
      rw [Expr.tokens, List.append_assoc, List.cons_append] at hStream
      rw [Expr.depth] at hRoom
      have hInner := inner.depth_pos
      obtain ⟨opened, hOpen, hOpenStack, hOpenValues, hRegistered, -, hOpenStream⟩ :=
        @Rounds.push _ meaning depth _ _ _ (.inl (lookup_starts hTop rfl)) (by omega) hStream
      have hThis := thisToken_eq hOpenStack
      obtain ⟨middle, hRan⟩ := @ih hValid opened (.ket :: after) (by rw [hThis]; rfl)
        (by rw [hOpenStack]; trivial) (by rw [hOpenStack, List.length_cons]; omega) hRegistered
        rfl trivial hOpenStream
      obtain ⟨closed, hClose, hCloseStack, hCloseValues, -, hCloseStream⟩ :=
        hRan.push (.inr (by rw [hThis]; rfl)) (by rw [hOpenStack, List.length_cons]; omega)
      rw [hOpenStack] at hCloseStack
      rw [hOpenValues] at hCloseValues
      refine ⟨_, Ran.reduce (hOpen.trans hClose) hCloseStack hCloseStream
        (lookup_closes rfl hAfter) ?_ rfl ?_⟩
      · rw [hCloseValues]
        exact Nat.le_add_left _ _
      · rw [hCloseValues]
        rfl
  | not operand ih =>
      rw [Expr.depth] at hRoom
      obtain ⟨pushed, hRounds, hStack, hValues, hPushed, -, hRest⟩ :=
        @Rounds.push _ meaning depth _ _ _ (.inl (lookup_starts hTop rfl)) (by omega) hStream
      have hThis := thisToken_eq hStack
      obtain ⟨middle, hRan⟩ := @ih hValid.1 pushed after (by rw [hThis]; rfl)
        (by rw [hStack, hValid.2]; rfl) (by rw [hStack, List.length_cons]; omega) hPushed hAfter
        (by rw [hValid.2]; exact follows_six _) hRest
      refine ⟨_, Ran.reduce (hRounds.trans hRan.rounds) (hRan.stack.trans hStack) hRan.stream
        (lookup_not hAfter) ?_ rfl ?_⟩
      · rw [hRan.values]
        exact Nat.le_add_left _ _
      · rw [hRan.values, hValues]
        rfl
  | binary op left right ihLeft ihRight =>
      obtain ⟨hLeftValid, hRightValid, hLeftLevel, hRightLevel⟩ := hValid
      rw [Expr.tokens, List.append_assoc, List.cons_append] at hStream
      rw [Expr.depth] at hRoom
      have hRight := right.depth_pos
      obtain ⟨middle, hLeft⟩ := @ihLeft hLeftValid state (.binary op :: (right.tokens ++ after)) hTop
        (hFits.mono (precedence_lt_six op) hLeftLevel) (by omega) hRegistered rfl hLeftLevel hStream
      obtain ⟨pushed, hRounds, hStack, hValues, hPushed, hRest⟩ :=
        hLeft.push (.inl (push_binary hTop hFits)) (by omega)
      have hThis := thisToken_eq hStack
      obtain ⟨last, hRan⟩ := @ihRight hRightValid pushed after (by rw [hThis]; rfl)
        (by rw [hStack]; exact hRightLevel) (by rw [hStack, List.length_cons]; omega) hPushed hAfter
        (hFollows.mono hRightLevel.le) hRest
      refine ⟨_, Ran.reduce (hRounds.trans hRan.rounds) (hRan.stack.trans hStack) hRan.stream
        (lookup_binary hAfter hFollows) ?_ rfl ?_⟩
      · rw [hRan.values, hValues]
        exact Nat.le_add_left _ _
      · rw [hRan.values, hValues]
        rfl
  | choose cond first second ihCond ihFirst ihSecond =>
      obtain ⟨hCondValid, hFirstValid, hSecondValid, hLevel⟩ := hValid
      have hTokens : (Expr.choose cond first second).tokens ++ after = cond.tokens ++ (.ifMark ::
          (first.tokens ++ (.elseMark :: (second.tokens ++ after)))) := by
        simp [Expr.tokens]
      rw [hTokens] at hStream
      rw [Expr.depth] at hRoom
      have hFirst := first.depth_pos
      have hSecond := second.depth_pos
      obtain ⟨middle, hCond⟩ := @ihCond hCondValid state (.ifMark :: (first.tokens ++
          (.elseMark :: (second.tokens ++ after)))) hTop
        (hFits.mono (show (0 : Nat) < 6 by decide) hLevel.le) (by omega) hRegistered rfl hLevel hStream
      obtain ⟨asked, hAsk, hAskStack, hAskValues, hAsked, hAskStream⟩ :=
        hCond.push (.inl (push_ifMark hTop hFits)) (by omega)
      have hAskThis := thisToken_eq hAskStack
      obtain ⟨between, hThen⟩ := @ihFirst hFirstValid asked (.elseMark :: (second.tokens ++ after))
        (by rw [hAskThis]; rfl)
        (by rw [hAskStack]; trivial) (by rw [hAskStack, List.length_cons]; omega) hAsked rfl trivial
        hAskStream
      obtain ⟨pushed, hRounds, hStack, hValues, hPushed, hRest⟩ :=
        hThen.push (.inr (by rw [hAskThis]; rfl)) (by rw [hAskStack, List.length_cons]; omega)
      rw [hAskStack] at hStack
      rw [hAskValues] at hValues
      have hThis := thisToken_eq hStack
      obtain ⟨last, hRan⟩ := @ihSecond hSecondValid pushed after (by rw [hThis]; rfl)
        (by rw [hStack]; trivial) (by rw [hStack, List.length_cons, List.length_cons]; omega) hPushed
        hAfter (hFollows.mono (Nat.zero_le _)) hRest
      refine ⟨_, Ran.reduce ((hAsk.trans hRounds).trans hRan.rounds) (hRan.stack.trans hStack)
        hRan.stream (lookup_elseMark hAfter hFollows) ?_ rfl ?_⟩
      · rw [hRan.values, hValues]
        exact Nat.le_add_left _ _
      · rw [hRan.values, hValues]
        rfl

/-! ### The loop ends -/

/-- The rounds that a token takes, to be pushed and to be reduced. -/
def Token.rounds : Token → Nat
  | endOfInput => 0
  | _ => 2

/-- The rounds that a state has left. -/
def ParseState.fuel (state : ParseState Value) : Nat :=
  2 * state.input.length + state.nextToken.rounds + state.tokenStack.length

theorem rounds_eq_two {token : Token} (h : token ≠ .endOfInput) : token.rounds = 2 := by
  cases token with
  | endOfInput => exact absurd rfl h
  | _ => rfl

theorem rounds_le_two (token : Token) : token.rounds ≤ 2 := by
  cases token with
  | endOfInput => exact Nat.zero_le _
  | _ => exact Nat.le_refl 2

theorem readToken_length {input rest : Text} {token : Token}
    (h : readToken input = .ok (token, rest)) :
    2 * rest.length + token.rounds ≤ 2 * input.length := by
  rcases spelled_of_readToken h with ⟨rfl, rfl, blanks, rfl⟩ | ⟨blanks, word, rfl, hWord⟩
  · exact Nat.zero_le _
  · have hSome : 0 < word.length := by
      rw [List.length_pos_iff]
      rintro rfl
      cases token with
      | constant name => cases name <;> exact absurd hWord (by decide)
      | binary op => cases op <;> exact absurd hWord (by decide)
      | _ => exact absurd hWord (by decide)
    have hMost := rounds_le_two token
    simp only [List.length_append]
    omega

theorem step_fuel {state next : ParseState Value} (hStacked : Stacked state.tokenStack)
    (hDone : ¬ state.Done) (h : step meaning depth state = .ok next) :
    Stacked next.tokenStack ∧ next.fuel < state.fuel := by
  rcases step_cases h with ⟨token, rest, hAction, -, hRead, rfl⟩ | ⟨hAction, -, rfl⟩
  · have hSome := next_ne_endOfInput hStacked hDone hAction
    have hLength := readToken_length hRead
    refine ⟨stacked_push (hStacked.open_of_not_closes (not_closes_of_push hAction)) hAction hSome, ?_⟩
    simp only [ParseState.fuel, ParseState.pushed, List.length_cons, rounds_eq_two hSome]
    omega
  · obtain ⟨hReduced, hOpen, -⟩ := stacked_reduce hStacked hAction
    refine ⟨.opened hOpen, ?_⟩
    have hStack : 0 < state.tokenStack.length := by
      rw [List.length_pos_iff]
      intro hEmpty
      rw [hEmpty] at hReduced
      exact hReduced rfl
    have hThis : state.thisToken.reduce ≠ 0 := hReduced
    simp only [ParseState.fuel, ParseState.reduced, List.length_drop]
    omega

theorem loop_isSome {rounds : Nat} {state : ParseState Value} (hStacked : Stacked state.tokenStack)
    (hRounds : state.fuel < rounds) : (loop meaning depth rounds state).isSome := by
  induction rounds generalizing state with
  | zero => exact absurd hRounds (Nat.not_lt_zero _)
  | succ rounds ih =>
      rw [loop]
      split_ifs with hDone
      · rfl
      · cases hStep : step meaning depth state with
        | error status => rfl
        | ok next =>
            obtain ⟨hNext, hFewer⟩ := step_fuel hStacked hDone hStep
            exact ih hNext (by omega)

theorem loop_add {rounds : Nat} {state : ParseState Value} {result : Except Status (List Value)}
    (h : loop meaning depth rounds state = some result) (more : Nat) :
    loop meaning depth (rounds + more) state = some result := by
  induction rounds generalizing state with
  | zero => exact absurd h nofun
  | succ rounds ih =>
      rw [Nat.add_right_comm, loop]
      rw [loop] at h
      split_ifs at h ⊢ with hDone
      · exact h
      · cases hStep : step meaning depth state with
        | error status =>
            rw [hStep] at h
            exact h
        | ok next =>
            rw [hStep] at h
            exact ih h

theorem loop_of_rounds {state final : ParseState Value} (hRounds : Rounds meaning depth state final)
    (hDone : final.Done) : ∃ rounds, loop meaning depth rounds state = some (.ok final.valueStack) := by
  induction hRounds using Relation.ReflTransGen.head_induction_on with
  | refl => exact ⟨1, if_pos hDone⟩
  | head hStep _ ih =>
      obtain ⟨rounds, hLoop⟩ := ih
      refine ⟨rounds + 1, ?_⟩
      have hNot := hStep.1
      unfold ParseState.Done at hNot
      rw [loop, if_neg hNot, hStep.2]
      exact hLoop

theorem loop_eq_of_rounds {rounds : Nat} {state final : ParseState Value}
    (hStacked : Stacked state.tokenStack) (hFuel : state.fuel < rounds)
    (hRounds : Rounds meaning depth state final) (hDone : final.Done) :
    loop meaning depth rounds state = some (.ok final.valueStack) := by
  obtain ⟨enough, hLoop⟩ := loop_of_rounds hRounds hDone
  obtain ⟨result, hResult⟩ := Option.isSome_iff_exists.mp
    (@loop_isSome _ meaning depth _ _ hStacked hFuel)
  have hMore := loop_add hLoop rounds
  rw [Nat.add_comm, loop_add hResult enough] at hMore
  rw [hResult, hMore]

/-! ### The parser -/

/-- The state in which the loop starts. -/
def ParseState.initial (meaning : Meaning Value) (zero : Value) (token : Token) (rest : Text) :
    ParseState Value where
  tokenStack := []
  valueStack := []
  nextToken := token
  value := valueOf meaning token zero
  input := rest

theorem initial_fuel {zero : Value} {text rest : Text} {token : Token}
    (h : readToken text = .ok (token, rest)) :
    (ParseState.initial meaning zero token rest).fuel < 2 * text.length + 3 := by
  have hLength := readToken_length h
  simp only [ParseState.fuel, ParseState.initial, List.length_nil]
  omega

theorem parseWith_isSome (zero : Value) (text : Text) :
    (parseWith meaning depth zero text).isSome := by
  unfold parseWith
  split
  · rfl
  · next token rest hRead =>
      rw [Option.isSome_map]
      exact loop_isSome (.opened .bottom) (@initial_fuel _ meaning zero _ _ _ hRead)

/-- What is accepted is an expression that the stack has room for, and its value is the result. -/
theorem parseWith_iff (hDepth : 0 < depth) {zero value : Value} {text : Text} :
    parseWith meaning depth zero text = some (.ok value) ↔
      ∃ expr, IsExpression expr text ∧ expr.depth < depth ∧ value = expr.eval meaning := by
  unfold parseWith
  constructor
  · intro h
    split at h
    · exact absurd h nofun
    · next token rest hRead =>
        obtain ⟨result, hLoop, hExtract⟩ := Option.map_eq_some_iff.mp h
        cases result with
        | error status => exact absurd hExtract nofun
        | ok values =>
            rcases (@Awaiting.bottom depth).next hDepth token zero rest with hShort | hGood
            · rw [loop_short hShort hLoop] at hExtract
              exact absurd hExtract nofun
            · obtain ⟨tokens, expr, hStream, hValid, hTokens, hRoom, hValue⟩ :=
                loop_sound hGood hLoop hExtract
              rw [List.nil_append] at hTokens
              have hSpelled := spells_of_stream hRead hStream
              rw [← hTokens] at hSpelled
              exact ⟨expr, ⟨hValid, hSpelled⟩, hRoom, hValue⟩
  · rintro ⟨expr, hExpr, hRoom, rfl⟩
    have hChain := expr.isChain_tokens (List.isChain_nil (R := Meets))
    rw [List.append_nil] at hChain
    obtain ⟨token, rest, hRead, hStream⟩ := stream_of_spells hChain hExpr.spelled
    obtain ⟨final, hRan⟩ := @run_expr _ meaning depth _ hExpr.valid
      (.initial meaning zero token rest) [] rfl trivial (by
        simp only [ParseState.initial, List.length_nil]
        omega) (by
        rintro name rfl
        rfl) rfl trivial (by
        rw [List.append_nil]
        exact hStream)
    have hLoop := loop_eq_of_rounds (.opened .bottom) (initial_fuel hRead) hRan.rounds
      ⟨hRan.stack, hRan.stream.head⟩
    rw [hRead]
    change (loop meaning depth (2 * text.length + 3) (.initial meaning zero token rest)).map _ = _
    rw [hLoop, hRan.values]
    rfl

end Parser

/-! ### Parse trees -/

/-- Operators that build the parse tree. -/
def trees : Meaning Expr where
  constant := .constant
  not := .not
  binary := .binary
  choose := .choose
  bracket := .bracket

theorem eval_trees (expr : Expr) : expr.eval trees = expr := by
  induction expr with
  | constant name => rfl
  | bracket inner ih => exact congrArg Expr.bracket ih
  | not operand ih => exact congrArg Expr.not ih
  | binary op left right ihLeft ihRight => exact congrArg₂ (Expr.binary op) ihLeft ihRight
  | choose cond first second ihCond ihFirst ihSecond =>
      rw [Expr.eval, ihCond, ihFirst, ihSecond]
      rfl

theorem IsExpression.unique {first second : Expr} {text : Text} (hFirst : IsExpression first text)
    (hSecond : IsExpression second text) : first = second := by
  have hParse : ∀ expr, IsExpression expr text → expr.depth < first.depth + second.depth + 1 →
      parseWith trees (first.depth + second.depth + 1) (.constant .zero) text = some (.ok expr) :=
    fun expr hExpr hRoom => (parseWith_iff (Nat.succ_pos _)).mpr ⟨expr, hExpr, hRoom, (eval_trees _).symm⟩
  have hSame := (hParse first hFirst (by omega)).symm.trans (hParse second hSecond (by omega))
  exact Except.ok.inj (Option.some.inj hSame)

/-- A line is accepted exactly when it is an expression that the stack has room for; it has one
parse tree then, and every bit of the result is its value for the inputs of that bit. -/
theorem parse_lut_correct (text : Text) :
    (∃ result, parseLut text = some result) ∧
      ((∃ value, parseLut text = some (.ok value)) ↔
        ∃ expr, IsExpression expr text ∧ expr.depth < maxDepth) ∧
      (∀ first second, IsExpression first text → IsExpression second text → first = second) ∧
      ∀ value expr, parseLut text = some (.ok value) → IsExpression expr text →
        ∀ index < 32, value.getLsbD index = expr.value index := by
  have hDepth : 0 < maxDepth := by decide
  refine ⟨Option.isSome_iff_exists.mp (parseWith_isSome 0 text), ⟨?_, ?_⟩,
    fun first second => IsExpression.unique, ?_⟩
  · rintro ⟨value, hParse⟩
    obtain ⟨expr, hExpr, hRoom, -⟩ := (parseWith_iff hDepth).mp hParse
    exact ⟨expr, hExpr, hRoom⟩
  · rintro ⟨expr, hExpr, hRoom⟩
    exact ⟨expr.eval words, (parseWith_iff hDepth).mpr ⟨expr, hExpr, hRoom, rfl⟩⟩
  · intro value expr hParse hExpr index hIndex
    obtain ⟨other, hOther, -, rfl⟩ := (parseWith_iff hDepth).mp hParse
    obtain rfl := hOther.unique hExpr
    exact getLsbD_eval hIndex other

/-! ### The text of a lookup table -/

/-- `parse_lut` with the messages of `do_parse_lut`. -/
def parseLutText (text : Text) : Except String Nat :=
  match parseLut text with
  | some (.ok value) => .ok value.toNat
  | some (.error status) => .error status.message
  | none => .error "Unknown parse status"

theorem not_mem_of_spells {tokens : List Token} {text : Text} (h : Spells tokens text) :
    'x' ∉ text := by
  have hBlank : ∀ blanks, 'x' ∉ List.replicate blanks ' ' :=
    fun blanks hMem => absurd (List.eq_of_mem_replicate hMem) (by decide)
  induction tokens generalizing text with
  | nil =>
      obtain ⟨blanks, rfl⟩ := h
      exact hBlank blanks
  | cons token tokens ih =>
      obtain ⟨blanks, word, tail, rfl, hWord, hTail⟩ := h
      have hPlain : ∀ word ∈ token.spellings, 'x' ∉ word := by
        cases token with
        | constant name => cases name <;> decide
        | binary op => cases op <;> decide
        | _ => decide
      simp only [List.mem_append, not_or]
      exact ⟨hBlank blanks, hPlain word hWord, ih hTail⟩

theorem doParseLut_expression {platform : Fields.Platform} (hParse : platform.parseLut = parseLutText)
    {expr : Expr} {text : Text} (hExpr : IsExpression expr text) (hRoom : expr.depth < maxDepth) :
    Fields.doParseLut platform text = .ok (expr.eval words).toNat := by
  have hMark : "0x".toList.isPrefixOf text = false := by
    by_contra hPrefix
    obtain ⟨rest, rfl⟩ := List.isPrefixOf_iff_prefix.mp (Bool.of_not_eq_false hPrefix)
    exact not_mem_of_spells hExpr.spelled (by simp)
  have hValue : parseLut text = some (.ok (expr.eval words)) :=
    (parseWith_iff (by decide)).mpr ⟨expr, hExpr, hRoom, rfl⟩
  rw [Fields.doParseLut, if_neg (Bool.not_eq_true _ ▸ hMark), hParse, parseLutText, hValue]
  exact congrArg Except.ok (Nat.mod_eq_of_lt (expr.eval words).isLt)

end Server.Lut
