import Mathlib.Data.Fin.VecNotation
import PandaBridge.Clocked.Run
import PandaBridge.Fpga.SerialParts
import PandaBridge.Server.FieldClasses
import PandaBridge.Server.LutComplete
import PandaBridge.Server.TimeRoundTrip

/-! The LUT block, and what a client's expression makes of it: the text is compiled to the 32 bits
of `FUNC`, and the block looks up one of them at each clock. -/
namespace Fpga.LutBlock

open Clocked Server.Lut

structure Input where
  inpa : Bool
  inpb : Bool
  inpc : Bool
  inpd : Bool
  inpe : Bool
  typea : BitVec 32
  typeb : BitVec 32
  typec : BitVec 32
  typed : BitVec 32
  typee : BitVec 32
  func : BitVec 32

structure State where
  inpDly : Fin 5 → Bool
  out : Bool

def inp (i : Input) : Fin 5 → Bool :=
  ![i.inpe, i.inpd, i.inpc, i.inpb, i.inpa]

def risingInp (s : State) (i : Input) (place : Fin 5) : Bool :=
  !s.inpDly place && inp i place

def fallingInp (s : State) (i : Input) (place : Fin 5) : Bool :=
  s.inpDly place && !inp i place

def abcde (i : Input) : Fin 5 → BitVec 2 :=
  ![i.typee.setWidth 2, i.typed.setWidth 2, i.typec.setWidth 2, i.typeb.setWidth 2,
    i.typea.setWidth 2]

def index (s : State) (i : Input) (place : Fin 5) : Bool :=
  if abcde i place = 0 then inp i place
  else if abcde i place = 1 then risingInp s i place
  else if abcde i place = 2 then fallingInp s i place
  else if abcde i place = 3 then risingInp s i place || fallingInp s i place
  else false

/-- One rising clock edge. -/
def step (s : State) (i : Input) : State where
  inpDly := inp i
  out := i.func.getLsbD (ofBits (index s i)).toNat

/-! ### Expressions -/

/-- What `TYPE` makes of an input and of what it was one clock before. -/
def conditioned (type : BitVec 32) (before now : Bool) : Bool :=
  match type.setWidth 2 with
  | 0 => now
  | 1 => !before && now
  | 2 => before && !now
  | _ => before != now

/-- The inputs of an expression, from those of two clocks. -/
def signals (before now : Input) : Constant → Bool
  | .zero => false
  | .one => true
  | .a => conditioned now.typea before.inpa now.inpa
  | .b => conditioned now.typeb before.inpb now.inpb
  | .c => conditioned now.typec before.inpc now.inpc
  | .d => conditioned now.typed before.inpd now.inpd
  | .e => conditioned now.typee before.inpe now.inpe

/-- The value of an expression for values of its inputs. -/
def holds (expr : Expr) (signals : Constant → Bool) : Bool :=
  expr.eval { logic 0 with constant := signals }

theorem value_eq_holds (expr : Expr) (index : Nat) : expr.value index = holds expr (inputs index) := by
  induction expr with
  | constant name => rfl
  | bracket inner ih => exact ih
  | not operand ih => exact congrArg (! ·) ih
  | binary op left right ihLeft ihRight =>
      exact congrArg₂ ((logic index).binary op) ihLeft ihRight
  | choose cond first second ihCond ihFirst ihSecond =>
      change (if cond.value index then first.value index else second.value index) = _
      rw [ihCond, ihFirst, ihSecond]
      rfl

theorem index_eq (s : State) (i : Input) (type : BitVec 32) (place : Fin 5)
    (hType : abcde i place = type.setWidth 2) :
    index s i place = conditioned type (s.inpDly place) (inp i place) := by
  unfold index risingInp fallingInp conditioned
  rw [hType]
  generalize type.setWidth 2 = code
  generalize s.inpDly place = before
  generalize inp i place = now
  revert code before now
  decide

theorem inputs_index {s : State} {before : Input} (hDly : s.inpDly = inp before) (now : Input) :
    inputs (ofBits (index s now)).toNat = signals before now := by
  have hBit : ∀ place : Fin 5, (ofBits (index s now)).toNat.testBit place.val = index s now place :=
    fun place => (BitVec.testBit_toNat _).trans (ofBits_getLsbD _ place)
  funext name
  cases name with
  | zero => rfl
  | one => rfl
  | a => exact (hBit 4).trans ((index_eq s now now.typea 4 rfl).trans (by rw [hDly]; rfl))
  | b => exact (hBit 3).trans ((index_eq s now now.typeb 3 rfl).trans (by rw [hDly]; rfl))
  | c => exact (hBit 2).trans ((index_eq s now now.typec 2 rfl).trans (by rw [hDly]; rfl))
  | d => exact (hBit 1).trans ((index_eq s now now.typed 1 rfl).trans (by rw [hDly]; rfl))
  | e => exact (hBit 0).trans ((index_eq s now now.typee 0 rfl).trans (by rw [hDly]; rfl))

/-! ### From the client to the output -/

section Put

open Server Server.Fields

/-- The platform with `parse_lut` for its expressions. -/
abbrev lutPlatform (platform : Platform) : Platform :=
  { platform with parseLut := parseLutText }

/-- `FUNC`. -/
abbrev FuncField (platform : Platform) : Type :=
  RegisterField (.lut : FieldType (lutPlatform platform))

variable {platform : Platform} {number : Nat}

/-- The field after a put. -/
def put (number : Nat) (field : FuncField platform) (text : Text) : FuncField platform :=
  (basePut false .param none number field text).1

theorem put_eq (field : FuncField platform) (text : Text) :
    put number field text = match doParseLut (lutPlatform platform) text with
      | .error _ => field
      | .ok value => { value, state := { value, string := some text } } := by
  have hType : typeParse (.lut : FieldType (lutPlatform platform)) field.state text =
      (doParseLut (lutPlatform platform) text).map fun value => (value, []) := rfl
  unfold put basePut typePut
  rw [hType]
  cases doParseLut (lutPlatform platform) text with
  | error message => rfl
  | ok value => rfl

/-- After any texts that clients have put, if the last of them that was accepted is an expression it
is reported as it was put, and the output is from the next clock on the value of that expression
for the inputs that it names. -/
theorem put_expression_computed {expr : Expr} {text : Text} (hExpr : IsExpression expr text)
    (hDepth : expr.depth < maxDepth) (field : FuncField platform) (earlier : List Text)
    {later : List Text}
    (hRefused : ∀ other ∈ later, ∃ message,
      doParseLut (lutPlatform platform) other = .error message) :
    let last := (earlier ++ text :: later).foldl (put number) field
    (∀ room, text.length < room →
      typeFormat room (.lut : FieldType (lutPlatform platform)) last.state last.value = .ok text) ∧
    ∀ (run : Run step) clock, (run.input (clock + 1)).func = BitVec.ofNat 32 last.value →
      (run.state (clock + 2)).out =
        holds expr (signals (run.input clock) (run.input (clock + 1))) := by
  intro last
  have hKept : ∀ (later : List Text) (field : FuncField platform),
      (∀ other ∈ later, ∃ message, doParseLut (lutPlatform platform) other = .error message) →
        later.foldl (put number) field = field := by
    intro later
    induction later with
    | nil => exact fun _ _ => rfl
    | cons other later ih =>
        intro field hRefused
        obtain ⟨⟨message, hMessage⟩, hRest⟩ := List.forall_mem_cons.mp hRefused
        rw [List.foldl_cons, put_eq, hMessage]
        exact ih field hRest
  have hLast : last =
      { value := (expr.eval words).toNat
        state := { value := (expr.eval words).toNat, string := some text } } := by
    change (earlier ++ text :: later).foldl (put number) field = _
    rw [List.foldl_append, List.foldl_cons, hKept later _ hRefused, put_eq,
      doParseLut_expression rfl hExpr hDepth]
  rw [hLast]
  refine ⟨fun room hRoom => ?_, fun run clock hFunc => ?_⟩
  · change lutFormat room { value := (expr.eval words).toNat, string := some text }
      (expr.eval words).toNat = .ok text
    rw [lutFormat]
    simp only [if_true]
    exact formatString_of_lt hRoom
  · have hDly : (run.state (clock + 1)).inpDly = inp (run.input clock) := by
      rw [run.edge]
      rfl
    have hIndex : (ofBits (index (run.state (clock + 1)) (run.input (clock + 1)))).toNat < 32 :=
      BitVec.isLt _
    rw [run.edge (clock + 1)]
    change (run.input (clock + 1)).func.getLsbD _ = _
    rw [hFunc, BitVec.ofNat_toNat, BitVec.setWidth_eq, getLsbD_eval hIndex, value_eq_holds,
      inputs_index hDly]

/-- A refused text leaves the expression before it where it is. -/
theorem put_expression_computed_and :
    let platform := exactPlatform 64 (by decide) parseLutText 125000000
    let field : FuncField platform := { value := 0, state := .initial .lut }
    let last := ["C".toList, "A&~B".toList, "A&".toList].foldl (put 0) field
    let inputs : Input := ⟨true, false, false, false, false, 0, 0, 0, 0, 0, 0x00FF0000⟩
    let run := Run.ofInputs step ⟨fun _ => false, false⟩ fun _ => inputs
    ∃ expr, IsExpression expr "A&~B".toList ∧
      typeFormat 64 (.lut : FieldType (lutPlatform platform)) last.state last.value =
        .ok "A&~B".toList ∧ (run.state 2).out = holds expr (signals inputs inputs) := by
  intro platform field last inputs run
  have hParse : parseLut "A&~B".toList = some (.ok 0x00FF0000) := rfl
  obtain ⟨expr, hExpr, hDepth, -⟩ := (parseWith_iff (by decide)).mp hParse
  have hRefused : ∀ other ∈ ["A&".toList], ∃ message,
      doParseLut (lutPlatform platform) other = .error message := by
    intro other hOther
    obtain rfl := List.mem_singleton.mp hOther
    exact ⟨_, rfl⟩
  obtain ⟨hText, hOut⟩ := put_expression_computed hExpr hDepth field ["C".toList] hRefused
  exact ⟨expr, hExpr, hText 64 (by decide), hOut run 0 rfl⟩

end Put

end Fpga.LutBlock
