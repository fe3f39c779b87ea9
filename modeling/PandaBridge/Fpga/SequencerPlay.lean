import PandaBridge.Fpga.Sequencer
import Mathlib.Data.List.Chain
import Mathlib.Data.List.FinRange

/-! What it is to play a table: which frame is played when, and what is on show meanwhile. The
state of the sequencer has no part in it. -/
namespace Fpga.Seq

/-- The condition of a trigger option. -/
def Met (frame : SeqFrame) (i : Input) : Prop :=
  match frame.trigger.toNat with
  | 0 => True
  | 1 => i.bita = false
  | 2 => i.bita = true
  | 3 => i.bitb = false
  | 4 => i.bitb = true
  | 5 => i.bitc = false
  | 6 => i.bitc = true
  | 7 => frame.position.toInt ≤ i.posa.toInt
  | 8 => i.posa.toInt ≤ frame.position.toInt
  | 9 => frame.position.toInt ≤ i.posb.toInt
  | 10 => i.posb.toInt ≤ frame.position.toInt
  | 11 => frame.position.toInt ≤ i.posc.toInt
  | 12 => i.posc.toInt ≤ frame.position.toInt
  | _ => False

/-- The length of a prescaled clock. -/
def period (i : Input) : Nat := max i.prescale.toNat 1

/-- A count has been reached; a count of zero never is. -/
def Reached (count number : Nat) : Prop := count ≠ 0 ∧ number = count

instance (count number : Nat) : Decidable (Reached count number) :=
  inferInstanceAs (Decidable (_ ∧ _))

/-- One play of a frame of the table: in which line, for which repeat of the line, in which pass of
the table. Repeats and passes count from one. -/
structure Play (table : List SeqFrame) where
  line : Fin table.length
  lineRepeat : Nat
  tableRepeat : Nat
  deriving DecidableEq

variable {table : List SeqFrame}

namespace Play

def frame (play : Play table) : SeqFrame := table.get play.line

/-- The play after another one, if there is any. -/
def next? (repeats : Nat) (play : Play table) : Option (Play table) :=
  if ¬ Reached play.frame.repeats.toNat play.lineRepeat then
    some { play with lineRepeat := play.lineRepeat + 1 }
  else if h : play.line + 1 < table.length then
    some ⟨⟨play.line + 1, h⟩, 1, play.tableRepeat⟩
  else if Reached repeats play.tableRepeat then none
  else some ⟨⟨0, Nat.zero_lt_of_lt play.line.isLt⟩, 1, play.tableRepeat + 1⟩

/-- The clocks of phase 1, and of phase 2, at a prescaled clock of `period` clocks. -/
def clocks1 (play : Play table) (period : Nat) : Nat := play.frame.time1.toNat * period

def clocks2 (play : Play table) (period : Nat) : Nat := max play.frame.time2.toNat 1 * period

end Play

/-- The play of a number, from zero. -/
def playAt (table : List SeqFrame) (repeats : Nat) : Nat → Option (Play table)
  | 0 => if h : 0 < table.length then some ⟨⟨0, h⟩, 1, 1⟩ else none
  | number + 1 => (playAt table repeats number).bind (Play.next? repeats)

/-- All plays of a table without a count of zero: the passes of the table, in each of them the lines
in their order, and the repeats of each line. -/
def plays (table : List SeqFrame) (repeats : Nat) : List (Play table) :=
  (List.range repeats).flatMap fun pass =>
    (List.finRange table.length).flatMap fun line =>
      (List.range (table.get line).repeats.toNat).map fun count => ⟨line, count + 1, pass + 1⟩

/-! ### The table in the ring -/

/-- The ports of a fixed table, with the number of its frames. -/
structure Fixed (table : List SeqFrame) (i : Input) : Prop where
  frames : (tableFrames i).toNat = table.length
  oneBuffer : i.oneBufferMode = true
  notStreaming : i.streamingMode = false
  noOverrun : i.overrunEvent = false

/-- The line after another one, over the end of the table. -/
def nextLine (line : Fin table.length) : Fin table.length :=
  ⟨(line + 1) % table.length, Nat.mod_lt _ (Nat.zero_lt_of_lt line.isLt)⟩

/-- The frame of a line is on show in the ring table. -/
structure NextIs (s : State) (line : Fin table.length) : Prop where
  frame : nextFrame s = table.get line
  last : nextFrameLast s = true → line + 1 = table.length

section Ring

variable (run : Clocked.Run step) (table : List SeqFrame)

/-- The ring table shows the frames of a table in turn, from the first one again after a reset. -/
structure Serves (place : Nat → Fin table.length) : Prop where
  start : (place 0 : Nat) = 0
  shows : ∀ clock, frameValid (run.state clock) = true → NextIs (run.state clock) (place clock)
  reset : ∀ clock, ringReset (run.state clock) (run.input clock) = true →
    (place (clock + 1) : Nat) = 0
  turns : ∀ clock, ringReset (run.state clock) (run.input clock) = false →
    place (clock + 1) =
      if loadNext (run.state clock) (run.input clock) && frameValid (run.state clock) then
        nextLine (place clock)
      else place clock

/-- A fixed table, whose frames the ring always has once the sequencer is ready. -/
structure Available : Prop where
  fixed : ∀ clock, Fixed table (run.input clock)
  serves : ∃ place, Serves run table place
  valid : ∀ clock, (run.state clock).seqSm ≠ .unready → frameValid (run.state clock) = true
  notResetting : ∀ clock, (run.state clock).seqSm ≠ .unready →
    (run.input clock).resetting = false

end Ring

/-- A frame is played. -/
def playing (s : State) : Bool := s.seqSm != .unready && s.seqSm != .waitEnable

/-- The outputs are low. -/
def Low (s : State) : Prop := s.outVal = 0 ∧ s.active = false

/-- Nothing is played, and no reset of the ring table is under way. -/
structure AtRest (s : State) : Prop where
  notPlaying : playing s = false
  low : Low s
  abortDma : s.abortDma = false
  wrappingModeReset : s.wrappingModeReset = false

/-- Every count of the table is more than zero. -/
def Counted (table : List SeqFrame) : Prop := ∀ frame ∈ table, frame.repeats ≠ 0

section Runs

variable (run : Clocked.Run step)

/-- The trigger condition of a frame holds at a clock, and at no clock before it that counts. -/
structure Triggers (frame : SeqFrame) (first trigger : Nat) : Prop where
  le : first ≤ trigger
  met : Met frame (run.input trigger)
  unmet : ∀ clock, first ≤ clock → clock < trigger → ¬ Met frame (run.input clock)

/-- The play of a number is next from a clock on: the first play from the clock of the rising
ENABLE, the others from the last clock of the play before. -/
inductive Begins (table : List SeqFrame) (rise : Nat) : Nat → Nat → Prop
  | first : Begins table rise 0 rise
  | next {number first trigger : Nat} {play : Play table} :
      Begins table rise number first →
      playAt table (run.input rise).repeats.toNat number = some play →
      Triggers run play.frame first trigger →
      Begins table rise (number + 1)
        (trigger + play.clocks1 (period (run.input rise)) + play.clocks2 (period (run.input rise)))

/-- ENABLE is high from a clock to another one, and the two registers stand still. -/
structure Held (rise clock : Nat) : Prop where
  enable : ∀ tick, rise ≤ tick → tick < clock → (run.input tick).enable = true
  prescale : ∀ tick, rise ≤ tick → tick < clock →
    (run.input tick).prescale = (run.input rise).prescale
  repeats : ∀ tick, rise ≤ tick → tick < clock →
    (run.input tick).repeats = (run.input rise).repeats

/-- The status names a play. -/
structure Names (s : State) (play : Play table) : Prop where
  active : s.active = true
  tableLine : tableLine s = BitVec.ofNat 32 (play.line + 1)
  lineRepeat : lineRepeat s = BitVec.ofNat 32 play.lineRepeat
  tableRepeat : tableRepeat s = BitVec.ofNat 32 play.tableRepeat

/-- The table is played from a rising ENABLE on, as long as ENABLE is high. -/
structure Plays (table : List SeqFrame) (rise : Nat) : Prop where
  /-- Before its trigger condition holds, a play leaves the outputs as they are. -/
  waits : ∀ number first play clock, Begins run table rise number first →
    playAt table (run.input rise).repeats.toNat number = some play → first < clock →
    Held run rise clock →
    (∀ tick, first ≤ tick → tick < clock → ¬ Met play.frame (run.input tick)) →
    Names (run.state clock) play ∧ (run.state clock).outVal = (run.state first).outVal
  phase1 : ∀ number first trigger play clock, Begins run table rise number first →
    playAt table (run.input rise).repeats.toNat number = some play →
    Triggers run play.frame first trigger → Held run rise clock → trigger < clock →
    clock ≤ trigger + play.clocks1 (period (run.input rise)) →
    Names (run.state clock) play ∧ (run.state clock).outVal = play.frame.out1
  phase2 : ∀ number first trigger play clock, Begins run table rise number first →
    playAt table (run.input rise).repeats.toNat number = some play →
    Triggers run play.frame first trigger → Held run rise clock →
    trigger + play.clocks1 (period (run.input rise)) < clock →
    clock ≤ trigger + play.clocks1 (period (run.input rise)) +
      play.clocks2 (period (run.input rise)) →
    Names (run.state clock) play ∧ (run.state clock).outVal = play.frame.out2
  ends : ∀ number first clock, Begins run table rise number first →
    playAt table (run.input rise).repeats.toNat number = none → first < clock →
    Held run rise clock → Low (run.state clock)

/-- A run plays a table with every rising ENABLE, and is low from the clock after a falling one. -/
structure PlaysTable (table : List SeqFrame) : Prop where
  /-- Without a count of zero the plays are those of the list. -/
  ordered : ∀ rise, Counted table → (run.input rise).repeats ≠ 0 → ∀ number,
    playAt table (run.input rise).repeats.toNat number =
      (plays table (run.input rise).repeats.toNat)[number]?
  replays : ∀ rise, enableRise (run.state rise) (run.input rise) = true →
    (run.state rise).seqSm ≠ .unready → Plays run table rise
  stops : ∀ fall clock, enableFall (run.state fall) (run.input fall) = true → fall < clock →
    (∀ tick, fall < tick → tick < clock → (run.input tick).enable = false) →
    Low (run.state clock)
  /-- A table that is kept in the ring stays ready. -/
  ready : table.length < seqFrames → ∀ clock, (run.state clock).seqSm ≠ .unready →
    (run.state (clock + 1)).seqSm ≠ .unready

/-- When ENABLE falls while a frame is played from a table that stays in the ring, it is low at the
next clock too. A table of one frame needs no such care. -/
def LowForTwo (table : List SeqFrame) : Prop :=
  1 < table.length → ∀ clock, enableFall (run.state clock) (run.input clock) = true →
    playing (run.state clock) = true → wrappingMode (run.state clock) (run.input clock) = true →
    (run.input (clock + 1)).enable = false

end Runs

end Fpga.Seq
