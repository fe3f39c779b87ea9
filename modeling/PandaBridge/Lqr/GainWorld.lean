import PandaBridge.Lqr.Publisher

/-! The gain port as a world for the publisher. One bus access takes one clock
of the PL, any number of clocks may pass between two of them, and a pass start
may fall on every clock. The log and the pass count record what happened and are
read by no part of the design. -/
namespace Lqr

open Concurrent

/-- What a gain port's log records, oldest first: the fill pointer was reset, a
commit was strobed, or the buffer swapped and this frame became active. -/
inductive GainEvent (n : Nat)
  | start
  | commit
  | swap (bank : Frame n)

def GainEvent.bank? {n : Nat} : GainEvent n → Option (Frame n)
  | .swap bank => some bank
  | _ => none

structure GainSystem (n : Nat) where
  port : GainPort
  log : List (GainEvent n)
  passes : Nat

/-- The undetermined inputs of one clock. -/
structure GainChoice where
  passStart : Bool
  init : Bool
  rdAddr : Nat

/-- The register strobe of one clock. -/
inductive Strobe
  | none
  | start
  | data (word : Word)
  | commit

namespace Strobe

def input (strobe : Strobe) (choice : GainChoice) : GainPort.Input where
  init := choice.init
  startWstb := strobe matches .start
  dataWstb := strobe matches .data _
  data := match strobe with
    | .data word => word
    | _ => 0
  commitWstb := strobe matches .commit
  passStart := choice.passStart
  rdAddr := choice.rdAddr

def events {n : Nat} : Strobe → List (GainEvent n)
  | .start => [.start]
  | .commit => [.commit]
  | _ => []

end Strobe

namespace GainPort

/-- The bank under fill once the write in flight has landed. -/
def landedBank (port : GainPort) : Nat → Word :=
  if port.fill.wrEn then
    Function.update (port.buffer.fillBank engineBuffers) port.fill.wrAddr port.fill.wrData
  else port.buffer.fillBank engineBuffers

end GainPort

namespace GainSystem

variable {n : Nat}

/-- One clock of the gain port with its record. -/
def clock (choice : GainChoice) (strobe : Strobe) (system : GainSystem n) : GainSystem n where
  port := system.port.step n (strobe.input choice)
  log := system.log ++
    (if system.port.buffer.swaps (system.port.bufferInput (strobe.input choice)) then
      [.swap fun i => (system.port.step n (strobe.input choice)).buffer.activeBank i]
    else []) ++ strobe.events
  passes := match strobe with
    | .commit => 0
    | _ => if choice.passStart then system.passes + 1 else system.passes

@[simp] theorem clock_port (choice : GainChoice) (strobe : Strobe) (system : GainSystem n) :
    (system.clock choice strobe).port = system.port.step n (strobe.input choice) := rfl

/-- The frames that became active, in order. -/
def swapped (system : GainSystem n) : List (Frame n) :=
  system.log.filterMap GainEvent.bank?

end GainSystem

/-- The strobe a bus write causes. -/
def Reg.strobe : Reg → Word → Strobe
  | .start, _ => .start
  | .data, word => .data word
  | .commit, _ => .commit
  | _, _ => .none

/-- The gain port serving the bus. The state window is not part of this world. -/
def gainWorld (n : Nat) : World (GainSystem n) GainChoice Access Access.Answer where
  idle choice system := system.clock choice .none
  serve
    | .read32 .gen, choice, system => (system.port.genReg, system.clock choice .none)
    | .read32 _, choice, system => (0, system.clock choice .none)
    | .write32 reg value, choice, system => ((), system.clock choice (reg.strobe value))
    | .word _, choice, system => (0, system.clock choice .none)
    | .writeWord _ _, choice, system => ((), system.clock choice .none)

namespace GainPort

variable (n : Nat) (port : GainPort) (input : Input)

/-- The buffer that was under fill holds, after the clock, its words with the
write in flight landed, whether or not the buffers swap. -/
theorem step_writeBuff_ram :
    ((port.step n input).buffer.stores (port.buffer.writeBuff engineBuffers)).ram =
      port.landedBank := by
  unfold landedBank
  split_ifs with hWrite
  · exact port.buffer.step_ram_writeBuff engineBuffers (port.bufferInput input) hWrite
  · exact port.buffer.step_ram_of_not_wrEn engineBuffers (port.bufferInput input)
      (by simpa [bufferInput] using hWrite) _

/-- A clock that does not swap: the write in flight lands, the tag and the
active bank stay, and a commit arms the buffer. -/
theorem step_keep (hInit : input.init = false)
    (hSwap : (input.passStart && port.buffer.pending) = false) :
    (port.step n input).buffer.pending = (input.commitWstb || port.buffer.pending) ∧
      (port.step n input).buffer.gen = port.buffer.gen ∧
      (port.step n input).buffer.activeBank = port.buffer.activeBank ∧
      (port.step n input).buffer.fillBank engineBuffers = port.landedBank := by
  obtain ⟨hActive, hNext, hGen⟩ :=
    port.buffer.step_keep engineBuffers (port.bufferInput input) hInit hSwap
  refine ⟨hNext, hGen, ?_, ?_⟩
  · have hBank := port.buffer.step_ram_of_ne_writeBuff engineBuffers (port.bufferInput input)
      (port.buffer.writeBuff_ne_activeBuf engineBuffers (le_refl 2))
    simpa only [step, BramBuffer.activeBank, hActive] using hBank
  · rw [← port.step_writeBuff_ram n input]
    simp only [step, BramBuffer.fillBank, BramBuffer.writeBuff, hActive]

/-- A strobed word lands at the fill pointer, unless the buffers swap. -/
theorem step_landedBank (hInit : input.init = false) (hStart : input.startWstb = false)
    (hSwap : (input.passStart && port.buffer.pending) = false) :
    (port.step n input).landedBank =
      if input.dataWstb then Function.update port.landedBank port.fill.cnt input.data
      else port.landedBank := by
  have hBank := (port.step_keep n input hInit hSwap).2.2.2
  have hFill : (port.step n input).fill =
      port.fill.step (ceilLog2 n) false false input.dataWstb input.data := by
    rw [step, hInit, hStart]
  rw [landedBank, hBank, hFill]
  cases input.dataWstb with
  | false => rfl
  | true => rfl

/-- A clock that swaps: the landed bank becomes the active one. -/
theorem step_swapping (hInit : input.init = false) (hPending : port.buffer.pending = true)
    (hPass : input.passStart = true) :
    (port.step n input).buffer.pending = false ∧
      (port.step n input).buffer.gen = port.buffer.gen + 1 ∧
      (port.step n input).buffer.activeBank = port.landedBank := by
  obtain ⟨hActive, hNext, hGen⟩ := port.buffer.step_swap engineBuffers (port.bufferInput input) hInit
    hPass hPending
  refine ⟨hNext, hGen, ?_⟩
  rw [← port.step_writeBuff_ram n input]
  simp only [step, BramBuffer.activeBank, hActive]

end GainPort

section Phases

variable {n : Nat}

/-- The log of frames that were each staged, committed and swapped in. -/
def gainHistory (frames : List (Frame n)) : List (GainEvent n) :=
  frames.flatMap fun frame => [.start, .commit, .swap frame]

theorem gainHistory_append (frames : List (Frame n)) (frame : Frame n) :
    gainHistory (frames ++ [frame]) = gainHistory frames ++ [.start, .commit, .swap frame] := by
  simp [gainHistory]

@[simp] theorem filterMap_gainHistory (frames : List (Frame n)) :
    (gainHistory frames).filterMap GainEvent.bank? = frames := by
  induction frames with
  | nil => rfl
  | cons frame rest ih => simpa [gainHistory, List.filterMap_cons, GainEvent.bank?] using ih

/-- Between two frames: nothing is armed, and everything accepted after `base`
was swapped in. -/
structure Settled (base : List (GainEvent n)) (accepted : List (Frame n)) (gen : Gen)
    (system : GainSystem n) : Prop where
  pending : system.port.buffer.pending = false
  gen_eq : system.port.buffer.gen = gen
  log : system.log = base ++ gainHistory accepted
  active : ∀ frame, accepted.getLast? = some frame →
    ∀ i : Fin n, system.port.buffer.activeBank i = frame i

/-- While `frame` is streamed: its first `k` words have been strobed. -/
structure Filling (base : List (GainEvent n)) (accepted : List (Frame n)) (gen : Gen)
    (frame : Frame n) (k : Nat) (system : GainSystem n) : Prop where
  pending : system.port.buffer.pending = false
  gen_eq : system.port.buffer.gen = gen
  log : system.log = base ++ gainHistory accepted ++ [.start]
  active : ∀ frame, accepted.getLast? = some frame →
    ∀ i : Fin n, system.port.buffer.activeBank i = frame i
  cnt : system.port.fill.cnt = k % 2 ^ ceilLog2 n
  bank : ∀ i : Fin n, i.val < k → system.port.landedBank i = frame i

/-- `frame` is complete in the inactive bank and its swap is armed. -/
structure Armed (base : List (GainEvent n)) (accepted : List (Frame n)) (gen : Gen)
    (frame : Frame n) (system : GainSystem n) : Prop where
  pending : system.port.buffer.pending = true
  gen_eq : system.port.buffer.gen = gen
  log : system.log = base ++ gainHistory accepted ++ [.start, .commit]
  wrEn : system.port.fill.wrEn = false
  bank : ∀ i : Fin n, system.port.buffer.fillBank engineBuffers i = frame i
  passes : system.passes = 0

variable {base : List (GainEvent n)} {accepted : List (Frame n)} {gen : Gen}
  {frame : Frame n} {k : Nat} {system : GainSystem n} {choice : GainChoice}

private theorem clock_keep (strobe : Strobe) (hInit : choice.init = false)
    (hPending : system.port.buffer.pending = false) :
    (system.clock choice strobe).port.buffer.pending = (strobe.input choice).commitWstb ∧
      (system.clock choice strobe).port.buffer.gen = system.port.buffer.gen ∧
      (system.clock choice strobe).port.buffer.activeBank = system.port.buffer.activeBank ∧
      (system.clock choice strobe).port.buffer.fillBank engineBuffers = system.port.landedBank ∧
      (system.clock choice strobe).log = system.log ++ strobe.events := by
  obtain ⟨hNext, hGen, hActive, hBank⟩ :=
    system.port.step_keep n (strobe.input choice) hInit (by simp [hPending])
  refine ⟨by simpa [hPending] using hNext, hGen, hActive, hBank, ?_⟩
  simp [GainSystem.clock, BramBuffer.swaps, hPending]

theorem Settled.idle (h : Settled base accepted gen system) (hInit : choice.init = false) :
    Settled base accepted gen (system.clock choice .none) := by
  obtain ⟨hPending, hGen, hActive, _, hLog⟩ := clock_keep .none hInit h.pending
  refine ⟨hPending, hGen.trans h.gen_eq, by simpa [Strobe.events, h.log] using hLog, ?_⟩
  rw [hActive]
  exact h.active

theorem Settled.start (h : Settled base accepted gen system) (hInit : choice.init = false) :
    Filling base accepted gen frame 0 (system.clock choice .start) := by
  obtain ⟨hPending, hGen, hActive, _, hLog⟩ := clock_keep .start hInit h.pending
  refine ⟨hPending, hGen.trans h.gen_eq, by simpa [Strobe.events, h.log] using hLog, ?_, ?_, ?_⟩
  · rw [hActive]
    exact h.active
  · simp [GainSystem.clock, GainPort.step, GainFill.step, Strobe.input]
  · intro i hi
    omega

theorem Filling.idle (h : Filling base accepted gen frame k system) (hInit : choice.init = false) :
    Filling base accepted gen frame k (system.clock choice .none) := by
  obtain ⟨hPending, hGen, hActive, hBank, hLog⟩ := clock_keep .none hInit h.pending
  have hFill : (system.clock choice .none).port.fill = { system.port.fill with wrEn := false } := by
    simp [GainSystem.clock, GainPort.step, GainFill.step, Strobe.input, hInit]
  refine ⟨hPending, hGen.trans h.gen_eq, by simpa [Strobe.events, h.log] using hLog, ?_, ?_, ?_⟩
  · rw [hActive]
    exact h.active
  · rw [hFill]
    exact h.cnt
  · intro i hi
    rw [GainPort.landedBank, hFill, hBank]
    exact h.bank i hi

/-- Word `k` goes to address `k`, and the words before it stay. -/
theorem Filling.data (h : Filling base accepted gen frame k system) (hInit : choice.init = false)
    (hk : k < n) :
    Filling base accepted gen frame (k + 1) (system.clock choice (.data (frame ⟨k, hk⟩))) := by
  obtain ⟨hPending, hGen, hActive, hBank, hLog⟩ :=
    clock_keep (.data (frame ⟨k, hk⟩)) hInit h.pending
  have hAddr : system.port.fill.cnt = k := by
    rw [h.cnt, Nat.mod_eq_of_lt (lt_of_lt_of_le hk (le_two_pow_ceilLog2 n))]
  have hFill : (system.clock choice (.data (frame ⟨k, hk⟩))).port.fill =
      { cnt := (k + 1) % 2 ^ ceilLog2 n, wrAddr := k, wrData := frame ⟨k, hk⟩, wrEn := true } := by
    simp [GainSystem.clock, GainPort.step, GainFill.step, Strobe.input, hInit, hAddr]
  refine ⟨hPending, hGen.trans h.gen_eq, by simpa [Strobe.events, h.log] using hLog, ?_, ?_, ?_⟩
  · rw [hActive]
    exact h.active
  · rw [hFill]
  · intro i hi
    rw [GainPort.landedBank, hFill, if_pos rfl, hBank]
    rcases Nat.lt_succ_iff_lt_or_eq.mp hi with hOld | hNew
    · rw [Function.update_of_ne (show i.val ≠ k by omega)]
      exact h.bank i hOld
    · subst hNew
      simp

/-- The commit strobe after the last word arms a complete bank. -/
theorem Filling.commit (h : Filling base accepted gen frame n system)
    (hInit : choice.init = false) :
    Armed base accepted gen frame (system.clock choice .commit) := by
  obtain ⟨hPending, hGen, _, hBank, hLog⟩ := clock_keep .commit hInit h.pending
  refine ⟨hPending, hGen.trans h.gen_eq, by simpa [Strobe.events, h.log] using hLog, ?_, ?_, rfl⟩
  · simp [GainSystem.clock, GainPort.step, GainFill.step, Strobe.input, hInit]
  · intro i
    rw [hBank]
    exact h.bank i i.isLt

/-- An armed bank waits unchanged until a pass start makes it the active one. -/
theorem Armed.idle (h : Armed base accepted gen frame system) (hInit : choice.init = false) :
    (choice.passStart = false ∧ Armed base accepted gen frame (system.clock choice .none)) ∨
      (choice.passStart = true ∧
        Settled base (accepted ++ [frame]) (gen + 1) (system.clock choice .none)) := by
  have hLanded : system.port.landedBank = system.port.buffer.fillBank engineBuffers := by
    simp [GainPort.landedBank, h.wrEn]
  have hFill : (system.clock choice .none).port.fill = { system.port.fill with wrEn := false } := by
    simp [GainSystem.clock, GainPort.step, GainFill.step, Strobe.input, hInit]
  cases hPass : choice.passStart with
  | false =>
      obtain ⟨hPending, hGen, _, hBank⟩ :=
        system.port.step_keep n (Strobe.none.input choice) hInit (by simp [Strobe.input, hPass])
      refine Or.inl ⟨rfl, by simpa [h.pending] using hPending, hGen.trans h.gen_eq, ?_, ?_, ?_, ?_⟩
      · simp [GainSystem.clock, BramBuffer.swaps, GainPort.bufferInput, Strobe.input, hPass,
          Strobe.events, h.log]
      · rw [hFill]
      · intro i
        exact (congrFun (hBank.trans hLanded) i).trans (h.bank i)
      · simp [GainSystem.clock, hPass, h.passes]
  | true =>
      obtain ⟨hPending, hGen, hActive⟩ :=
        system.port.step_swapping n (Strobe.none.input choice) hInit h.pending hPass
      have hNew : ∀ i : Fin n, (system.port.step n (Strobe.none.input choice)).buffer.activeBank i =
          frame i := fun i => (congrFun (hActive.trans hLanded) i).trans (h.bank i)
      refine Or.inr ⟨rfl, hPending, by rw [← h.gen_eq]; exact hGen, ?_, ?_⟩
      · have hFrame : (fun i : Fin n =>
            (system.port.step n (Strobe.none.input choice)).buffer.activeBank i) = frame :=
          funext hNew
        have hSwaps : system.port.buffer.swaps
            (system.port.bufferInput (Strobe.none.input choice)) = true := by
          simp [BramBuffer.swaps, GainPort.bufferInput, Strobe.input, hPass, hInit, h.pending]
        simp [GainSystem.clock, hSwaps, hFrame, h.log, gainHistory_append, Strobe.events]
      · intro last hLast
        obtain rfl : frame = last := by simpa using hLast
        exact hNew

end Phases

end Lqr
