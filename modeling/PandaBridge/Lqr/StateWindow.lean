import PandaBridge.Concurrent.Logic
import PandaBridge.Lqr.ExportFraming
import PandaBridge.Lqr.Publisher

/-! The shared window: the exporter on its bus, the beats that travel to memory,
and the words the bridge loads and stores. A beat lands after its burst's
address was accepted, in the order of acceptance, or is lost on the way. The
counters record what has landed and are read by no part of the design. -/
namespace Lqr

open Concurrent StateAbiPackage

/-- The window with its record: `version` is the sequence number last landed and
`stamped` the number of the export whose stamp landed last; `completed` counts
the closing sequence words that landed or were lost. `masked` and `clobbered`
say that the bridge has overwritten the sequence word or the stamp since. -/
structure WindowSystem (cfg : ExportConfig) where
  bus : ExportBus cfg
  landed : Nat
  lost : Bool
  mem : Memory
  version : Nat
  stamped : Nat
  completed : Nat
  masked : Bool
  clobbered : Bool

/-- What may happen by itself: a clock of the PL, or the next accepted beat
reaches memory or is lost. -/
inductive WindowStep (axes : Nat)
  | clock (input : ExportInput axes)
  | land (lost : Bool)

/-- One undetermined step, and the answer of a register that is not part of the
window. -/
structure WindowChoice (axes : Nat) where
  step : WindowStep axes
  answer : Word

namespace WindowSystem

variable {cfg : ExportConfig}

/-- A window that the exporter has not written yet. -/
def powerUp (latched : Snapshot cfg.axes) (mem : Memory) : WindowSystem cfg where
  bus := ExportBus.powerUp latched
  landed := 0
  lost := false
  mem := mem
  version := 0
  stamped := 0
  completed := 0
  masked := true
  clobbered := true

def clock (input : ExportInput cfg.axes) (system : WindowSystem cfg) : WindowSystem cfg :=
  { system with
    bus := system.bus.clock input
    landed := if input.bvalid then 0 else system.landed
    lost := if input.bvalid then false else system.lost }

/-- The accepted beat that lands next, with its address. -/
def nextBeat (system : WindowSystem cfg) : Option (Nat × BitVec 64) :=
  match system.bus.current.aw.head?, system.bus.current.w[system.landed]? with
  | some (addr, _), some (data, _) => some (addr + beatBytes * system.landed, data)
  | _, _ => none

/-- The next beat carries the opening, the stamp or the closing word. -/
def opens (system : WindowSystem cfg) : Bool :=
  system.bus.device.state == .wrSeqOdd && system.landed == 0

def stamps (system : WindowSystem cfg) : Bool :=
  system.bus.device.state == .wrPayload && system.bus.device.payPtr + system.landed == 0

def closes (system : WindowSystem cfg) : Bool :=
  system.bus.device.state == .wrSeqEven && system.landed == 0

def land (lost : Bool) (system : WindowSystem cfg) : WindowSystem cfg :=
  match system.nextBeat with
  | none => system
  | some (addr, data) =>
      { system with
        landed := system.landed + 1
        lost := system.lost || lost
        mem := if lost then system.mem else system.mem.writeBeat addr data
        version :=
          if lost then system.version
          else if system.opens then 2 * system.bus.frozen.length - 1
          else if system.closes then 2 * system.bus.frozen.length
          else system.version
        stamped := if !lost && system.stamps then system.bus.frozen.length else system.stamped
        completed := if system.closes then system.completed + 1 else system.completed
        masked := if !lost && (system.opens || system.closes) then false else system.masked
        clobbered := if !lost && system.stamps then false else system.clobbered }

def step : WindowStep cfg.axes → WindowSystem cfg → WindowSystem cfg
  | .clock input => clock input
  | .land lost => land lost

/-- A store of the bridge. -/
def poke (index : Nat) (value : Word) (system : WindowSystem cfg) : WindowSystem cfg :=
  { system with
    mem := Function.update system.mem (cfg.baseAddr + StateAbi.wordBytes * index) value
    masked := system.masked || index == StateAbi.seqWord
    clobbered := system.clobbered || index == StateAbi.stampWord }

def word (system : WindowSystem cfg) (index : Nat) : Word := system.mem.window cfg.baseAddr index

/-- The slave answers a burst when every beat of it has landed or was lost, and
reports the loss. There is no reset. -/
def Fair (system : WindowSystem cfg) : WindowStep cfg.axes → Prop
  | .clock input => system.bus.Fair input ∧ (input.bvalid = true →
      system.landed = system.bus.current.w.length ∧ (system.lost = true → input.bresp ≠ 0))
  | .land _ => True

/-- The next beat carries no word that a reader decodes, or only the closing
sequence word. -/
def spare (system : WindowSystem cfg) : Bool :=
  match system.bus.device.state with
  | .idle | .wrSeqEven => true
  | .wrSeqOdd => system.landed != 0
  | .wrPayload => decide (2 * cfg.axes < system.bus.device.payPtr + system.landed)

instance (system : WindowSystem cfg) : (step : WindowStep cfg.axes) → Decidable (system.Fair step)
  | .clock _ => inferInstanceAs (Decidable (_ ∧ (_ → _ ∧ (_ → _))))
  | .land _ => inferInstanceAs (Decidable True)

/-- A loss is harmless in this step. -/
def Harmless (system : WindowSystem cfg) (step : WindowStep cfg.axes) : Prop :=
  (step matches .land true) = true → system.spare = true

instance (system : WindowSystem cfg) (step : WindowStep cfg.axes) :
    Decidable (system.Harmless step) := inferInstanceAs (Decidable (_ → _))

/-- The window by itself, without an access. -/
def run : List (WindowStep cfg.axes) → WindowSystem cfg → WindowSystem cfg
  | [], system => system
  | step :: rest, system => run rest (system.step step)

/-- Every step is fair and follows `rule` in the state it is taken from. -/
def FairRun (rule : WindowSystem cfg → WindowStep cfg.axes → Prop) :
    List (WindowStep cfg.axes) → WindowSystem cfg → Prop
  | [], _ => True
  | step :: rest, system =>
      (system.Fair step ∧ rule system step) ∧ FairRun rule rest (system.step step)

instance FairRun.decidable (rule : WindowSystem cfg → WindowStep cfg.axes → Prop)
    [∀ system step, Decidable (rule system step)] :
    (steps : List (WindowStep cfg.axes)) → (system : WindowSystem cfg) →
      Decidable (FairRun rule steps system)
  | [], _ => isTrue trivial
  | step :: rest, system =>
      have := FairRun.decidable rule rest (system.step step)
      inferInstanceAs (Decidable ((_ ∧ _) ∧ _))

end WindowSystem

/-- The window serving the bridge. Registers are not part of this world. -/
def windowWorld (cfg : ExportConfig) :
    World (WindowSystem cfg) (WindowChoice cfg.axes) Access Access.Answer where
  idle choice system := system.step choice.step
  serve
    | .word index, _, system => (system.word index, system)
    | .writeWord index value, _, system => ((), system.poke index value)
    | .read32 _, choice, system => (choice.answer, system)
    | .write32 _ _, _, system => ((), system)

section Phases

variable {cfg : ExportConfig}

/-- The window presents the last of `frozen`, or nothing yet. The closing word of
that export may have been lost. -/
structure Shown (frozen : List (Export cfg.axes)) (system : WindowSystem cfg) : Prop where
  completed : system.completed = frozen.length
  stamped : system.stamped = frozen.length
  version_le : system.version ≤ 2 * frozen.length
  le_version : 2 * frozen.length ≤ system.version + 1
  beats : ∀ sent, frozen.getLast? = some sent → ∀ g, 0 < g → g ≤ 2 * cfg.axes →
    HoldsBeat cfg system.mem sent g

/-- The window is open: the first `count` payload beats of `sent` have landed. -/
structure Opened (earlier : List (Export cfg.axes)) (sent : Export cfg.axes) (count : Nat)
    (system : WindowSystem cfg) : Prop where
  completed : system.completed = earlier.length
  stamped : system.stamped = if count = 0 then earlier.length else earlier.length + 1
  version : system.version = 2 * earlier.length + 1
  beats : ∀ g, 0 < g → g < count → g ≤ 2 * cfg.axes → HoldsBeat cfg system.mem sent g

/-- Where the exporter is, with what the window holds there. -/
inductive WindowPhase (system : WindowSystem cfg) : Prop
  | resting {frozen : List (Export cfg.axes)} (bus : Resting frozen system.bus)
      (landed : system.landed = 0) (shown : Shown frozen system)
  | opening {earlier : List (Export cfg.axes)} {sent : Export cfg.axes}
      (bus : Opening earlier sent system.bus) (landed : system.landed = 0)
      (shown : Shown earlier system)
  | opened {earlier : List (Export cfg.axes)} {sent : Export cfg.axes}
      (bus : Opening earlier sent system.bus) (landed : 0 < system.landed)
      (window : Opened earlier sent 0 system)
  | paying {earlier : List (Export cfg.axes)} {sent : Export cfg.axes} {k : Nat}
      (bus : Paying earlier sent k system.bus)
      (window : Opened earlier sent (k * cfg.chunk + system.landed) system)
  | closing {earlier : List (Export cfg.axes)} {sent : Export cfg.axes}
      (bus : Closing earlier sent system.bus) (landed : system.landed = 0)
      (window : Opened earlier sent cfg.payBeats system)
  | closed {earlier : List (Export cfg.axes)} {sent : Export cfg.axes}
      (bus : Closing earlier sent system.bus) (landed : 0 < system.landed)
      (shown : Shown (earlier ++ [sent]) system)

/-- The invariant of the window. A masked sequence word is odd, so that no reader
takes it for a snapshot. -/
structure WindowInv (system : WindowSystem cfg) : Prop where
  phase : WindowPhase system
  masked : system.masked = true → (system.word StateAbi.seqWord).getLsbD 0 = true
  unmasked : system.masked = false →
    0 < system.version ∧ system.word StateAbi.seqWord = BitVec.ofNat 32 system.version
  stamp : system.clobbered = false →
    system.word StateAbi.stampWord = BitVec.ofNat 32 system.stamped

/-- The record only grows. -/
structure WindowLe (before after : WindowSystem cfg) : Prop where
  version : before.version ≤ after.version
  stamped : before.stamped ≤ after.stamped
  completed : before.completed ≤ after.completed
  frozen : before.bus.frozen <+: after.bus.frozen

variable {system : WindowSystem cfg} {frozen earlier : List (Export cfg.axes)}
  {sent : Export cfg.axes} {input : ExportInput cfg.axes}

theorem Shown.clock (h : Shown frozen system) : Shown frozen (system.clock input) :=
  ⟨h.completed, h.stamped, h.version_le, h.le_version, h.beats⟩

theorem Opened.clock {count : Nat} (h : Opened earlier sent count system) :
    Opened earlier sent count (system.clock input) :=
  ⟨h.completed, h.stamped, h.version, h.beats⟩

private theorem landed_eq_burstBeats (hBurst : InBurst system.bus)
    (hFair : system.Fair (.clock input)) (hResponse : input.bvalid = true) :
    system.landed = system.bus.device.burstBeats cfg := by
  have hComplete := (hBurst.complete (hFair.1.2 hResponse)).2.2.2.2
  rw [(hFair.2 hResponse).1, hComplete]
  simp [framedBurst]

private theorem WindowPhase.clock (h : WindowPhase system) (hFair : system.Fair (.clock input)) :
    WindowPhase (system.clock input) := by
  have hKeep : input.bvalid = false → (system.clock input).landed = system.landed := by
    intro hWait
    simp [WindowSystem.clock, hWait]
  have hRestart : input.bvalid = true → (system.clock input).landed = 0 := by
    intro hResponse
    simp [WindowSystem.clock, hResponse]
  cases h with
  | resting hBus hLanded hShown =>
      have hZero : (system.clock input).landed = 0 := by
        cases hResponse : input.bvalid with
        | false => rw [hKeep hResponse, hLanded]
        | true => exact hRestart hResponse
      rcases hBus.clock hFair.1 with hRest | ⟨_, hOpen⟩
      · exact .resting hRest hZero hShown.clock
      · exact .opening hOpen hZero hShown.clock
  | opening hBus hLanded hShown =>
      rcases hBus.clock hFair.1 with ⟨hWait, hOpen⟩ | ⟨hResponse, _⟩
      · exact .opening hOpen (by rw [hKeep hWait, hLanded]) hShown.clock
      · have hAll := landed_eq_burstBeats hBus.inBurst hFair hResponse
        rw [hLanded, (framedBurst_seq hBus (.inl rfl)).1] at hAll
        exact absurd hAll (by decide)
  | opened hBus hLanded hWindow =>
      rcases hBus.clock hFair.1 with ⟨hWait, hOpen⟩ | ⟨hResponse, hPay⟩
      · exact .opened hOpen (by rw [hKeep hWait]; exact hLanded) hWindow.clock
      · refine .paying hPay ?_
        rw [hRestart hResponse, Nat.zero_mul]
        exact hWindow.clock
  | @paying earlier sent k hBus hWindow =>
      rcases hBus.clock hFair.1 with ⟨hWait, hPay⟩ | ⟨hResponse, hNext⟩
      · refine .paying hPay ?_
        rw [hKeep hWait]
        exact hWindow.clock
      · have hAll := landed_eq_burstBeats hBus.2.inBurst hFair hResponse
        rw [(framedBurst_payload hBus.2).1] at hAll
        rw [hAll] at hWindow
        rcases hNext with hPay | ⟨hLast, hClose⟩
        · refine .paying hPay ?_
          have hFull : k * cfg.chunk + cfg.chunkBeats (k * cfg.chunk) = (k + 1) * cfg.chunk + 0 := by
            have hMore := hPay.1
            rw [Nat.succ_mul] at hMore ⊢
            rw [ExportConfig.chunkBeats]
            split_ifs <;> omega
          rw [hRestart hResponse, ← hFull]
          exact hWindow.clock
        · refine .closing hClose (hRestart hResponse) ?_
          have hEnd : k * cfg.chunk + cfg.chunkBeats (k * cfg.chunk) = cfg.payBeats := by
            have hPtr := hBus.1
            rw [ExportConfig.chunkBeats] at hLast ⊢
            split_ifs at hLast ⊢ <;> omega
          rw [← hEnd]
          exact hWindow.clock
  | closing hBus hLanded hWindow =>
      rcases hBus.clock hFair.1 with ⟨hWait, hClose⟩ | ⟨hResponse, _⟩
      · exact .closing hClose (by rw [hKeep hWait, hLanded]) hWindow.clock
      · obtain ⟨ptr, hBus⟩ := hBus
        have hAll := landed_eq_burstBeats hBus.inBurst hFair hResponse
        rw [hLanded, (framedBurst_seq hBus (.inr rfl)).1] at hAll
        exact absurd hAll (by decide)
  | closed hBus hLanded hShown =>
      rcases hBus.clock hFair.1 with ⟨hWait, hClose⟩ | ⟨hResponse, hRest⟩
      · exact .closed hClose (by rw [hKeep hWait]; exact hLanded) hShown.clock
      · exact .resting hRest (hRestart hResponse) hShown.clock

theorem WindowInv.clock (h : WindowInv system) (hFair : system.Fair (.clock input)) :
    WindowInv (system.clock input) :=
  ⟨h.phase.clock hFair, h.masked, h.unmasked, h.stamp⟩

section Beats

variable {mem : Memory} {data : BitVec 64} {g j : Nat}

theorem HoldsBeat.writeSeq (h : HoldsBeat cfg mem sent g) (hLine : j < seqBeats) :
    HoldsBeat cfg (mem.writeBeat (cfg.baseAddr + beatBytes * j) data) sent g := by
  simp only [HoldsBeat, payloadOff, lineBytes, beatBytes, seqBeats, beatsPerLine] at *
  rw [Memory.writeBeat_of_ne, Memory.writeBeat_of_ne]
  · exact h
  all_goals omega

theorem HoldsBeat.writePayload (h : HoldsBeat cfg mem sent g) (hOther : g ≠ j) :
    HoldsBeat cfg (mem.writeBeat (cfg.baseAddr + (payloadOff + beatBytes * j)) data) sent g := by
  simp only [HoldsBeat, payloadOff, lineBytes, beatBytes] at *
  rw [Memory.writeBeat_of_ne, Memory.writeBeat_of_ne]
  · exact h
  all_goals omega

theorem holdsBeat_writeBeat (mem : Memory) (sent : Export cfg.axes) (g : Nat) :
    HoldsBeat cfg (mem.writeBeat (cfg.baseAddr + (payloadOff + beatBytes * g)) (sent.beat g))
      sent g :=
  ⟨Memory.writeBeat_low .., Memory.writeBeat_high ..⟩

theorem window_writeSeq_stamp (hLine : j < seqBeats) :
    (mem.writeBeat (cfg.baseAddr + beatBytes * j) data).window cfg.baseAddr StateAbi.stampWord =
      mem.window cfg.baseAddr StateAbi.stampWord := by
  have hStamp : StateAbi.wordBytes * StateAbi.stampWord = 32 := rfl
  simp only [Memory.window, hStamp, beatBytes, seqBeats, beatsPerLine, lineBytes] at *
  rw [Memory.writeBeat_of_ne]
  all_goals omega

theorem window_writeSeq_pad (hPad : 0 < j) :
    (mem.writeBeat (cfg.baseAddr + beatBytes * j) data).window cfg.baseAddr StateAbi.seqWord =
      mem.window cfg.baseAddr StateAbi.seqWord := by
  have hSeq : StateAbi.wordBytes * StateAbi.seqWord = 0 := rfl
  simp only [Memory.window, hSeq, beatBytes] at *
  rw [Memory.writeBeat_of_ne]
  all_goals omega

theorem window_writeSeq_seq (mem : Memory) (seq : Word) :
    (mem.writeBeat (cfg.baseAddr + beatBytes * 0) (seqBeat seq 0)).window cfg.baseAddr
      StateAbi.seqWord = seq := by
  have hSeq : StateAbi.wordBytes * StateAbi.seqWord = 0 := rfl
  rw [Memory.window, hSeq, Nat.mul_zero, Memory.writeBeat_low, seqBeat, if_pos rfl]
  exact BitVec.extractLsb'_append_eq_right

theorem window_writePayload_seq :
    (mem.writeBeat (cfg.baseAddr + (payloadOff + beatBytes * j)) data).window cfg.baseAddr
      StateAbi.seqWord = mem.window cfg.baseAddr StateAbi.seqWord := by
  have hSeq : StateAbi.wordBytes * StateAbi.seqWord = 0 := rfl
  simp only [Memory.window, hSeq, payloadOff, lineBytes, beatBytes]
  rw [Memory.writeBeat_of_ne]
  all_goals omega

theorem window_writePayload_stamp (hOther : 0 < j) :
    (mem.writeBeat (cfg.baseAddr + (payloadOff + beatBytes * j)) data).window cfg.baseAddr
      StateAbi.stampWord = mem.window cfg.baseAddr StateAbi.stampWord := by
  have hStamp : StateAbi.wordBytes * StateAbi.stampWord = 32 := rfl
  simp only [Memory.window, hStamp, payloadOff, lineBytes, beatBytes]
  rw [Memory.writeBeat_of_ne]
  all_goals omega

end Beats

theorem nextBeat_eq_some {addr : Nat} {data : BitVec 64} (hBurst : InBurst system.bus)
    (hNext : system.nextBeat = some (addr, data)) :
    addr = system.bus.device.mstAddr cfg + beatBytes * system.landed ∧
      data = system.bus.device.beatData system.landed ∧
      system.landed < system.bus.device.burstBeats cfg := by
  obtain ⟨⟨restAw, hAw⟩, ⟨restW, hW⟩⟩ := hBurst.prefix_framedBurst
  unfold WindowSystem.nextBeat at hNext
  cases hHead : system.bus.current.aw.head? with
  | none => simp [hHead] at hNext
  | some first =>
      cases hBeat : system.bus.current.w[system.landed]? with
      | none => simp [hHead, hBeat] at hNext
      | some beat =>
          simp only [hHead, hBeat, Option.some.injEq, Prod.mk.injEq] at hNext
          obtain ⟨rfl, rfl⟩ := hNext
          have hFirst : first.1 = system.bus.device.mstAddr cfg := by
            have hAddr := congrArg List.head? hAw
            rw [List.head?_append, hHead] at hAddr
            simp only [Option.some_or, framedBurst, List.head?_cons, Option.some.injEq] at hAddr
            rw [hAddr]
          have hData := congrArg (fun beats => beats[system.landed]?) hW
          simp only [List.getElem?_append_left (List.getElem?_eq_some_iff.mp hBeat).1, hBeat,
            framedBurst, List.getElem?_map] at hData
          obtain ⟨index, hIndex, hSame⟩ := Option.map_eq_some_iff.mp hData.symm
          obtain ⟨hLess, hEq⟩ := List.getElem?_eq_some_iff.mp hIndex
          rw [List.getElem_range] at hEq
          rw [List.length_range] at hLess
          refine ⟨by rw [hFirst], ?_, hLess⟩
          rw [← hSame, hEq]

section Landing

variable {addr : Nat} {data : BitVec 64} {lost : Bool} {state : ExportState} {seq ptr k : Nat}
  {behind : List Burst}

theorem nextBeat_seq (hBus : Sending earlier sent state seq ptr behind system.bus)
    (hSeq : state = .wrSeqOdd ∨ state = .wrSeqEven)
    (hNext : system.nextBeat = some (addr, data)) :
    addr = cfg.baseAddr + beatBytes * system.landed ∧
      data = seqBeat (BitVec.ofNat 32 seq) system.landed ∧ system.landed < seqBeats := by
  obtain ⟨hAddr, hData, hLess⟩ := nextBeat_eq_some hBus.inBurst hNext
  rw [(framedBurst_seq hBus hSeq).1] at hLess
  rw [hAddr, hData, ← hBus.seq_eq]
  rcases hSeq with rfl | rfl
  · exact ⟨by simp [StateExport.mstAddr, hBus.state_eq],
      by simp [StateExport.beatData, hBus.state_eq], hLess⟩
  · exact ⟨by simp [StateExport.mstAddr, hBus.state_eq],
      by simp [StateExport.beatData, hBus.state_eq], hLess⟩

theorem nextBeat_payload (hBus : Paying earlier sent k system.bus)
    (hNext : system.nextBeat = some (addr, data)) :
    addr = cfg.baseAddr + (payloadOff + beatBytes * (k * cfg.chunk + system.landed)) ∧
      data = sent.beat (k * cfg.chunk + system.landed) := by
  obtain ⟨hAddr, hData, _⟩ := nextBeat_eq_some hBus.2.inBurst hNext
  rw [hAddr, hData, hBus.2.sent_eq]
  refine ⟨?_, by simp [StateExport.beatData, hBus.2.state_eq, hBus.2.payPtr]⟩
  simp only [StateExport.mstAddr, hBus.2.state_eq, hBus.2.payPtr, beatBytes]
  omega

private theorem land_opening (h : WindowInv system) (hBus : Opening earlier sent system.bus)
    (hLanded : system.landed = 0) (hShown : Shown earlier system)
    (hHarmless : system.Harmless (.land lost)) (hNext : system.nextBeat = some (addr, data)) :
    WindowInv (system.land lost) ∧ WindowLe system (system.land lost) := by
  obtain ⟨rfl, rfl, _⟩ := nextBeat_seq hBus (.inl rfl) hNext
  have hKept : lost = false := by
    by_contra hLost
    have hSpare := hHarmless (by simp [hLost])
    simp [WindowSystem.spare, hBus.state_eq, hLanded] at hSpare
  subst hKept
  have hFrozen : system.bus.frozen.length = earlier.length + 1 := by simp [hBus.frozen]
  have hLand : system.land false = { system with
      landed := 1
      mem := system.mem.writeBeat (cfg.baseAddr + beatBytes * 0)
        (seqBeat (BitVec.ofNat 32 (2 * earlier.length + 1)) 0)
      version := 2 * earlier.length + 1
      masked := false } := by
    simp [WindowSystem.land, hNext, WindowSystem.opens, WindowSystem.closes, WindowSystem.stamps,
      hBus.state_eq, hLanded, hFrozen, Nat.mul_add]
  rw [hLand]
  refine ⟨⟨.opened hBus Nat.one_pos ⟨hShown.completed, hShown.stamped, rfl, ?_⟩, ?_, ?_, ?_⟩,
    ⟨?_, le_refl _, le_refl _, List.prefix_refl _⟩⟩
  · intro g _ hg
    omega
  · intro hMasked
    exact absurd hMasked Bool.false_ne_true
  · intro _
    exact ⟨Nat.succ_pos _, window_writeSeq_seq _ _⟩
  · intro hClobbered
    exact (window_writeSeq_stamp (by decide)).trans (h.stamp hClobbered)
  · have := hShown.version_le
    show system.version ≤ 2 * earlier.length + 1
    omega

private theorem land_pad (hBus : Sending earlier sent state seq ptr behind system.bus)
    (hSeq : state = .wrSeqOdd ∨ state = .wrSeqEven) (hLanded : 0 < system.landed)
    (hNext : system.nextBeat = some (addr, data)) :
    ∃ mem, system.land lost = { system with
        landed := system.landed + 1, lost := system.lost || lost, mem := mem } ∧
      mem.window cfg.baseAddr StateAbi.seqWord = system.word StateAbi.seqWord ∧
      mem.window cfg.baseAddr StateAbi.stampWord = system.word StateAbi.stampWord ∧
      ∀ sent g, HoldsBeat cfg system.mem sent g → HoldsBeat cfg mem sent g := by
  obtain ⟨rfl, rfl, hLine⟩ := nextBeat_seq hBus hSeq hNext
  have hOpens : system.opens = false := by
    simp [WindowSystem.opens, Nat.ne_of_gt hLanded]
  have hCloses : system.closes = false := by
    simp [WindowSystem.closes, Nat.ne_of_gt hLanded]
  have hStamps : system.stamps = false := by
    rcases hSeq with rfl | rfl <;> simp [WindowSystem.stamps, hBus.state_eq]
  cases lost with
  | true =>
      refine ⟨system.mem, ?_, rfl, rfl, fun _ _ h => h⟩
      simp only [WindowSystem.land, hNext, hCloses]
      rfl
  | false =>
      refine ⟨system.mem.writeBeat (cfg.baseAddr + beatBytes * system.landed)
        (seqBeat (BitVec.ofNat 32 seq) system.landed), ?_, window_writeSeq_pad hLanded,
        window_writeSeq_stamp hLine, fun _ _ h => h.writeSeq hLine⟩
      simp only [WindowSystem.land, hNext, hOpens, hCloses, hStamps]
      rfl

private theorem land_paying (h : WindowInv system) (hBus : Paying earlier sent k system.bus)
    (hWindow : Opened earlier sent (k * cfg.chunk + system.landed) system)
    (hHarmless : system.Harmless (.land lost)) (hNext : system.nextBeat = some (addr, data)) :
    WindowInv (system.land lost) ∧ WindowLe system (system.land lost) := by
  obtain ⟨rfl, rfl⟩ := nextBeat_payload hBus hNext
  have hOpens : system.opens = false := by simp [WindowSystem.opens, hBus.2.state_eq]
  have hCloses : system.closes = false := by simp [WindowSystem.closes, hBus.2.state_eq]
  have hStamps : system.stamps = (k * cfg.chunk + system.landed == 0) := by
    simp [WindowSystem.stamps, hBus.2.state_eq, hBus.2.payPtr]
  have hFrozen : system.bus.frozen.length = earlier.length + 1 := by simp [hBus.2.frozen]
  cases lost with
  | true =>
      have hPad : 2 * cfg.axes < k * cfg.chunk + system.landed := by
        have hSpare := hHarmless rfl
        simpa [WindowSystem.spare, hBus.2.state_eq, hBus.2.payPtr] using hSpare
      have hLand : system.land true =
          { system with landed := system.landed + 1, lost := true } := by
        simp [WindowSystem.land, hNext, hCloses]
      rw [hLand]
      refine ⟨⟨.paying hBus ⟨hWindow.completed, ?_, hWindow.version, ?_⟩, h.masked, h.unmasked,
        h.stamp⟩, ⟨le_refl _, le_refl _, le_refl _, List.prefix_refl _⟩⟩
      · have hStamped := hWindow.stamped
        rw [if_neg (Nat.ne_of_gt (Nat.zero_lt_of_lt hPad))] at hStamped
        exact hStamped.trans (if_neg (Nat.succ_ne_zero _)).symm
      · intro g hPos hg hAxis
        exact hWindow.beats g hPos (by omega) hAxis
  | false =>
      have hBeats : ∀ g, 0 < g → g < k * cfg.chunk + (system.landed + 1) → g ≤ 2 * cfg.axes →
          HoldsBeat cfg (system.mem.writeBeat
            (cfg.baseAddr + (payloadOff + beatBytes * (k * cfg.chunk + system.landed)))
            (sent.beat (k * cfg.chunk + system.landed))) sent g := by
        intro g hPos hg hAxis
        rcases Nat.lt_or_eq_of_le (Nat.lt_succ_iff.mp hg) with hOld | rfl
        · exact (hWindow.beats g hPos hOld hAxis).writePayload (Nat.ne_of_lt hOld)
        · exact holdsBeat_writeBeat _ _ _
      by_cases hFirst : k * cfg.chunk + system.landed = 0
      · have hLand : system.land false = { system with
            landed := system.landed + 1
            mem := system.mem.writeBeat
              (cfg.baseAddr + (payloadOff + beatBytes * (k * cfg.chunk + system.landed)))
              (sent.beat (k * cfg.chunk + system.landed))
            stamped := earlier.length + 1
            clobbered := false } := by
          simp [WindowSystem.land, hNext, hOpens, hCloses, hStamps, hFirst, hFrozen]
        rw [hLand]
        have hStamped := hWindow.stamped
        rw [if_pos hFirst] at hStamped
        refine ⟨⟨.paying hBus ⟨hWindow.completed, ?_, hWindow.version, hBeats⟩, ?_, ?_, ?_⟩,
          ⟨le_refl _, ?_, le_refl _, List.prefix_refl _⟩⟩
        · exact (if_neg (Nat.succ_ne_zero _)).symm
        · intro hMasked
          rw [WindowSystem.word, window_writePayload_seq]
          exact h.masked hMasked
        · intro hMasked
          rw [WindowSystem.word, window_writePayload_seq]
          exact h.unmasked hMasked
        · intro _
          have hStamp := decodeWords_stamp (holdsBeat_writeBeat system.mem sent 0)
          rw [hBus.2.numbered earlier.length sent (by simp)] at hStamp
          rw [hFirst]
          exact hStamp
        · rw [hStamped]
          exact Nat.le_succ _
      · rw [beq_eq_false_iff_ne.mpr hFirst] at hStamps
        have hLand : system.land false = { system with
            landed := system.landed + 1
            mem := system.mem.writeBeat
              (cfg.baseAddr + (payloadOff + beatBytes * (k * cfg.chunk + system.landed)))
              (sent.beat (k * cfg.chunk + system.landed)) } := by
          simp [WindowSystem.land, hNext, hOpens, hCloses, hStamps]
        rw [hLand]
        refine ⟨⟨.paying hBus ⟨hWindow.completed, ?_, hWindow.version, hBeats⟩, ?_, ?_, ?_⟩,
          ⟨le_refl _, le_refl _, le_refl _, List.prefix_refl _⟩⟩
        · have hStamped := hWindow.stamped
          rw [if_neg hFirst] at hStamped
          exact hStamped.trans (if_neg (Nat.succ_ne_zero _)).symm
        · intro hMasked
          rw [WindowSystem.word, window_writePayload_seq]
          exact h.masked hMasked
        · intro hMasked
          rw [WindowSystem.word, window_writePayload_seq]
          exact h.unmasked hMasked
        · intro hClobbered
          rw [WindowSystem.word, window_writePayload_stamp (by omega)]
          exact h.stamp hClobbered

private theorem land_closing (h : WindowInv system) (hBus : Closing earlier sent system.bus)
    (hLanded : system.landed = 0) (hWindow : Opened earlier sent cfg.payBeats system)
    (hNext : system.nextBeat = some (addr, data)) :
    WindowInv (system.land lost) ∧ WindowLe system (system.land lost) := by
  have hBusy := hBus
  obtain ⟨ptr, hBus⟩ := hBus
  obtain ⟨rfl, rfl, hLine⟩ := nextBeat_seq hBus (.inr rfl) hNext
  have hAll : ∀ g, g ≤ 2 * cfg.axes → g < cfg.payBeats := fun g hg =>
    lt_of_le_of_lt hg (payload_lt_payloadBeats cfg.axes)
  have hStamped : system.stamped = earlier.length + 1 := by
    have hCount := hWindow.stamped
    rwa [if_neg (Nat.ne_of_gt (hAll 0 (Nat.zero_le _)))] at hCount
  have hFrozen : system.bus.frozen.length = earlier.length + 1 := by simp [hBus.frozen]
  have hVersion := hWindow.version
  cases lost with
  | true =>
      have hLand : system.land true = { system with
          landed := 1, lost := true, completed := earlier.length + 1 } := by
        simp [WindowSystem.land, hNext, WindowSystem.closes, hBus.state_eq, hLanded,
          hWindow.completed]
      rw [hLand]
      refine ⟨⟨.closed hBusy Nat.one_pos ⟨by simp, by simp [hStamped], ?_, ?_, ?_⟩, h.masked,
        h.unmasked, h.stamp⟩, ⟨le_refl _, le_refl _, ?_, List.prefix_refl _⟩⟩
      · rw [List.length_append, List.length_singleton]
        simp only [hVersion]
        omega
      · rw [List.length_append, List.length_singleton]
        simp only [hVersion]
        omega
      · intro last hLast g hPos hAxis
        obtain rfl : sent = last := by simpa using hLast
        exact hWindow.beats g hPos (hAll g hAxis) hAxis
      · rw [hWindow.completed]
        exact Nat.le_succ _
  | false =>
      have hLand : system.land false = { system with
          landed := 1
          mem := system.mem.writeBeat (cfg.baseAddr + beatBytes * 0)
            (seqBeat (BitVec.ofNat 32 (2 * earlier.length + 2)) 0)
          version := 2 * earlier.length + 2
          completed := earlier.length + 1
          masked := false } := by
        simp [WindowSystem.land, hNext, WindowSystem.opens, WindowSystem.closes,
          WindowSystem.stamps, hBus.state_eq, hLanded, hFrozen, Nat.mul_add, hWindow.completed]
      rw [hLand]
      refine ⟨⟨.closed hBusy Nat.one_pos ⟨by simp, by simp [hStamped], ?_, ?_, ?_⟩, ?_, ?_, ?_⟩,
        ⟨?_, le_refl _, ?_, List.prefix_refl _⟩⟩
      · simp [Nat.mul_add]
      · simp [Nat.mul_add]
      · intro last hLast g hPos hAxis
        obtain rfl : sent = last := by simpa using hLast
        exact (hWindow.beats g hPos (hAll g hAxis) hAxis).writeSeq (by decide)
      · intro hMasked
        exact absurd hMasked Bool.false_ne_true
      · intro _
        exact ⟨Nat.succ_pos _, window_writeSeq_seq _ _⟩
      · intro hClobbered
        exact (window_writeSeq_stamp (by decide)).trans (h.stamp hClobbered)
      · rw [hVersion]
        exact Nat.le_succ _
      · rw [hWindow.completed]
        exact Nat.le_succ _

/-- Memory in which the two words of the sequence line are the same keeps the
rest of the window. -/
private theorem WindowInv.of_pad (h : WindowInv system) {landed : Nat} {lost : Bool}
    {mem : Memory}
    (hPhase : WindowPhase { system with landed := landed, lost := lost, mem := mem })
    (hSeq : mem.window cfg.baseAddr StateAbi.seqWord = system.word StateAbi.seqWord)
    (hStamp : mem.window cfg.baseAddr StateAbi.stampWord = system.word StateAbi.stampWord) :
    WindowInv { system with landed := landed, lost := lost, mem := mem } ∧
      WindowLe system { system with landed := landed, lost := lost, mem := mem } := by
  refine ⟨⟨hPhase, ?_, ?_, ?_⟩, ⟨le_refl _, le_refl _, le_refl _, List.prefix_refl _⟩⟩
  · rw [WindowSystem.word, hSeq]
    exact h.masked
  · rw [WindowSystem.word, hSeq]
    exact h.unmasked
  · rw [WindowSystem.word, hStamp]
    exact h.stamp

/-- A beat that reaches memory, or is lost where that is harmless, keeps the
window. -/
theorem WindowInv.land (h : WindowInv system) (hHarmless : system.Harmless (.land lost)) :
    WindowInv (system.land lost) ∧ WindowLe system (system.land lost) := by
  cases hNext : system.nextBeat with
  | none =>
      have hSame : system.land lost = system := by simp [WindowSystem.land, hNext]
      rw [hSame]
      exact ⟨h, le_refl _, le_refl _, le_refl _, List.prefix_refl _⟩
  | some beat =>
      obtain ⟨addr, data⟩ := beat
      cases h.phase with
      | resting hBus hLanded hShown =>
          simp [WindowSystem.nextBeat, hBus.quiet.current] at hNext
      | opening hBus hLanded hShown => exact land_opening h hBus hLanded hShown hHarmless hNext
      | opened hBus hLanded hWindow =>
          obtain ⟨mem, hLand, hSeq, hStamp, hBeats⟩ := land_pad hBus (.inl rfl) hLanded hNext
          rw [hLand]
          refine h.of_pad (.opened hBus (Nat.succ_pos _) ?_) hSeq hStamp
          exact ⟨hWindow.completed, hWindow.stamped, hWindow.version,
            fun g _ hg => absurd hg (Nat.not_lt_zero g)⟩
      | paying hBus hWindow => exact land_paying h hBus hWindow hHarmless hNext
      | closing hBus hLanded hWindow => exact land_closing h hBus hLanded hWindow hNext
      | closed hBus hLanded hShown =>
          have hBusy := hBus
          obtain ⟨ptr, hBus⟩ := hBus
          obtain ⟨mem, hLand, hSeq, hStamp, hBeats⟩ := land_pad hBus (.inr rfl) hLanded hNext
          rw [hLand]
          refine h.of_pad (.closed hBusy (Nat.succ_pos _) ?_) hSeq hStamp
          exact ⟨hShown.completed, hShown.stamped, hShown.version_le, hShown.le_version,
            fun last hLast g hPos hAxis => hBeats last g (hShown.beats last hLast g hPos hAxis)⟩

end Landing

/-- Every step of the window by itself keeps the invariant and only adds to the
record. -/
theorem WindowInv.step (h : WindowInv system) {step : WindowStep cfg.axes}
    (hFair : system.Fair step) (hHarmless : system.Harmless step) :
    WindowInv (system.step step) ∧ WindowLe system (system.step step) := by
  cases step with
  | clock input =>
      exact ⟨h.clock hFair, le_refl _, le_refl _, le_refl _,
        system.bus.frozen_prefix_clock input⟩
  | land lost => exact h.land hHarmless

theorem WindowSystem.clobbered_step (step : WindowStep cfg.axes)
    (hClobbered : (system.step step).clobbered = true) :
    system.clobbered = true ∧ (system.step step).stamped = system.stamped := by
  cases step with
  | clock input => exact ⟨hClobbered, rfl⟩
  | land lost =>
      simp only [WindowSystem.step, WindowSystem.land] at hClobbered ⊢
      split at hClobbered
      · exact ⟨hClobbered, rfl⟩
      · by_cases hStamps : (!lost && system.stamps) = true
        · simp [hStamps] at hClobbered
        · simp only [hStamps] at hClobbered ⊢
          exact ⟨hClobbered, rfl⟩

theorem WindowInv.powerUp (latched : Snapshot cfg.axes) (mem : Memory)
    (hMarked : (mem.window cfg.baseAddr StateAbi.seqWord).getLsbD 0 = true) :
    WindowInv (WindowSystem.powerUp latched mem) := by
  refine ⟨.resting (Resting.powerUp latched) rfl ⟨rfl, rfl, le_refl _, Nat.zero_le _, ?_⟩, ?_, ?_, ?_⟩
  · intro sent hSent
    simp at hSent
  · intro _
    exact hMarked
  · intro hUnmasked
    nomatch hUnmasked
  · intro hClobbered
    nomatch hClobbered

section Reading

/-- The version is never more than one ahead of the completed exports. -/
theorem WindowInv.version_le (h : WindowInv system) :
    system.version ≤ 2 * system.completed + 1 := by
  cases h.phase with
  | resting hBus hLanded hShown =>
      have := hShown.version_le
      have := hShown.completed
      omega
  | opening hBus hLanded hShown =>
      have := hShown.version_le
      have := hShown.completed
      omega
  | opened hBus hLanded hWindow =>
      rw [hWindow.version, hWindow.completed]
  | paying hBus hWindow =>
      rw [hWindow.version, hWindow.completed]
  | closing hBus hLanded hWindow =>
      rw [hWindow.version, hWindow.completed]
  | closed hBus hLanded hShown =>
      have := hShown.version_le
      have := hShown.completed
      omega

private theorem Shown.snapshot {index : Nat} (h : Shown frozen system) (hNumbered : Numbered frozen)
    (hVersion : system.version = 2 * (index + 1)) :
    system.stamped = index + 1 ∧ system.completed = index + 1 ∧
      ∃ sent, frozen[index]? = some sent ∧ sent.stamp = BitVec.ofNat 32 (index + 1) ∧
        (decodeWords cfg.axes cfg.baseAddr system.mem).snapshot = sent.snapshot := by
  have hLength : frozen.length = index + 1 := by
    have := h.version_le
    have := h.le_version
    omega
  obtain ⟨sent, hSent⟩ : ∃ sent, frozen[index]? = some sent :=
    ⟨frozen[index], List.getElem?_eq_getElem (by omega)⟩
  refine ⟨by rw [h.stamped, hLength], by rw [h.completed, hLength], sent, hSent,
    hNumbered index sent hSent, decodeWords_snapshot (h.beats sent ?_)⟩
  rw [List.getLast?_eq_getElem?, hLength]
  exact hSent

/-- An even version is a complete snapshot of the export it numbers. -/
theorem WindowInv.snapshot (h : WindowInv system) {index : Nat}
    (hVersion : system.version = 2 * (index + 1)) :
    system.stamped = index + 1 ∧ system.completed = index + 1 ∧
      ∃ sent, system.bus.frozen[index]? = some sent ∧ sent.stamp = BitVec.ofNat 32 (index + 1) ∧
        (decodeWords cfg.axes cfg.baseAddr system.mem).snapshot = sent.snapshot := by
  cases h.phase with
  | resting hBus hLanded hShown =>
      rw [hBus.frozen_eq]
      exact hShown.snapshot hBus.numbered hVersion
  | opening hBus hLanded hShown =>
      obtain ⟨hStamped, hCompleted, shown, hFrozen, hRest⟩ :=
        hShown.snapshot hBus.numbered.of_append hVersion
      refine ⟨hStamped, hCompleted, shown, ?_, hRest⟩
      rw [hBus.frozen]
      exact List.getElem?_append_left (List.getElem?_eq_some_iff.mp hFrozen).1 ▸ hFrozen
  | opened hBus hLanded hWindow =>
      have := hWindow.version
      omega
  | paying hBus hWindow =>
      have := hWindow.version
      omega
  | closing hBus hLanded hWindow =>
      have := hWindow.version
      omega
  | closed hBus hLanded hShown =>
      obtain ⟨ptr, hBus⟩ := hBus
      rw [hBus.frozen]
      exact hShown.snapshot hBus.numbered hVersion

end Reading

end Phases

end Lqr
