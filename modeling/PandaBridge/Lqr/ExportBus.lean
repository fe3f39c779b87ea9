import PandaBridge.Lqr.StateExport

/-! The exporter with a monitor on its AXI port. The monitor gathers what the
address and data channels carry between two responses and files it as a burst
when the response comes. `BusInv` says where in its export a running exporter
is, and what the channels have carried so far. -/
namespace Lqr

open StateAbiPackage

/-- What the channels carry between two responses: accepted addresses with
`awlen`, and accepted beats with `wlast`. -/
structure Burst where
  aw : List (Nat × BitVec 4)
  w : List (BitVec 64 × Bool)
  deriving DecidableEq

structure ExportBus (cfg : ExportConfig) where
  device : StateExport cfg.axes
  current : Burst
  finished : List Burst
  frozen : List (Export cfg.axes)

namespace ExportBus

variable {cfg : ExportConfig}

def powerUp (latched : Snapshot cfg.axes) : ExportBus cfg where
  device := StateExport.powerUp cfg latched
  current := ⟨[], []⟩
  finished := []
  frozen := []

/-- The transfers of one clock, after those carried before. -/
def carried (bus : ExportBus cfg) (input : ExportInput cfg.axes) : Burst where
  aw := bus.current.aw ++ if bus.device.master.awvalid && input.awready then
    [(bus.device.mstAddr cfg, AcpWriteMaster.axiBurstLen (bus.device.mstBlen cfg))] else []
  w := bus.current.w ++ if bus.device.master.wnext input.wready then
    [(bus.device.mstWdata, bus.device.master.wlast (bus.device.mstBlen cfg) input.wready)] else []

def clock (input : ExportInput cfg.axes) (bus : ExportBus cfg) : ExportBus cfg where
  device := bus.device.step cfg input
  current := if input.bvalid then ⟨[], []⟩ else bus.carried input
  finished := if input.bvalid then bus.finished ++ [bus.carried input] else bus.finished
  frozen := if bus.device.launches input then
    bus.frozen ++ [⟨bus.device.stamp + 1, input.snapshot⟩] else bus.frozen

/-- The slave may answer: the address and the last beat of the burst were accepted. -/
def Answerable (bus : ExportBus cfg) : Prop :=
  bus.current.aw ≠ [] ∧ ∃ beat ∈ bus.current.w, beat.2 = true

instance (bus : ExportBus cfg) : Decidable bus.Answerable := inferInstanceAs (Decidable (_ ∧ _))

/-- What the slave and the system promise in one clock: no reset, and a response
only for a burst that was accepted. -/
def Fair (bus : ExportBus cfg) (input : ExportInput cfg.axes) : Prop :=
  input.init = false ∧ (input.bvalid = true → bus.Answerable)

instance (bus : ExportBus cfg) (input : ExportInput cfg.axes) : Decidable (bus.Fair input) :=
  inferInstanceAs (Decidable (_ ∧ (_ → _)))

end ExportBus

section Bursts

variable (cfg : ExportConfig)

/-- The burst of `count` beats from `data` at `addr`, as the protocol wants it. -/
def framedBurst (addr count : Nat) (data : Nat → BitVec 64) : Burst where
  aw := [(addr, BitVec.ofNat 4 (count - 1))]
  w := (List.range count).map fun j => (data j, j + 1 == count)

/-- The burst that writes the line of the sequence word. -/
def seqBurst (seq : Word) : Burst := framedBurst cfg.baseAddr seqBeats (seqBeat seq)

/-- The payload burst that starts at beat `ptr`. -/
def payloadBurst (sent : Export cfg.axes) (ptr : Nat) : Burst :=
  framedBurst (cfg.baseAddr + (payloadOff + ptr * beatBytes)) (cfg.chunkBeats ptr)
    fun j => sent.beat (ptr + j)

/-- The first `k` payload bursts. -/
def payloadBursts (sent : Export cfg.axes) (k : Nat) : List Burst :=
  (List.range k).map fun i => payloadBurst cfg sent (i * cfg.chunk)

/-- The number of payload bursts of an export. -/
def ExportConfig.payloadCount : Nat := (cfg.payBeats + cfg.chunk - 1) / cfg.chunk

/-- The bursts of export number `index`: sequence word odd, payload, sequence
word even. -/
def exportBursts (sent : Export cfg.axes) (index : Nat) : List Burst :=
  seqBurst cfg (BitVec.ofNat 32 (2 * index + 1)) ::
    payloadBursts cfg sent cfg.payloadCount ++ [seqBurst cfg (BitVec.ofNat 32 (2 * index + 2))]

/-- The bursts of all exports, in order. -/
def exportHistory (frozen : List (Export cfg.axes)) : List Burst :=
  frozen.zipIdx.flatMap fun numbered => exportBursts cfg numbered.1 numbered.2

theorem exportHistory_append (earlier : List (Export cfg.axes)) (sent : Export cfg.axes) :
    exportHistory cfg (earlier ++ [sent]) =
      exportHistory cfg earlier ++ exportBursts cfg sent earlier.length := by
  simp [exportHistory, List.zipIdx_append]

/-- The stamps count the exports from one. -/
def Numbered {cfg : ExportConfig} (frozen : List (Export cfg.axes)) : Prop :=
  ∀ index sent, frozen[index]? = some sent → sent.stamp = BitVec.ofNat 32 (index + 1)

variable {cfg} in
theorem Numbered.append {frozen : List (Export cfg.axes)} (h : Numbered frozen)
    (snapshot : Snapshot cfg.axes) :
    Numbered (frozen ++ [⟨BitVec.ofNat 32 (frozen.length + 1), snapshot⟩]) := by
  intro index sent hSent
  rcases Nat.lt_trichotomy index frozen.length with hLess | rfl | hMore
  · rw [List.getElem?_append_left hLess] at hSent
    exact h index sent hSent
  · rw [List.getElem?_append_right (le_refl _), Nat.sub_self] at hSent
    obtain rfl : _ = sent := by simpa using hSent
    rfl
  · rw [List.getElem?_eq_none (by simpa using Nat.succ_le_of_lt hMore)] at hSent
    simp at hSent

variable {cfg} in
theorem Numbered.of_append {earlier later : List (Export cfg.axes)}
    (h : Numbered (earlier ++ later)) : Numbered earlier := by
  intro index sent hSent
  refine h index sent ?_
  rw [List.getElem?_append_left (List.getElem?_eq_some_iff.mp hSent).1]
  exact hSent

end Bursts

namespace ExportConfig

variable (cfg : ExportConfig)

theorem chunk_pos : 0 < cfg.chunk := lt_of_lt_of_le (by decide) cfg.seqBeats_le_chunk

theorem chunkBeats_le_chunk (ptr : Nat) : cfg.chunkBeats ptr ≤ cfg.chunk := by
  unfold chunkBeats
  dsimp only
  split_ifs <;> omega

theorem chunkBeats_pos {ptr : Nat} (hPtr : ptr < cfg.payBeats) : 0 < cfg.chunkBeats ptr := by
  have := cfg.chunk_pos
  unfold chunkBeats
  dsimp only
  split_ifs <;> omega

/-- A chunk that does not reach the end of the payload is a full one. -/
theorem chunkBeats_eq_chunk {ptr : Nat} (hMore : ¬ cfg.payBeats ≤ ptr + cfg.chunkBeats ptr) :
    cfg.chunkBeats ptr = cfg.chunk := by
  unfold chunkBeats at hMore ⊢
  dsimp only at hMore ⊢
  split_ifs at hMore ⊢ <;> omega

theorem payloadCount_eq {k : Nat} (hPtr : k * cfg.chunk < cfg.payBeats)
    (hLast : cfg.payBeats ≤ k * cfg.chunk + cfg.chunkBeats (k * cfg.chunk)) :
    k + 1 = cfg.payloadCount := by
  have hChunk := cfg.chunkBeats_le_chunk (k * cfg.chunk)
  have hPos := cfg.chunk_pos
  unfold payloadCount
  symm
  rw [Nat.div_eq_iff hPos]
  constructor
  · rw [Nat.succ_mul]
    omega
  · rw [Nat.succ_mul]
    omega

end ExportConfig

theorem payloadBursts_succ (cfg : ExportConfig) (sent : Export cfg.axes) (k : Nat) :
    payloadBursts cfg sent (k + 1) =
      payloadBursts cfg sent k ++ [payloadBurst cfg sent (k * cfg.chunk)] := by
  simp [payloadBursts, List.range_succ]

section InBurst

variable {cfg : ExportConfig}

/-- Nothing of a burst is on the channels. -/
structure Quiet (bus : ExportBus cfg) : Prop where
  awvalid : bus.device.master.awvalid = false
  wvalid : bus.device.master.wvalid = false
  wlenCount : bus.device.master.wlenCount = 0
  current : bus.current = ⟨[], []⟩

theorem Quiet.step_master {bus : ExportBus cfg} (h : Quiet bus) (start : Bool)
    (burstLen : BitVec 4) (awready wready : Bool) :
    bus.device.master.step false start burstLen awready wready = ⟨start, start, 0⟩ := by
  ext1
  · cases start <;> simp [AcpWriteMaster.step, h.awvalid]
  · cases start <;> simp [AcpWriteMaster.step, AcpWriteMaster.wnext, h.wvalid]
  · simp [AcpWriteMaster.step, AcpWriteMaster.wnext, AcpWriteMaster.wlast, h.wvalid, h.wlenCount]

/-- The burst of the current state is under way: `burstBeat` of its beats were
accepted. -/
structure Running (bus : ExportBus cfg) : Prop where
  mstStart : bus.device.mstStart = false
  beat_le : bus.device.burstBeat ≤ bus.device.burstBeats cfg
  wvalid : bus.device.master.wvalid = decide (bus.device.burstBeat < bus.device.burstBeats cfg)
  wlenCount : bus.device.master.wlenCount =
    if bus.device.burstBeat < bus.device.burstBeats cfg then BitVec.ofNat 4 bus.device.burstBeat
    else 0
  aw : bus.current.aw = if bus.device.master.awvalid then []
    else [(bus.device.mstAddr cfg, BitVec.ofNat 4 (bus.device.burstBeats cfg - 1))]
  w : bus.current.w = (List.range bus.device.burstBeat).map fun j =>
    (bus.device.beatData j, j + 1 == bus.device.burstBeats cfg)

/-- The burst of the current state was launched in this clock, or is under way. -/
def InBurst (bus : ExportBus cfg) : Prop :=
  (bus.device.mstStart = true ∧ bus.device.burstBeat = 0 ∧ Quiet bus) ∨ Running bus

theorem axiBurstLen_ofNat {count : Nat} (hPos : 0 < count) :
    AcpWriteMaster.axiBurstLen (BitVec.ofNat 4 count) = BitVec.ofNat 4 (count - 1) := by
  unfold AcpWriteMaster.axiBurstLen
  obtain ⟨less, rfl⟩ : ∃ less, count = less + 1 := ⟨count - 1, by omega⟩
  rw [Nat.add_sub_cancel, BitVec.ofNat_add]
  exact BitVec.add_sub_cancel _ _

theorem ofNat_beq_ofNat_pred {beat count : Nat} (hBeat : beat < count) (hCount : count ≤ 16) :
    (BitVec.ofNat 4 beat == BitVec.ofNat 4 (count - 1)) = (beat + 1 == count) := by
  rw [Bool.eq_iff_iff, beq_iff_eq, beq_iff_eq, ← BitVec.toNat_inj, BitVec.toNat_ofNat,
    BitVec.toNat_ofNat]
  omega

variable {bus : ExportBus cfg} {input : ExportInput cfg.axes}

/-- Between launch and response only the beat counter and the burst engine move. -/
theorem step_of_busy {device : StateExport cfg.axes} (hBusy : device.state ≠ .idle)
    (hInit : input.init = false) (hWait : input.bvalid = false) :
    device.step cfg input =
      { device with
        burstBeat := if device.master.wnext input.wready then device.burstBeat + 1
          else device.burstBeat
        mstStart := false
        master := device.master.step false device.mstStart (device.mstBlen cfg) input.awready
          input.wready } := by
  unfold StateExport.step
  cases hState : device.state with
  | idle => exact absurd hState hBusy
  | wrSeqOdd => simp [hInit, hWait]
  | wrPayload => simp [hInit, hWait]
  | wrSeqEven => simp [hInit, hWait]

private theorem clock_launched (hBusy : bus.device.state ≠ .idle)
    (hStart : bus.device.mstStart = true) (hBeat : bus.device.burstBeat = 0) (hQuiet : Quiet bus)
    (hLength : 0 < bus.device.burstBeats cfg) (hInit : input.init = false)
    (hWait : input.bvalid = false) : Running (bus.clock input) := by
  have hNext : bus.device.master.wnext input.wready = false := by
    simp [AcpWriteMaster.wnext, hQuiet.wvalid]
  have hDevice : (bus.clock input).device = { bus.device with
      mstStart := false
      master := { awvalid := true, wvalid := true, wlenCount := 0 } } := by
    rw [ExportBus.clock, step_of_busy hBusy hInit hWait]
    simp [hNext, hStart, hQuiet.step_master]
  have hCurrent : (bus.clock input).current = ⟨[], []⟩ := by
    simp [ExportBus.clock, hWait, ExportBus.carried, hQuiet.current, hQuiet.awvalid, hNext]
  have hBeats : (bus.clock input).device.burstBeats cfg = bus.device.burstBeats cfg := by
    rw [hDevice]
    rfl
  refine ⟨?_, ?_, ?_, ?_, ?_, ?_⟩
  · rw [hDevice]
  · rw [hBeats, hDevice]
    simp [hBeat]
  · rw [hBeats, hDevice]
    simpa [hBeat] using hLength
  · rw [hBeats, hDevice]
    simp [hBeat]
  · rw [hCurrent, hDevice]
    rfl
  · rw [hCurrent, hDevice]
    simp [hBeat]

/-- A clock in the middle of a burst: the address or one more beat may be accepted. -/
private theorem clock_running (hBusy : bus.device.state ≠ .idle) (h : Running bus)
    (hPos : 0 < bus.device.burstBeats cfg) (hLength : bus.device.burstBeats cfg ≤ 16)
    (hInit : input.init = false) (hWait : input.bvalid = false) : Running (bus.clock input) := by
  have hBlen : AcpWriteMaster.axiBurstLen (bus.device.mstBlen cfg) =
      BitVec.ofNat 4 (bus.device.burstBeats cfg - 1) := axiBurstLen_ofNat hPos
  have hDevice : (bus.clock input).device = _ := step_of_busy hBusy hInit hWait
  have hBeats : (bus.clock input).device.burstBeats cfg = bus.device.burstBeats cfg := by
    rw [hDevice]
    rfl
  have hAddr : (bus.clock input).device.mstAddr cfg = bus.device.mstAddr cfg := by
    rw [hDevice]
    rfl
  have hData : (bus.clock input).device.beatData = bus.device.beatData := by
    rw [hDevice]
    rfl
  have hCurrent : (bus.clock input).current = bus.carried input := by
    simp [ExportBus.clock, hWait]
  have hAw : (bus.clock input).current.aw = if (bus.clock input).device.master.awvalid then []
      else [(bus.device.mstAddr cfg, BitVec.ofNat 4 (bus.device.burstBeats cfg - 1))] := by
    rw [hCurrent, hDevice]
    cases hValid : bus.device.master.awvalid <;> cases hReady : input.awready <;>
      simp [ExportBus.carried, h.aw, hValid, hReady, AcpWriteMaster.step, h.mstStart, hBlen]
  by_cases hNext : bus.device.master.wnext input.wready = true
  · have hMore : bus.device.burstBeat < bus.device.burstBeats cfg := by
      have hValid : bus.device.master.wvalid = true := by
        simp only [AcpWriteMaster.wnext, Bool.and_eq_true] at hNext
        exact hNext.2
      simpa [h.wvalid] using hValid
    have hLast : bus.device.master.wlast (bus.device.mstBlen cfg) input.wready =
        (bus.device.burstBeat + 1 == bus.device.burstBeats cfg) := by
      rw [AcpWriteMaster.wlast, hNext, Bool.and_true, hBlen, h.wlenCount, if_pos hMore,
        ofNat_beq_ofNat_pred hMore hLength]
    have hBeat : (bus.clock input).device.burstBeat = bus.device.burstBeat + 1 := by
      rw [hDevice]
      simp [hNext]
    refine ⟨by rw [hDevice], by omega, ?_, ?_, by rw [hBeats, hAddr]; exact hAw, ?_⟩
    · rw [hBeats, hBeat, hDevice]
      simp only [AcpWriteMaster.step, hNext, hLast, h.mstStart, h.wvalid, hMore]
      by_cases hEnd : bus.device.burstBeat + 1 = bus.device.burstBeats cfg
      · simp [hEnd]
      · simp [hEnd, show bus.device.burstBeat + 1 < bus.device.burstBeats cfg by omega]
    · rw [hBeats, hBeat, hDevice]
      simp only [AcpWriteMaster.step, hNext, hLast, h.wlenCount, hMore]
      by_cases hEnd : bus.device.burstBeat + 1 = bus.device.burstBeats cfg
      · simp [hEnd]
      · simp [hEnd, show bus.device.burstBeat + 1 < bus.device.burstBeats cfg by omega,
          BitVec.ofNat_add]
    · rw [hBeats, hData, hBeat, hCurrent, ExportBus.carried, h.w, List.range_succ]
      simp [hNext, hLast, StateExport.mstWdata]
  · rw [Bool.not_eq_true] at hNext
    have hLast : bus.device.master.wlast (bus.device.mstBlen cfg) input.wready = false := by
      simp [AcpWriteMaster.wlast, hNext]
    have hBeat : (bus.clock input).device.burstBeat = bus.device.burstBeat := by
      rw [hDevice]
      simp [hNext]
    refine ⟨by rw [hDevice], by rw [hBeats, hBeat]; exact h.beat_le, ?_, ?_,
      by rw [hBeats, hAddr]; exact hAw, ?_⟩
    · rw [hBeats, hBeat, ← h.wvalid, hDevice]
      simp [AcpWriteMaster.step, hNext, h.mstStart]
    · rw [hBeats, hBeat, ← h.wlenCount, hDevice]
      simp [AcpWriteMaster.step, hNext, hLast]
    · rw [hBeats, hData, hBeat, ← h.w, hCurrent, ExportBus.carried]
      simp [hNext]

theorem InBurst.clock (h : InBurst bus) (hBusy : bus.device.state ≠ .idle)
    (hPos : 0 < bus.device.burstBeats cfg) (hLength : bus.device.burstBeats cfg ≤ 16)
    (hInit : input.init = false) (hWait : input.bvalid = false) : InBurst (bus.clock input) := by
  rcases h with ⟨hStart, hBeat, hQuiet⟩ | hRunning
  · exact .inr (clock_launched hBusy hStart hBeat hQuiet hPos hInit hWait)
  · exact .inr (clock_running hBusy hRunning hPos hLength hInit hWait)

/-- A burst may be answered only when it is complete: its address, all of its
beats, and the last flag on the last beat alone. -/
theorem InBurst.complete (h : InBurst bus) (hAnswer : bus.Answerable) :
    bus.device.mstStart = false ∧ bus.device.master.awvalid = false ∧
      bus.device.master.wvalid = false ∧ bus.device.master.wlenCount = 0 ∧
      bus.current = framedBurst (bus.device.mstAddr cfg) (bus.device.burstBeats cfg)
        bus.device.beatData := by
  obtain ⟨hAddress, beat, hBeat, hLast⟩ := hAnswer
  rcases h with ⟨_, _, hQuiet⟩ | hRunning
  · simp [hQuiet.current] at hAddress
  have hValid : bus.device.master.awvalid = false := by
    by_contra hWaiting
    rw [hRunning.aw, if_pos (by simpa using hWaiting)] at hAddress
    exact hAddress rfl
  have hAll : bus.device.burstBeat = bus.device.burstBeats cfg := by
    rw [hRunning.w] at hBeat
    obtain ⟨j, hj, rfl⟩ := List.mem_map.mp hBeat
    have hEnd : j + 1 = bus.device.burstBeats cfg := by simpa using hLast
    have := List.mem_range.mp hj
    have := hRunning.beat_le
    omega
  refine ⟨hRunning.mstStart, hValid, ?_, ?_, ?_⟩
  · rw [hRunning.wvalid, hAll]
    simp
  · rw [hRunning.wlenCount, hAll]
    simp
  · have hAw := hRunning.aw
    have hW := hRunning.w
    rw [hValid] at hAw
    rw [hAll] at hW
    obtain ⟨⟨aw, w⟩, hCurrent⟩ : ∃ current, bus.current = current := ⟨_, rfl⟩
    rw [hCurrent] at hAw hW ⊢
    simp only at hAw hW
    rw [hAw, hW]
    rfl

theorem InBurst.respond (h : InBurst bus) (hAnswer : bus.Answerable) (hInit : input.init = false)
    (hResponse : input.bvalid = true) :
    Quiet (bus.clock input) ∧
      (bus.clock input).finished = bus.finished ++
        [framedBurst (bus.device.mstAddr cfg) (bus.device.burstBeats cfg)
          bus.device.beatData] := by
  obtain ⟨hStart, hAw, hW, hCount, hCurrent⟩ := h.complete hAnswer
  have hNext : bus.device.master.wnext input.wready = false := by
    simp [AcpWriteMaster.wnext, hW]
  have hMaster : (bus.clock input).device.master = bus.device.master := by
    have hStep : bus.device.master.step false false (bus.device.mstBlen cfg) input.awready
        input.wready = bus.device.master := by
      ext1
      · simp [AcpWriteMaster.step, hAw]
      · simp [AcpWriteMaster.step, hNext]
      · simp [AcpWriteMaster.step, AcpWriteMaster.wlast, hNext]
    simp only [ExportBus.clock, StateExport.step, hInit, hStart, hStep]
    cases bus.device.state <;> dsimp only <;> split_ifs <;> rfl
  refine ⟨⟨by rw [hMaster, hAw], by rw [hMaster, hW], by rw [hMaster, hCount], ?_⟩, ?_⟩
  · simp [ExportBus.clock, hResponse]
  · have hCarried : bus.carried input = bus.current := by
      simp [ExportBus.carried, hAw, hNext]
    rw [← hCurrent, ← hCarried]
    simp [ExportBus.clock, hResponse]

end InBurst

section Phases

variable {cfg : ExportConfig}

/-- Between two exports. -/
structure Resting (frozen : List (Export cfg.axes)) (bus : ExportBus cfg) : Prop where
  state : bus.device.state = .idle
  mstStart : bus.device.mstStart = false
  quiet : Quiet bus
  seq : bus.device.seq = BitVec.ofNat 32 (2 * frozen.length)
  stamp : bus.device.stamp = BitVec.ofNat 32 frozen.length
  frozen_eq : bus.frozen = frozen
  numbered : Numbered frozen
  finished : bus.finished = exportHistory cfg frozen

/-- Inside the export of `sent`, with the bursts `behind` it answered. -/
structure Sending (earlier : List (Export cfg.axes)) (sent : Export cfg.axes)
    (state : ExportState) (seq ptr : Nat) (behind : List Burst) (bus : ExportBus cfg) : Prop where
  inBurst : InBurst bus
  state_eq : bus.device.state = state
  seq_eq : bus.device.seq = BitVec.ofNat 32 seq
  payPtr : bus.device.payPtr = ptr
  sent_eq : sent = ⟨bus.device.stamp, bus.device.latched⟩
  frozen : bus.frozen = earlier ++ [sent]
  numbered : Numbered (earlier ++ [sent])
  finished : bus.finished = exportHistory cfg earlier ++ behind

/-- The odd sequence word is being written. -/
def Opening (earlier : List (Export cfg.axes)) (sent : Export cfg.axes) (bus : ExportBus cfg) :
    Prop :=
  Sending earlier sent .wrSeqOdd (2 * earlier.length + 1) 0 [] bus

/-- Payload burst `k` is being written. -/
def Paying (earlier : List (Export cfg.axes)) (sent : Export cfg.axes) (k : Nat)
    (bus : ExportBus cfg) : Prop :=
  k * cfg.chunk < cfg.payBeats ∧
    Sending earlier sent .wrPayload (2 * earlier.length + 1) (k * cfg.chunk)
      (seqBurst cfg (BitVec.ofNat 32 (2 * earlier.length + 1)) :: payloadBursts cfg sent k) bus

/-- The even sequence word is being written. -/
def Closing (earlier : List (Export cfg.axes)) (sent : Export cfg.axes) (bus : ExportBus cfg) :
    Prop :=
  ∃ ptr, Sending earlier sent .wrSeqEven (2 * earlier.length + 2) ptr
    (seqBurst cfg (BitVec.ofNat 32 (2 * earlier.length + 1)) ::
      payloadBursts cfg sent cfg.payloadCount) bus

variable {frozen earlier : List (Export cfg.axes)} {sent : Export cfg.axes} {k : Nat}
  {bus : ExportBus cfg} {input : ExportInput cfg.axes} {state : ExportState} {seq ptr : Nat}
  {behind : List Burst}

theorem ExportBus.frozen_prefix_clock (bus : ExportBus cfg) (input : ExportInput cfg.axes) :
    bus.frozen <+: (bus.clock input).frozen := by
  unfold ExportBus.clock
  dsimp only
  split_ifs
  · exact List.prefix_append _ _
  · exact List.prefix_refl _

theorem Sending.wait (h : Sending earlier sent state seq ptr behind bus) (hBusy : state ≠ .idle)
    (hPos : 0 < bus.device.burstBeats cfg) (hLength : bus.device.burstBeats cfg ≤ 16)
    (hInit : input.init = false) (hWait : input.bvalid = false) :
    Sending earlier sent state seq ptr behind (bus.clock input) := by
  have hState : bus.device.state ≠ .idle := by
    rw [h.state_eq]
    exact hBusy
  have hDevice : (bus.clock input).device = _ := step_of_busy hState hInit hWait
  refine ⟨h.inBurst.clock hState hPos hLength hInit hWait, ?_, ?_, ?_, ?_, ?_, h.numbered, ?_⟩
  · rw [hDevice, ← h.state_eq]
  · rw [hDevice, ← h.seq_eq]
  · rw [hDevice, ← h.payPtr]
  · rw [hDevice, h.sent_eq]
  · simp [ExportBus.clock, StateExport.launches, h.state_eq, hBusy, h.frozen]
  · simp [ExportBus.clock, hWait, h.finished]

/-- A response moves the export to its next burst, launched over quiet channels. -/
theorem Sending.answer (h : Sending earlier sent state seq ptr behind bus) (hBusy : state ≠ .idle)
    (hFair : bus.Fair input) (hResponse : input.bvalid = true) :
    Quiet (bus.clock input) ∧ (bus.clock input).frozen = earlier ++ [sent] ∧
      (bus.clock input).finished = exportHistory cfg earlier ++ (behind ++
        [framedBurst (bus.device.mstAddr cfg) (bus.device.burstBeats cfg)
          bus.device.beatData]) := by
  obtain ⟨hQuiet, hFinished⟩ := h.inBurst.respond (hFair.2 hResponse) hFair.1 hResponse
  refine ⟨hQuiet, ?_, ?_⟩
  · simp [ExportBus.clock, StateExport.launches, h.state_eq, hBusy, h.frozen]
  · rw [hFinished, h.finished, List.append_assoc]

theorem Resting.clock (h : Resting frozen bus) (hFair : bus.Fair input) :
    Resting frozen (bus.clock input) ∨
      (input.tick = true ∧
        Opening frozen ⟨BitVec.ofNat 32 (frozen.length + 1), input.snapshot⟩ (bus.clock input)) := by
  have hWait : input.bvalid = false := by
    by_contra hResponse
    have hAnswer := (hFair.2 (by simpa using hResponse)).1
    simp [h.quiet.current] at hAnswer
  have hMaster := h.quiet.step_master false (bus.device.mstBlen cfg) input.awready input.wready
  have hNext : bus.device.master.wnext input.wready = false := by
    simp [AcpWriteMaster.wnext, h.quiet.wvalid]
  have hCurrent : (bus.clock input).current = ⟨[], []⟩ := by
    simp [ExportBus.clock, hWait, ExportBus.carried, h.quiet.current, h.quiet.awvalid, hNext]
  have hFinished : (bus.clock input).finished = exportHistory cfg frozen := by
    simp [ExportBus.clock, hWait, h.finished]
  by_cases hTick : (input.tick && input.valid && input.exportEn) = true
  · refine .inr ⟨by simp only [Bool.and_eq_true] at hTick; exact hTick.1.1, ?_⟩
    have hDevice : (bus.clock input).device =
        { state := .wrSeqOdd, seq := bus.device.seq + 1, stamp := bus.device.stamp + 1,
          latched := input.snapshot, payPtr := 0, burstBeat := 0, mstStart := true,
          master := ⟨false, false, 0⟩ } := by
      simp [ExportBus.clock, StateExport.step, hFair.1, h.state, hTick, h.mstStart, hMaster]
    have hFrozen : (bus.clock input).frozen =
        frozen ++ [⟨BitVec.ofNat 32 (frozen.length + 1), input.snapshot⟩] := by
      have hLaunch : bus.device.launches input = true := by
        simp only [Bool.and_eq_true] at hTick
        simp [StateExport.launches, hFair.1, h.state, hTick]
      rw [ExportBus.clock, hLaunch, if_pos rfl, h.frozen_eq, h.stamp, BitVec.ofNat_add]
      rfl
    refine ⟨.inl ⟨by rw [hDevice], by rw [hDevice], ⟨?_, ?_, ?_, hCurrent⟩⟩, ?_, ?_, ?_, ?_,
      hFrozen, h.numbered.append input.snapshot, ?_⟩
    · rw [hDevice]
    · rw [hDevice]
    · rw [hDevice]
    · rw [hDevice]
    · rw [hDevice, BitVec.ofNat_add, ← h.seq]
      rfl
    · rw [hDevice]
    · rw [hDevice, BitVec.ofNat_add, ← h.stamp]
      rfl
    · rw [hFinished, List.append_nil]
  · refine .inl ?_
    rw [Bool.not_eq_true] at hTick
    have hDevice : (bus.clock input).device =
        { bus.device with mstStart := false, master := ⟨false, false, 0⟩ } := by
      simp [ExportBus.clock, StateExport.step, hFair.1, h.state, hTick, h.mstStart, hMaster, hNext]
    have hFrozen : (bus.clock input).frozen = frozen := by
      have hLaunch : bus.device.launches input = false := by
        simpa [StateExport.launches, hFair.1, h.state] using hTick
      simp [ExportBus.clock, hLaunch, h.frozen_eq]
    refine ⟨?_, ?_, ⟨?_, ?_, ?_, hCurrent⟩, ?_, ?_, hFrozen, h.numbered, hFinished⟩
    · rw [hDevice, ← h.state]
    · rw [hDevice]
    · rw [hDevice]
    · rw [hDevice]
    · rw [hDevice]
    · rw [hDevice, ← h.seq]
    · rw [hDevice, ← h.stamp]

theorem framedBurst_seq (h : Sending earlier sent state seq ptr behind bus)
    (hSeq : state = .wrSeqOdd ∨ state = .wrSeqEven) :
    bus.device.burstBeats cfg = seqBeats ∧
      framedBurst (bus.device.mstAddr cfg) (bus.device.burstBeats cfg) bus.device.beatData =
        seqBurst cfg (BitVec.ofNat 32 seq) := by
  rcases hSeq with rfl | rfl
  · refine ⟨by simp [StateExport.burstBeats, h.state_eq], ?_⟩
    rw [← h.seq_eq]
    simp [seqBurst, framedBurst, StateExport.mstAddr, StateExport.burstBeats,
      StateExport.beatData, h.state_eq]
  · refine ⟨by simp [StateExport.burstBeats, h.state_eq], ?_⟩
    rw [← h.seq_eq]
    simp [seqBurst, framedBurst, StateExport.mstAddr, StateExport.burstBeats,
      StateExport.beatData, h.state_eq]

theorem framedBurst_payload (h : Sending earlier sent .wrPayload seq ptr behind bus) :
    bus.device.burstBeats cfg = cfg.chunkBeats ptr ∧
      framedBurst (bus.device.mstAddr cfg) (bus.device.burstBeats cfg) bus.device.beatData =
        payloadBurst cfg sent ptr := by
  refine ⟨by simp [StateExport.burstBeats, h.state_eq, h.payPtr], ?_⟩
  rw [h.sent_eq, ← h.payPtr]
  simp [payloadBurst, framedBurst, StateExport.mstAddr, StateExport.burstBeats,
    StateExport.beatData, h.state_eq]

theorem Opening.clock (h : Opening earlier sent bus) (hFair : bus.Fair input) :
    (input.bvalid = false ∧ Opening earlier sent (bus.clock input)) ∨
      (input.bvalid = true ∧ Paying earlier sent 0 (bus.clock input)) := by
  obtain ⟨hBeats, hBurst⟩ := framedBurst_seq h (.inl rfl)
  cases hResponse : input.bvalid with
  | false =>
      refine .inl ⟨rfl, h.wait (by decide) ?_ ?_ hFair.1 hResponse⟩
      · rw [hBeats]
        decide
      · rw [hBeats]
        decide
  | true =>
      obtain ⟨hQuiet, hFrozen, hFinished⟩ := h.answer (by decide) hFair hResponse
      obtain ⟨master, hDevice⟩ : ∃ master, (bus.clock input).device = { bus.device with
          state := .wrPayload, burstBeat := 0, mstStart := true, master := master } := by
        simp [ExportBus.clock, StateExport.step, hFair.1, h.state_eq, hResponse]
      refine .inr ⟨rfl, ?_, .inl ⟨?_, ?_, hQuiet⟩, ?_, ?_, ?_, ?_, hFrozen, h.numbered, ?_⟩
      · rw [Nat.zero_mul]
        exact lt_of_le_of_lt (Nat.zero_le _) (payload_lt_payloadBeats cfg.axes)
      · rw [hDevice]
      · rw [hDevice]
      · rw [hDevice]
      · rw [hDevice, ← h.seq_eq]
      · rw [hDevice, Nat.zero_mul, ← h.payPtr]
      · rw [hDevice, h.sent_eq]
      · rw [hFinished, hBurst]
        rfl

theorem Paying.clock (h : Paying earlier sent k bus) (hFair : bus.Fair input) :
    (input.bvalid = false ∧ Paying earlier sent k (bus.clock input)) ∨
      (input.bvalid = true ∧
        (Paying earlier sent (k + 1) (bus.clock input) ∨
          (cfg.payBeats ≤ k * cfg.chunk + cfg.chunkBeats (k * cfg.chunk) ∧
            Closing earlier sent (bus.clock input)))) := by
  obtain ⟨hPtr, h⟩ := h
  obtain ⟨hBeats, hBurst⟩ := framedBurst_payload h
  cases hResponse : input.bvalid with
  | false =>
      refine .inl ⟨rfl, hPtr, h.wait (by decide) ?_ ?_ hFair.1 hResponse⟩
      · rw [hBeats]
        exact cfg.chunkBeats_pos hPtr
      · rw [hBeats]
        exact le_trans (cfg.chunkBeats_le_chunk _) cfg.chunk_le
  | true =>
      obtain ⟨hQuiet, hFrozen, hFinished⟩ := h.answer (by decide) hFair hResponse
      rw [hBurst] at hFinished
      by_cases hLast : cfg.payBeats ≤ k * cfg.chunk + cfg.chunkBeats (k * cfg.chunk)
      · obtain ⟨master, hDevice⟩ : ∃ master, (bus.clock input).device = { bus.device with
            state := .wrSeqEven, seq := bus.device.seq + 1, burstBeat := 0, mstStart := true
            master := master } := by
          simp [ExportBus.clock, StateExport.step, hFair.1, h.state_eq, hResponse, h.payPtr, hLast]
        refine .inr ⟨rfl, .inr ⟨hLast, k * cfg.chunk, .inl ⟨?_, ?_, hQuiet⟩, ?_, ?_, ?_, ?_, hFrozen,
          h.numbered, ?_⟩⟩
        · rw [hDevice]
        · rw [hDevice]
        · rw [hDevice]
        · rw [hDevice]
          show bus.device.seq + 1 = _
          rw [h.seq_eq, show 2 * earlier.length + 2 = 2 * earlier.length + 1 + 1 from rfl,
            BitVec.ofNat_add (2 * earlier.length + 1)]
          rfl
        · rw [hDevice, ← h.payPtr]
        · rw [hDevice, h.sent_eq]
        · rw [hFinished, ← cfg.payloadCount_eq hPtr hLast, payloadBursts_succ]
          rfl
      · obtain ⟨master, hDevice⟩ : ∃ master, (bus.clock input).device = { bus.device with
            payPtr := k * cfg.chunk + cfg.chunkBeats (k * cfg.chunk), burstBeat := 0
            mstStart := true, master := master } := by
          simp [ExportBus.clock, StateExport.step, hFair.1, h.state_eq, hResponse, h.payPtr, hLast]
        have hFull := cfg.chunkBeats_eq_chunk hLast
        refine .inr ⟨rfl, .inl ⟨?_, .inl ⟨?_, ?_, hQuiet⟩, ?_, ?_, ?_, ?_, hFrozen,
          h.numbered, ?_⟩⟩
        · rw [Nat.succ_mul]
          omega
        · rw [hDevice]
        · rw [hDevice]
        · rw [hDevice, ← h.state_eq]
        · rw [hDevice, ← h.seq_eq]
        · rw [hDevice, hFull, Nat.succ_mul]
        · rw [hDevice, h.sent_eq]
        · rw [hFinished, payloadBursts_succ]
          rfl

theorem Closing.clock (h : Closing earlier sent bus) (hFair : bus.Fair input) :
    (input.bvalid = false ∧ Closing earlier sent (bus.clock input)) ∨
      (input.bvalid = true ∧ Resting (earlier ++ [sent]) (bus.clock input)) := by
  obtain ⟨ptr, h⟩ := h
  obtain ⟨hBeats, hBurst⟩ := framedBurst_seq h (.inr rfl)
  cases hResponse : input.bvalid with
  | false =>
      refine .inl ⟨rfl, ptr, h.wait (by decide) ?_ ?_ hFair.1 hResponse⟩
      · rw [hBeats]
        decide
      · rw [hBeats]
        decide
  | true =>
      obtain ⟨hQuiet, hFrozen, hFinished⟩ := h.answer (by decide) hFair hResponse
      obtain ⟨beat, master, hDevice⟩ : ∃ beat master, (bus.clock input).device = { bus.device with
          state := .idle, burstBeat := beat, mstStart := false, master := master } := by
        simp [ExportBus.clock, StateExport.step, hFair.1, h.state_eq, hResponse]
      refine .inr ⟨rfl, ?_, ?_, hQuiet, ?_, ?_, hFrozen, h.numbered, ?_⟩
      · rw [hDevice]
      · rw [hDevice]
      · rw [hDevice]
        show bus.device.seq = _
        rw [h.seq_eq]
        simp [Nat.mul_add]
      · rw [hDevice]
        show bus.device.stamp = _
        have hStamp := h.numbered earlier.length sent (by simp)
        rw [h.sent_eq] at hStamp
        simpa using hStamp
      · rw [hFinished, hBurst, exportHistory_append]
        simp [exportBursts]

end Phases

end Lqr
