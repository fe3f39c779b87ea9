import PandaBridge.Lqr.ExportBus

/-! What a whole run of the exporter puts on the bus: one group of bursts for
each export, every burst framed as the protocol wants it, the payload bursts
writing each beat of the payload once, and a memory image that the C++ offsets
decode to the frozen words. -/
namespace Lqr

open StateAbiPackage

namespace ExportBus

variable {cfg : ExportConfig}

def run : List (ExportInput cfg.axes) → ExportBus cfg → ExportBus cfg
  | [], bus => bus
  | input :: rest, bus => run rest (bus.clock input)

/-- Every clock of the run is fair in the state it is taken from. -/
def FairRun : List (ExportInput cfg.axes) → ExportBus cfg → Prop
  | [], _ => True
  | input :: rest, bus => bus.Fair input ∧ FairRun rest (bus.clock input)

instance FairRun.decidable : (inputs : List (ExportInput cfg.axes)) → (bus : ExportBus cfg) →
    Decidable (FairRun inputs bus)
  | [], _ => isTrue trivial
  | input :: rest, bus =>
      have := FairRun.decidable rest (bus.clock input)
      inferInstanceAs (Decidable (_ ∧ _))

end ExportBus

/-- The exporter is somewhere in its work. -/
inductive BusInv {cfg : ExportConfig} (bus : ExportBus cfg) : Prop
  | resting {frozen : List (Export cfg.axes)} (h : Resting frozen bus)
  | opening {earlier : List (Export cfg.axes)} {sent : Export cfg.axes} (h : Opening earlier sent bus)
  | paying {earlier : List (Export cfg.axes)} {sent : Export cfg.axes} {k : Nat}
      (h : Paying earlier sent k bus)
  | closing {earlier : List (Export cfg.axes)} {sent : Export cfg.axes} (h : Closing earlier sent bus)

section Run

variable {cfg : ExportConfig} {bus : ExportBus cfg} {input : ExportInput cfg.axes}

theorem Resting.powerUp (latched : Snapshot cfg.axes) : Resting [] (ExportBus.powerUp latched) :=
  ⟨rfl, rfl, ⟨rfl, rfl, rfl, rfl⟩, rfl, rfl, rfl, by simp [Numbered], rfl⟩

theorem BusInv.clock (h : BusInv bus) (hFair : bus.Fair input) : BusInv (bus.clock input) := by
  cases h with
  | resting h =>
      rcases h.clock hFair with hRest | ⟨_, hOpen⟩
      · exact .resting hRest
      · exact .opening hOpen
  | opening h =>
      rcases h.clock hFair with ⟨_, hOpen⟩ | ⟨_, hPay⟩
      · exact .opening hOpen
      · exact .paying hPay
  | paying h =>
      rcases h.clock hFair with ⟨_, hPay⟩ | ⟨_, hPay | ⟨_, hClose⟩⟩
      · exact .paying hPay
      · exact .paying hPay
      · exact .closing hClose
  | closing h =>
      rcases h.clock hFair with ⟨_, hClose⟩ | ⟨_, hRest⟩
      · exact .closing hClose
      · exact .resting hRest

end Run

section Framing

/-- One address, `awlen + 1` beats, and the last flag on the last beat alone. -/
def Burst.Framed (burst : Burst) : Prop :=
  ∃ addr awlen, burst.aw = [(addr, awlen)] ∧ burst.w.length = awlen.toNat + 1 ∧
    burst.w.map Prod.snd = List.replicate awlen.toNat false ++ [true]

/-- The beats of a burst with the byte addresses they go to. -/
def Burst.writes (burst : Burst) : List (Nat × BitVec 64) :=
  burst.w.zipIdx.map fun beat =>
    ((burst.aw.head?.map Prod.fst).getD 0 + beatBytes * beat.2, beat.1.1)

/-- The memory after the beats of all bursts have landed in order. -/
def Memory.applyBursts (mem : Memory) (bursts : List Burst) : Memory :=
  (bursts.flatMap Burst.writes).foldl (fun mem write => mem.writeBeat write.1 write.2) mem

/-- What `decode` loads, before scaling, through the C++ offsets. -/
def decodeWords (axes base : Nat) (mem : Memory) : Export axes where
  stamp := mem.window base StateAbi.stampWord
  snapshot :=
    { pos := fun k => mem.window base (StateAbi.axisWord k StateAbi.posOff)
      vel := fun k => mem.window base (StateAbi.axisWord k StateAbi.velOff)
      setp := fun k => mem.window base (StateAbi.axisWord k StateAbi.setpOff)
      setv := fun k => mem.window base (StateAbi.axisWord k StateAbi.setvOff) }

variable (cfg : ExportConfig)

/-- Both words of payload beat `g` are in memory. -/
def HoldsBeat (mem : Memory) (sent : Export cfg.axes) (g : Nat) : Prop :=
  mem (cfg.baseAddr + (payloadOff + beatBytes * g)) = (sent.beat g).extractLsb' 0 32 ∧
    mem (cfg.baseAddr + (payloadOff + beatBytes * g) + 4) = (sent.beat g).extractLsb' 32 32

variable {cfg}

theorem Export.beat_pos_vel (sent : Export cfg.axes) (k : Fin cfg.axes) :
    sent.beat (2 * k + 1) = sent.snapshot.vel k ++ sent.snapshot.pos k := by
  simp [Export.beat]

theorem Export.beat_setp_setv (sent : Export cfg.axes) (k : Fin cfg.axes) :
    sent.beat (2 * k + 2) = sent.snapshot.setv k ++ sent.snapshot.setp k := by
  have hAxis : (2 * k.val + 1) / 2 = k := by omega
  simp [Export.beat, hAxis]

theorem decodeWords_stamp {mem : Memory} {sent : Export cfg.axes} (h : HoldsBeat cfg mem sent 0) :
    (decodeWords cfg.axes cfg.baseAddr mem).stamp = sent.stamp := by
  refine h.1.trans ?_
  rw [Export.beat, if_pos rfl]
  exact BitVec.extractLsb'_append_eq_right

theorem decodeWords_snapshot {mem : Memory} {sent : Export cfg.axes}
    (h : ∀ g, 0 < g → g ≤ 2 * cfg.axes → HoldsBeat cfg mem sent g) :
    (decodeWords cfg.axes cfg.baseAddr mem).snapshot = sent.snapshot := by
  have hFirst : ∀ k : Fin cfg.axes,
      mem (cfg.baseAddr + (40 + 16 * k)) = sent.snapshot.pos k ∧
        mem (cfg.baseAddr + (44 + 16 * k)) = sent.snapshot.vel k := by
    intro k
    obtain ⟨hLow, hHigh⟩ := h (2 * k + 1) (by omega) (by omega)
    rw [Export.beat_pos_vel] at hLow hHigh
    refine ⟨?_, ?_⟩
    · rw [← BitVec.extractLsb'_append_eq_right (a := sent.snapshot.vel k)
        (b := sent.snapshot.pos k), ← hLow]
      simp only [payloadOff, lineBytes, beatBytes]
      congr 1
      omega
    · rw [← BitVec.extractLsb'_append_eq_left (a := sent.snapshot.vel k)
        (b := sent.snapshot.pos k), ← hHigh]
      simp only [payloadOff, lineBytes, beatBytes]
      congr 1
      omega
  have hSecond : ∀ k : Fin cfg.axes,
      mem (cfg.baseAddr + (48 + 16 * k)) = sent.snapshot.setp k ∧
        mem (cfg.baseAddr + (52 + 16 * k)) = sent.snapshot.setv k := by
    intro k
    obtain ⟨hLow, hHigh⟩ := h (2 * k + 2) (by omega) (by omega)
    rw [Export.beat_setp_setv] at hLow hHigh
    refine ⟨?_, ?_⟩
    · rw [← BitVec.extractLsb'_append_eq_right (a := sent.snapshot.setv k)
        (b := sent.snapshot.setp k), ← hLow]
      simp only [payloadOff, lineBytes, beatBytes]
      congr 1
      omega
    · rw [← BitVec.extractLsb'_append_eq_left (a := sent.snapshot.setv k)
        (b := sent.snapshot.setp k), ← hHigh]
      simp only [payloadOff, lineBytes, beatBytes]
      congr 1
      omega
  have hWindow : ∀ (k : Fin cfg.axes) (fieldOff : Nat), fieldOff % 4 = 0 →
      mem.window cfg.baseAddr (StateAbi.axisWord k fieldOff) =
        mem (cfg.baseAddr + (40 + fieldOff + 16 * k)) := by
    intro k fieldOff hAligned
    rw [Memory.window, StateAbi.wordBytes_mul_axisWord k hAligned]
    congr 1
    omega
  ext1
  · funext k
    exact (hWindow k StateAbi.posOff rfl).trans (hFirst k).1
  · funext k
    exact (hWindow k StateAbi.velOff rfl).trans (hFirst k).2
  · funext k
    exact (hWindow k StateAbi.setpOff rfl).trans (hSecond k).1
  · funext k
    exact (hWindow k StateAbi.setvOff rfl).trans (hSecond k).2

variable (cfg) in
/-- The bursts of one export are well framed, its payload bursts write every beat
of the payload bytes once and nothing else, and the C++ offsets decode the
memory they leave to what was frozen. -/
structure ExportFramed (sent : Export cfg.axes) (bursts : List Burst) : Prop where
  framed : ∀ burst ∈ bursts, burst.Framed
  payload : ∃ opening middle closing, bursts = opening :: middle ++ [closing] ∧
    (middle.flatMap Burst.writes).map Prod.fst =
      (List.range ((StateAbi.bufferBytes cfg.axes - StateAbi.payloadOff) / StateAbi.beatBytes)).map
        fun g => cfg.baseAddr + (StateAbi.payloadOff + StateAbi.beatBytes * g)
  decodes : ∀ mem : Memory,
    decodeWords cfg.axes cfg.baseAddr (mem.applyBursts bursts) = sent

/-- Each burst is answered before the next one begins: what the channels carry is
always the beginning of the next burst of `all`. -/
def OneAfterAnother (bus : ExportBus cfg) (all : List Burst) : Prop :=
  if bus.device.state = .idle then bus.finished = all ∧ bus.current = ⟨[], []⟩
  else ∃ next, bus.finished ++ [next] <+: all ∧ bus.current.aw <+: next.aw ∧
    bus.current.w <+: next.w

/-- What the channels carry is the beginning of the burst of the current state. -/
theorem InBurst.prefix_framedBurst {bus : ExportBus cfg} (h : InBurst bus) :
    bus.current.aw <+: (framedBurst (bus.device.mstAddr cfg) (bus.device.burstBeats cfg)
        bus.device.beatData).aw ∧
      bus.current.w <+: (framedBurst (bus.device.mstAddr cfg) (bus.device.burstBeats cfg)
        bus.device.beatData).w := by
  rcases h with ⟨_, _, hQuiet⟩ | hRunning
  · rw [hQuiet.current]
    exact ⟨ List.nil_prefix, List.nil_prefix⟩
  · refine ⟨?_, ?_⟩
    · rw [hRunning.aw]
      split_ifs
      · exact List.nil_prefix
      · exact List.prefix_refl _
    · obtain ⟨rest, hRest⟩ := Nat.exists_eq_add_of_le hRunning.beat_le
      rw [hRunning.w, framedBurst, hRest, List.range_add, List.map_append]
      exact List.prefix_append _ _

/-- One axis in bursts of up to sixteen beats. -/
def oneAxis : ExportConfig where
  baseAddr := 0x3FFF0000
  axes := 1
  chunk := 16
  axes_pos := Nat.one_pos
  seqBeats_le_chunk := by decide
  chunk_le := by decide

def oneAxisSnapshot (word : Word) : Snapshot oneAxis.axes :=
  ⟨fun _ => word, fun _ => word + 1, fun _ => word + 2, fun _ => word + 3⟩

/-- A clock of a slave that accepts everything at once and answers when `bvalid`. -/
def readyInput (tick bvalid : Bool) : ExportInput oneAxis.axes :=
  ⟨false, tick, true, true, oneAxisSnapshot 7, true, true, bvalid, 0⟩

/-- One export: three bursts of one cache line each. -/
def oneExport : List (ExportInput oneAxis.axes) :=
  readyInput true false :: List.replicate 5 (readyInput false false) ++ [readyInput false true] ++
    List.replicate 5 (readyInput false false) ++ [readyInput false true] ++
    List.replicate 5 (readyInput false false) ++ [readyInput false true]

end Framing

end Lqr
