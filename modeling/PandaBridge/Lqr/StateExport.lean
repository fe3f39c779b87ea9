import PandaBridge.Lqr.StateAbi

/-! The state exporter: the seqlock framing of `state_export` over the burst
engine of `acp_write_master`. `step` is one rising clock edge; the signals of
the concurrent assignments are functions of the registers and the inputs. Byte
addresses are natural numbers, since an elaborated design keeps its offsets
inside the 32-bit space. -/
namespace Lqr

open StateAbiPackage

/-- The generics of `state_export` that matter here, in their legal range. -/
structure ExportConfig where
  baseAddr : Nat
  axes : Nat
  chunk : Nat
  axes_pos : 0 < axes
  seqBeats_le_chunk : seqBeats ≤ chunk
  chunk_le : chunk ≤ 16

/-- The words of one snapshot, by axis. -/
@[ext]
structure Snapshot (axes : Nat) where
  pos : Fin axes → Word
  vel : Fin axes → Word
  setp : Fin axes → Word
  setv : Fin axes → Word

/-- What one export sends: its stamp and the frozen snapshot. -/
@[ext]
structure Export (axes : Nat) where
  stamp : Word
  snapshot : Snapshot axes

inductive ExportState
  | idle
  | wrSeqOdd
  | wrPayload
  | wrSeqEven
  deriving DecidableEq

/-- The registers of `acp_write_master`. -/
@[ext]
structure AcpWriteMaster where
  awvalid : Bool
  wvalid : Bool
  wlenCount : BitVec 4

/-- The registers of `state_export` with those of its burst engine. -/
structure StateExport (axes : Nat) where
  state : ExportState
  seq : Word
  stamp : Word
  latched : Snapshot axes
  payPtr : Nat
  burstBeat : Nat
  mstStart : Bool
  master : AcpWriteMaster

/-- The input ports of one clock. -/
structure ExportInput (axes : Nat) where
  init : Bool
  tick : Bool
  exportEn : Bool
  valid : Bool
  snapshot : Snapshot axes
  awready : Bool
  wready : Bool
  bvalid : Bool
  bresp : BitVec 2

namespace AcpWriteMaster

/-- `axi_burst_len`: the beats of the burst less one, in the width of the port. -/
def axiBurstLen (burstLen : BitVec 4) : BitVec 4 := burstLen - 1

/-- `wnext`: a data beat is accepted in this cycle. -/
def wnext (master : AcpWriteMaster) (wready : Bool) : Bool := wready && master.wvalid

def wlast (master : AcpWriteMaster) (burstLen : BitVec 4) (wready : Bool) : Bool :=
  master.wlenCount == axiBurstLen burstLen && master.wnext wready

def step (master : AcpWriteMaster) (init start : Bool) (burstLen : BitVec 4)
    (awready wready : Bool) : AcpWriteMaster where
  awvalid :=
    if init then false
    else if awready && master.awvalid then false
    else if start then true
    else master.awvalid
  wvalid :=
    if init then false
    else if master.wnext wready && master.wlast burstLen wready then false
    else if start then true
    else master.wvalid
  wlenCount :=
    if init || master.wlast burstLen wready then 0
    else if master.wnext wready then master.wlenCount + 1
    else master.wlenCount

end AcpWriteMaster

/-- Beat `g` of the payload: the stamp, then two beats for each axis, then padding. -/
def Export.beat {axes : Nat} (sent : Export axes) (g : Nat) : BitVec 64 :=
  if g = 0 then (0 : Word) ++ sent.stamp
  else
    let a := (g - 1) / 2
    let half := (g - 1) % 2
    if hAxis : a < axes then
      if half = 0 then sent.snapshot.vel ⟨a, hAxis⟩ ++ sent.snapshot.pos ⟨a, hAxis⟩
      else sent.snapshot.setv ⟨a, hAxis⟩ ++ sent.snapshot.setp ⟨a, hAxis⟩
    else 0

/-- Beat `j` of the line that holds the sequence word alone. -/
def seqBeat (seq : Word) (j : Nat) : BitVec 64 := if j = 0 then (0 : Word) ++ seq else 0

namespace ExportConfig

variable (cfg : ExportConfig)

/-- `PAY_BEATS`. -/
def payBeats : Nat := payloadBeats cfg.axes

/-- `chunk_beats`: the beats of the payload burst that starts at `payPtr`. -/
def chunkBeats (payPtr : Nat) : Nat :=
  let remain := cfg.payBeats - payPtr
  if remain < cfg.chunk then remain else cfg.chunk

end ExportConfig

namespace StateExport

variable (cfg : ExportConfig)

def powerUp (latched : Snapshot cfg.axes) : StateExport cfg.axes where
  state := .idle
  seq := 0
  stamp := 0
  latched := latched
  payPtr := 0
  burstBeat := 0
  mstStart := false
  master := { awvalid := false, wvalid := false, wlenCount := 0 }

/-- The beats of the burst that belongs to the current state. -/
def burstBeats (self : StateExport cfg.axes) : Nat :=
  match self.state with
  | .wrPayload => cfg.chunkBeats self.payPtr
  | .wrSeqOdd | .wrSeqEven => seqBeats
  | .idle => 0

/-- `ctrl`: address and length of the current burst. -/
def mstAddr (self : StateExport cfg.axes) : Nat :=
  match self.state with
  | .wrPayload => cfg.baseAddr + (payloadOff + self.payPtr * beatBytes)
  | _ => cfg.baseAddr

def mstBlen (self : StateExport cfg.axes) : BitVec 4 := BitVec.ofNat 4 (self.burstBeats cfg)

/-- `beat_mux`: the data of beat `j` of the current burst. -/
def beatData {axes : Nat} (self : StateExport axes) (j : Nat) : BitVec 64 :=
  match self.state with
  | .wrPayload => (Export.mk self.stamp self.latched).beat (self.payPtr + j)
  | .wrSeqOdd | .wrSeqEven => seqBeat self.seq j
  | .idle => 0

def mstWdata {axes : Nat} (self : StateExport axes) : BitVec 64 := self.beatData self.burstBeat

/-- A tick that is taken: the snapshot freezes in this clock. -/
def launches {axes : Nat} (self : StateExport axes) (input : ExportInput axes) : Bool :=
  !input.init && self.state == .idle && input.tick && input.valid && input.exportEn

/-- The clocked process `fsm` together with the burst engine. The response code
`bresp` reaches `error_o` only; a burst is done when its response arrives. -/
def step (self : StateExport cfg.axes) (input : ExportInput cfg.axes) : StateExport cfg.axes :=
  let wnext := self.master.wnext input.wready
  let done := input.bvalid
  let master :=
    self.master.step input.init self.mstStart (self.mstBlen cfg) input.awready input.wready
  let advanced := if wnext then self.burstBeat + 1 else self.burstBeat
  if input.init then
    { self with state := .idle, seq := 0, stamp := 0, payPtr := 0, burstBeat := 0,
                mstStart := false, master := master }
  else
    match self.state with
    | .idle =>
        if input.tick && input.valid && input.exportEn then
          { state := .wrSeqOdd, seq := self.seq + 1, stamp := self.stamp + 1,
            latched := input.snapshot, payPtr := 0, burstBeat := 0, mstStart := true,
            master := master }
        else { self with burstBeat := advanced, mstStart := false, master := master }
    | .wrSeqOdd =>
        if done then
          { self with state := .wrPayload, burstBeat := 0, mstStart := true, master := master }
        else { self with burstBeat := advanced, mstStart := false, master := master }
    | .wrPayload =>
        if done then
          if cfg.payBeats ≤ self.payPtr + cfg.chunkBeats self.payPtr then
            { self with state := .wrSeqEven, seq := self.seq + 1, burstBeat := 0,
                        mstStart := true, master := master }
          else
            { self with payPtr := self.payPtr + cfg.chunkBeats self.payPtr, burstBeat := 0,
                        mstStart := true, master := master }
        else { self with burstBeat := advanced, mstStart := false, master := master }
    | .wrSeqEven =>
        if done then
          { self with state := .idle, burstBeat := advanced, mstStart := false, master := master }
        else { self with burstBeat := advanced, mstStart := false, master := master }

end StateExport

end Lqr
