import PandaBridge.Clocked.Run

/-! The ring table of the sequencer: the frames of its table in a memory, one of them on show. -/
namespace Fpga

/-- `seq_t`. -/
structure SeqFrame where
  repeats : BitVec 16
  trigger : BitVec 4
  out1 : BitVec 6
  out2 : BitVec 6
  position : BitVec 32
  time1 : BitVec 32
  time2 : BitVec 32
  deriving DecidableEq

/-- `ZERO_SEQ_FRAME`. -/
def SeqFrame.zero : SeqFrame := ⟨0, 0, 0, 0, 0, 0, 0⟩

namespace SequencerRingTable

structure State (aw : Nat) where
  mem : BitVec aw → BitVec 129
  seqDout : BitVec 129
  dataSr : BitVec 96
  waddr : BitVec (aw + 2)
  raddr : BitVec aw
  frameValidO : Bool
  dataReadyO : Bool

structure Ports where
  reset : Bool
  frameReady : Bool
  wrappingMode : Bool
  data : BitVec 32
  dataLast : Bool
  dataValid : Bool

variable {aw : Nat}

def State.boot (aw : Nat) : State aw := ⟨fun _ => 0, 0, 0, 0, 0, false, false⟩

/-- The place of a word address, `waddr(AW+1 downto 2)`. -/
def place (waddr : BitVec (aw + 2)) : BitVec aw := waddr.extractLsb' 2 aw

/-- The fields of a word of the memory. -/
def frameOf (word : BitVec 129) : SeqFrame where
  repeats := word.extractLsb' 0 16
  trigger := word.extractLsb' 16 4
  out1 := word.extractLsb' 20 6
  out2 := word.extractLsb' 26 6
  position := word.extractLsb' 32 32
  time1 := word.extractLsb' 64 32
  time2 := word.extractLsb' 96 32

def frameO (s : State aw) : SeqFrame := frameOf s.seqDout

def lastOf (word : BitVec 129) : Bool := word.getLsbD 128

def frameLastO (s : State aw) : Bool := lastOf s.seqDout

def writes (s : State aw) (p : Ports) : Bool :=
  !(p.reset && !p.wrappingMode) && (p.dataValid && s.dataReadyO)

def nextWaddr (s : State aw) (p : Ports) : BitVec (aw + 2) :=
  if p.reset && !p.wrappingMode then 0
  else if p.dataValid && s.dataReadyO then s.waddr + 1
  else s.waddr

def nextRaddr (s : State aw) (p : Ports) : BitVec aw :=
  if p.reset then 0
  else if p.frameReady && s.frameValidO then
    if p.wrappingMode && s.raddr + 1 == place (nextWaddr s p) then 0 else s.raddr + 1
  else s.raddr

/-- The four words of a frame are collected in `data_sr`; the last one writes the place. -/
def nextMem (s : State aw) (p : Ports) : BitVec aw → BitVec 129 :=
  if writes s p && s.waddr.extractLsb' 0 2 == 3 then
    fun address =>
      if address = place s.waddr then BitVec.ofBool p.dataLast ++ p.data ++ s.dataSr
      else s.mem address
  else s.mem

/-- One rising clock edge. The place on show is read before the write of the same edge. -/
def step (s : State aw) (p : Ports) : State aw where
  mem := nextMem s p
  seqDout := s.mem (nextRaddr s p)
  dataSr := if writes s p then p.data ++ s.dataSr.extractLsb' 32 64 else s.dataSr
  waddr := nextWaddr s p
  raddr := nextRaddr s p
  frameValidO :=
    if p.wrappingMode then place s.waddr != 0
    else place s.waddr != nextRaddr s p && !p.reset
  dataReadyO := place (nextWaddr s p) + 1 != s.raddr && !p.reset

end SequencerRingTable

end Fpga
