import Mathlib.Order.Nat

/-! The write master of the DMA engine: one address and one burst of data for each start. -/
namespace Fpga.AxiWriteMaster

structure State where
  awvalid : Bool
  wvalid : Bool
  wlenCount : Nat
  deriving DecidableEq

/-- The inputs at one clock edge. The burst length is one of five bits. -/
structure Ports where
  reset : Bool
  burstLen : Nat
  dmaStart : Bool
  awready : Bool
  wready : Bool

def State.idle : State := ⟨false, false, 0⟩

/-- `axi_burst_len`: the number of beats less one. -/
def axiBurstLen (p : Ports) : Nat := (p.burstLen + 31) % 32

def awlen (p : Ports) : Nat := axiBurstLen p % 16

def wnext (s : State) (p : Ports) : Bool := p.wready && s.wvalid

def wlast (s : State) (p : Ports) : Bool := s.wlenCount == axiBurstLen p && wnext s p

/-- One rising clock edge. -/
def step (s : State) (p : Ports) : State where
  awvalid :=
    if p.reset then false
    else if p.awready && s.awvalid then false
    else if p.dmaStart then true
    else s.awvalid
  wvalid :=
    if p.reset then false
    else if wnext s p && wlast s p then false
    else if p.dmaStart then true
    else s.wvalid
  wlenCount :=
    if p.reset || wlast s p then 0
    else if wnext s p then (s.wlenCount + 1) % 32
    else s.wlenCount

end Fpga.AxiWriteMaster
