import Mathlib.Logic.Function.Basic
import Mathlib.Data.List.Basic
import Mathlib.Tactic.SplitIfs

/-! Partition of the L2 cache between its masters. The lockdown registers are written one master
after another, the ones of the ACP are read back, and a mismatch withdraws the ACP's masks. -/
namespace Kernel

def l2x0NumMasters : Int := 8

def l2x0WayMask : BitVec 32 := 0xFF

def EINVAL : Int := 22
def ENOMEM : Int := 12
def EIO : Int := 5

def l2x0LockdownD (n : Int) : Nat := 0x900 + 8 * n.toNat

def l2x0LockdownI (n : Int) : Nat := 0x904 + 8 * n.toNat

/-- The parameters of the module. `cpuIndices` is the given part of the array. -/
structure Params where
  acpIndex : Int
  cpuIndices : List Int
  acpMask : BitVec 32
  cpuMask : BitVec 32
  cpuCount : (cpuIndices.length : Int) ≤ l2x0NumMasters
deriving DecidableEq

/-- The values the module is loaded with by default. -/
def Params.default : Params where
  acpIndex := 1
  cpuIndices := [0]
  acpMask := 0x7F
  cpuMask := 0x80
  cpuCount := by decide

/-- What each lockdown register holds, by its offset. -/
abbrev Registers := Nat → BitVec 32

/-- How the cache controller answers: which bits of a register a write reaches, none for one that
drops the write, and what a read returns for what the register holds. -/
structure Controller where
  writable : Nat → BitVec 32
  readback : Nat → BitVec 32 → BitVec 32

section Module

variable (hw : Controller)

/-- What a register holds after `mask` is written over `held`. -/
def Controller.taken (register : Nat) (held mask : BitVec 32) : BitVec 32 :=
  (held &&& ~~~hw.writable register) ||| (mask &&& hw.writable register)

def Controller.writel (mask : BitVec 32) (register : Nat) (registers : Registers) : Registers :=
  Function.update registers register (hw.taken register (registers register) mask)

def Controller.readl (register : Nat) (registers : Registers) : BitVec 32 :=
  hw.readback register (registers register)

def setMaster (idx : Int) (mask : BitVec 32) (registers : Registers) : Registers :=
  hw.writel mask (l2x0LockdownI idx) (hw.writel mask (l2x0LockdownD idx) registers)

/-- The loop over the CPU masters. -/
def setMasters (indices : List Int) (mask : BitVec 32) (registers : Registers) : Registers :=
  indices.foldl (fun registers idx => setMaster hw idx mask registers) registers

def outOfRange (idx : Int) : Bool := idx < 0 || l2x0NumMasters ≤ idx

/-- `l2_lockdown_init`: its result and the registers it leaves. `mapped` says whether `ioremap`
succeeds. -/
def l2LockdownInit (params : Params) (mapped : Bool) (registers : Registers) : Int × Registers :=
  if outOfRange params.acpIndex then (-EINVAL, registers)
  else if params.acpMask &&& ~~~l2x0WayMask ≠ 0 ∨ params.cpuMask &&& ~~~l2x0WayMask ≠ 0 then
    (-EINVAL, registers)
  else if params.cpuIndices.any outOfRange then (-EINVAL, registers)
  else if !mapped then (-ENOMEM, registers)
  else
    let locked := setMasters hw params.cpuIndices params.cpuMask registers
    let locked := setMaster hw params.acpIndex params.acpMask locked
    let d := hw.readl (l2x0LockdownD params.acpIndex) locked &&& l2x0WayMask
    let i2 := hw.readl (l2x0LockdownI params.acpIndex) locked &&& l2x0WayMask
    if d ≠ params.acpMask ∨ i2 ≠ params.acpMask then
      (- EIO, setMaster hw params.acpIndex 0 locked)
    else (0, locked)

/-- `l2_lockdown_exit`. The read that flushes the writes changes nothing. -/
def l2LockdownExit (params : Params) (registers : Registers) : Registers :=
  setMasters hw params.cpuIndices 0 (setMaster hw params.acpIndex 0 registers)

end Module

section Writes

variable (hw : Controller)

/-- The two registers of a master. -/
def masterRegisters (idx : Int) : List Nat := [l2x0LockdownD idx, l2x0LockdownI idx]

theorem eq_of_mem_masterRegisters {i j : Int} {register : Nat} (hi : outOfRange i = false)
    (hj : outOfRange j = false) (hMem : register ∈ masterRegisters i)
    (hOther : register ∈ masterRegisters j) : i = j := by
  simp only [outOfRange, l2x0NumMasters, Bool.or_eq_false_iff, decide_eq_false_iff_not] at hi hj
  simp only [masterRegisters, l2x0LockdownD, l2x0LockdownI, List.mem_cons, List.not_mem_nil,
    or_false] at hMem hOther
  omega

theorem taken_taken (register : Nat) (held first second : BitVec 32) :
    hw.taken register (hw.taken register held first) second = hw.taken register held second := by
  apply BitVec.eq_of_getLsbD_eq
  intro i hi
  simp only [Controller.taken, BitVec.getLsbD_or, BitVec.getLsbD_and, BitVec.getLsbD_not, hi,
    decide_true, Bool.true_and]
  cases (hw.writable register).getLsbD i <;> simp

theorem setMaster_apply (idx : Int) (mask : BitVec 32) (registers : Registers) (register : Nat) :
    setMaster hw idx mask registers register =
      if register ∈ masterRegisters idx then hw.taken register (registers register) mask
      else registers register := by
  have hNe : l2x0LockdownI idx ≠ l2x0LockdownD idx := by
    unfold l2x0LockdownI l2x0LockdownD
    omega
  by_cases hD : register = l2x0LockdownD idx
  · subst hD
    simp [setMaster, Controller.writel, masterRegisters, Function.update_of_ne hNe.symm]
  · by_cases hI : register = l2x0LockdownI idx
    · subst hI
      simp [setMaster, Controller.writel, masterRegisters, Function.update_of_ne hNe]
    · simp [setMaster, Controller.writel, masterRegisters, hD, hI]

/-- A register written more than once takes the same mask each time. -/
theorem setMasters_apply (indices : List Int) (mask : BitVec 32) (registers : Registers)
    (register : Nat) :
    setMasters hw indices mask registers register =
      if ∃ idx ∈ indices, register ∈ masterRegisters idx then
        hw.taken register (registers register) mask
      else registers register := by
  induction indices generalizing registers with
  | nil => simp [setMasters]
  | cons idx rest ih =>
      have hRest := ih (setMaster hw idx mask registers)
      rw [setMasters] at hRest
      rw [setMasters, List.foldl_cons, hRest, setMaster_apply]
      by_cases hHead : register ∈ masterRegisters idx
      · simp [hHead, taken_taken]
      · simp [hHead]

end Writes

section AllOrNothing

variable (hw : Controller) (params : Params)

/-- Every lockdown register that the module writes. -/
def Touched (register : Nat) : Prop :=
  register ∈ masterRegisters params.acpIndex ∨
    ∃ idx ∈ params.cpuIndices, register ∈ masterRegisters idx

instance (register : Nat) : Decidable (Touched params register) :=
  inferInstanceAs (Decidable (_ ∨ _))

/-- Exactly the requested masks are in force. -/
def InForce (registers : Registers) : Prop :=
  (∀ register ∈ masterRegisters params.acpIndex, registers register = params.acpMask) ∧
    ∀ idx ∈ params.cpuIndices, ∀ register ∈ masterRegisters idx,
      registers register = params.cpuMask

/-- An init that fails leaves no way locked that was not locked before. One that succeeds has put
the masks in force, and the exit removes them and nothing else. -/
def AllOrNothing (mapped : Bool) (before : Registers) : Prop :=
  let result := l2LockdownInit hw params mapped before
  (result.1 ≠ 0 → ∀ register, Touched params register →
      result.2 register &&& ~~~before register = 0) ∧
    (result.1 = 0 → InForce params result.2 ∧ l2LockdownExit hw params result.2 =
      fun register => if Touched params register then 0 else before register)

/-- The checks before the first register is written. -/
def Params.Accepted : Prop :=
  outOfRange params.acpIndex = false ∧ params.acpMask &&& ~~~l2x0WayMask = 0 ∧
    params.cpuMask &&& ~~~l2x0WayMask = 0 ∧ ∀ idx ∈ params.cpuIndices, outOfRange idx = false

/-- The ACP's registers read as the mask after it is written to them. -/
def ReadsBack (before : Registers) : Prop :=
  ∀ register ∈ masterRegisters params.acpIndex,
    hw.readback register (hw.taken register (before register) params.acpMask) &&& l2x0WayMask =
      params.acpMask

/-- The register takes the whole mask, and held no bit that a write cannot clear. -/
def TakesWhole (before : Registers) (register : Nat) (mask : BitVec 32) : Prop :=
  (mask ||| before register) &&& ~~~hw.writable register = 0

theorem takesWhole_iff (before : Registers) (register : Nat) (mask : BitVec 32) :
    TakesWhole hw before register mask ↔
      hw.taken register (before register) mask = mask ∧ hw.taken register mask 0 = 0 := by
  simp only [TakesWhole, Controller.taken, BitVec.eq_of_getLsbD_eq_iff, BitVec.getLsbD_or,
    BitVec.getLsbD_and, BitVec.getLsbD_not, ← forall_and]
  refine forall_congr' fun i => ?_
  by_cases hi : i < 32
  · simp only [hi, decide_true, Bool.true_and]
    cases (hw.writable register).getLsbD i <;> cases mask.getLsbD i <;>
      cases (before register).getLsbD i <;> simp
  · simp [hi]

/-- What a write locks anew is the part of the mask that reaches the register. -/
theorem newly_locked_eq (register : Nat) (held mask : BitVec 32) :
    hw.taken register held mask &&& ~~~held = mask &&& hw.writable register &&& ~~~held := by
  apply BitVec.eq_of_getLsbD_eq
  intro i hi
  simp only [Controller.taken, BitVec.getLsbD_or, BitVec.getLsbD_and, BitVec.getLsbD_not, hi,
    decide_true, Bool.true_and]
  cases held.getLsbD i <;> simp

variable {params}

/-- The registers after both loops: the ACP's mask where an index is given twice. -/
theorem locked_apply (before : Registers) (register : Nat) :
    setMaster hw params.acpIndex params.acpMask
        (setMasters hw params.cpuIndices params.cpuMask before) register =
      if register ∈ masterRegisters params.acpIndex then
        hw.taken register (before register) params.acpMask
      else if Touched params register then hw.taken register (before register) params.cpuMask
      else before register := by
  rw [setMaster_apply, setMasters_apply]
  by_cases hAcp : register ∈ masterRegisters params.acpIndex
  · by_cases hCpu : ∃ idx ∈ params.cpuIndices, register ∈ masterRegisters idx
    · rw [if_pos hAcp, if_pos hCpu, if_pos hAcp, taken_taken]
    · rw [if_pos hAcp, if_neg hCpu, if_pos hAcp]
  · simp [hAcp, Touched]

theorem exit_apply (registers : Registers) (register : Nat) :
    l2LockdownExit hw params registers register =
      if Touched params register then hw.taken register (registers register) 0
      else registers register := by
  rw [l2LockdownExit, setMasters_apply, setMaster_apply]
  by_cases hAcp : register ∈ masterRegisters params.acpIndex
  · by_cases hCpu : ∃ idx ∈ params.cpuIndices, register ∈ masterRegisters idx
    · rw [if_pos hCpu, if_pos hAcp, if_pos (.inl hAcp), taken_taken]
    · rw [if_neg hCpu, if_pos hAcp, if_pos (.inl hAcp)]
  · simp [hAcp, Touched]

theorem init_of_rejected {mapped : Bool} (before : Registers)
    (hRejected : ¬(params.Accepted ∧ mapped = true)) :
    (l2LockdownInit hw params mapped before).1 ≠ 0 ∧
      (l2LockdownInit hw params mapped before).2 = before := by
  unfold l2LockdownInit
  split_ifs with hAcp hMask hCpu hMapped
  · exact ⟨by simp [EINVAL], rfl⟩
  · exact ⟨by simp [EINVAL], rfl⟩
  · exact ⟨by simp [EINVAL], rfl⟩
  · exact ⟨by simp [ENOMEM], rfl⟩
  all_goals
    refine absurd ⟨⟨by simpa using hAcp, ?_, ?_, ?_⟩, by simpa using hMapped⟩ hRejected
    · exact not_not.mp (not_or.mp hMask).1
    · exact not_not.mp (not_or.mp hMask).2
    · simpa using hCpu

theorem init_of_accepted (before : Registers) (hAccepted : params.Accepted) :
    l2LockdownInit hw params true before =
      let locked := setMaster hw params.acpIndex params.acpMask
        (setMasters hw params.cpuIndices params.cpuMask before)
      if hw.readl (l2x0LockdownD params.acpIndex) locked &&& l2x0WayMask ≠ params.acpMask ∨
          hw.readl (l2x0LockdownI params.acpIndex) locked &&& l2x0WayMask ≠ params.acpMask then
        (- EIO, setMaster hw params.acpIndex 0 locked)
      else (0, locked) := by
  obtain ⟨hAcp, hAcpMask, hCpuMask, hCpu⟩ := hAccepted
  have hAny : params.cpuIndices.any outOfRange = false := by simpa using hCpu
  simp [l2LockdownInit, hAcp, hAcpMask, hCpuMask, hAny]

theorem readsBack_iff (before : Registers) :
    ReadsBack hw params before ↔
      let locked := setMaster hw params.acpIndex params.acpMask
        (setMasters hw params.cpuIndices params.cpuMask before)
      ¬(hw.readl (l2x0LockdownD params.acpIndex) locked &&& l2x0WayMask ≠ params.acpMask ∨
        hw.readl (l2x0LockdownI params.acpIndex) locked &&& l2x0WayMask ≠ params.acpMask) := by
  have hD : l2x0LockdownD params.acpIndex ∈ masterRegisters params.acpIndex := by
    simp [masterRegisters]
  have hI : l2x0LockdownI params.acpIndex ∈ masterRegisters params.acpIndex := by
    simp [masterRegisters]
  simp only [Controller.readl, locked_apply hw, if_pos hD, if_pos hI, not_or, not_not]
  simp [ReadsBack, masterRegisters]

/-- What must hold of the controller and the parameters once they are accepted: where the readback
agrees, every register took its whole mask and no register was given two; where it does not, no
write locked a CPU master that the ACP's own reset does not reach. -/
def WholeOrUnlocked (params : Params) (before : Registers) : Prop :=
  (ReadsBack hw params before →
      (∀ register ∈ masterRegisters params.acpIndex,
          TakesWhole hw before register params.acpMask) ∧
        (∀ idx ∈ params.cpuIndices, ∀ register ∈ masterRegisters idx,
          TakesWhole hw before register params.cpuMask) ∧
        (params.acpIndex ∈ params.cpuIndices → params.cpuMask = params.acpMask)) ∧
    (¬ReadsBack hw params before →
      ∀ idx ∈ params.cpuIndices, idx ≠ params.acpIndex → ∀ register ∈ masterRegisters idx,
        params.cpuMask &&& hw.writable register &&& ~~~before register = 0)

/-- A CPU register that is not the ACP's belongs to another index. -/
theorem not_mem_acp_iff {idx : Int} {register : Nat} (hAccepted : params.Accepted)
    (hIdx : idx ∈ params.cpuIndices) (hRegister : register ∈ masterRegisters idx) :
    register ∉ masterRegisters params.acpIndex ↔ idx ≠ params.acpIndex := by
  refine not_congr ⟨fun hAcp => ?_, fun hSame => hSame ▸ hRegister⟩
  exact eq_of_mem_masterRegisters (hAccepted.2.2.2 idx hIdx) hAccepted.1 hRegister hAcp

theorem failed_iff (before : Registers) (hAccepted : params.Accepted) :
    (∀ register, Touched params register →
        setMaster hw params.acpIndex 0 (setMaster hw params.acpIndex params.acpMask
          (setMasters hw params.cpuIndices params.cpuMask before)) register &&&
            ~~~before register = 0) ↔
      ∀ idx ∈ params.cpuIndices, idx ≠ params.acpIndex → ∀ register ∈ masterRegisters idx,
        params.cpuMask &&& hw.writable register &&& ~~~before register = 0 := by
  constructor
  · intro hUnlocked idx hIdx hNe register hRegister
    have hOwn := (not_mem_acp_iff hAccepted hIdx hRegister).mpr hNe
    have hTouched : Touched params register := .inr ⟨idx, hIdx, hRegister⟩
    have := hUnlocked register hTouched
    rwa [setMaster_apply, if_neg hOwn, locked_apply, if_neg hOwn, if_pos hTouched,
      newly_locked_eq] at this
  · intro hUnlocked register hTouched
    rw [setMaster_apply]
    by_cases hAcp : register ∈ masterRegisters params.acpIndex
    · rw [if_pos hAcp, locked_apply, if_pos hAcp, taken_taken, newly_locked_eq]
      simp
    · rw [if_neg hAcp, locked_apply, if_neg hAcp, if_pos hTouched, newly_locked_eq]
      obtain ⟨idx, hIdx, hRegister⟩ := hTouched.resolve_left hAcp
      exact hUnlocked idx hIdx ((not_mem_acp_iff hAccepted hIdx hRegister).mp hAcp) register
        hRegister

/-- A passing readback vouches for the ACP only. -/
theorem succeeded_iff (before : Registers) (hAccepted : params.Accepted) :
    (InForce params (setMaster hw params.acpIndex params.acpMask
          (setMasters hw params.cpuIndices params.cpuMask before)) ∧
        l2LockdownExit hw params (setMaster hw params.acpIndex params.acpMask
          (setMasters hw params.cpuIndices params.cpuMask before)) =
            fun register => if Touched params register then 0 else before register) ↔
      (∀ register ∈ masterRegisters params.acpIndex,
          TakesWhole hw before register params.acpMask) ∧
        (∀ idx ∈ params.cpuIndices, ∀ register ∈ masterRegisters idx,
          TakesWhole hw before register params.cpuMask) ∧
        (params.acpIndex ∈ params.cpuIndices → params.cpuMask = params.acpMask) := by
  constructor
  · rintro ⟨⟨hAcp, hCpu⟩, hExit⟩
    have hSame : params.acpIndex ∈ params.cpuIndices → params.cpuMask = params.acpMask := by
      intro hMem
      have hD : l2x0LockdownD params.acpIndex ∈ masterRegisters params.acpIndex := by
        simp [masterRegisters]
      rw [← hCpu _ hMem _ hD, hAcp _ hD]
    have hAcpTakes : ∀ register ∈ masterRegisters params.acpIndex,
        TakesWhole hw before register params.acpMask := by
      intro register hRegister
      have hForce := hAcp register hRegister
      have hClear := congrFun hExit register
      rw [exit_apply, if_pos (.inl hRegister), if_pos (.inl hRegister), hForce] at hClear
      rw [locked_apply, if_pos hRegister] at hForce
      exact (takesWhole_iff hw before register _).mpr ⟨hForce, hClear⟩
    refine ⟨hAcpTakes, fun idx hIdx register hRegister => ?_, hSame⟩
    by_cases hOwn : register ∈ masterRegisters params.acpIndex
    · have hIndex : idx = params.acpIndex := by
        by_contra hNe
        exact (not_mem_acp_iff hAccepted hIdx hRegister).mpr hNe hOwn
      rw [hSame (hIndex ▸ hIdx)]
      exact hAcpTakes register hOwn
    · have hTouched : Touched params register := .inr ⟨idx, hIdx, hRegister⟩
      have hForce := hCpu idx hIdx register hRegister
      have hClear := congrFun hExit register
      rw [exit_apply, if_pos hTouched, if_pos hTouched, hForce] at hClear
      rw [locked_apply, if_neg hOwn, if_pos hTouched] at hForce
      exact (takesWhole_iff hw before register _).mpr ⟨hForce, hClear⟩
  · rintro ⟨hAcp, hCpu, hSame⟩
    have hAcpForce : ∀ register ∈ masterRegisters params.acpIndex,
        hw.taken register (before register) params.acpMask = params.acpMask ∧
          hw.taken register params.acpMask 0 = 0 :=
      fun register hRegister => (takesWhole_iff hw before register _).mp (hAcp register hRegister)
    have hCpuForce : ∀ idx ∈ params.cpuIndices, ∀ register ∈ masterRegisters idx,
        hw.taken register (before register) params.cpuMask = params.cpuMask ∧
          hw.taken register params.cpuMask 0 = 0 :=
      fun idx hIdx register hRegister =>
        (takesWhole_iff hw before register _).mp (hCpu idx hIdx register hRegister)
    refine ⟨⟨fun register hRegister => ?_, fun idx hIdx register hRegister => ?_⟩, ?_⟩
    · rw [locked_apply, if_pos hRegister, (hAcpForce register hRegister).1]
    · by_cases hOwn : register ∈ masterRegisters params.acpIndex
      · have hIndex : idx = params.acpIndex := by
          by_contra hNe
          exact (not_mem_acp_iff hAccepted hIdx hRegister).mpr hNe hOwn
        rw [locked_apply, if_pos hOwn, (hAcpForce register hOwn).1, hSame (hIndex ▸ hIdx)]
      · rw [locked_apply, if_neg hOwn, if_pos (.inr ⟨idx, hIdx, hRegister⟩),
          (hCpuForce idx hIdx register hRegister).1]
    · funext register
      rw [exit_apply]
      by_cases hTouched : Touched params register
      · rw [if_pos hTouched, if_pos hTouched, locked_apply]
        by_cases hOwn : register ∈ masterRegisters params.acpIndex
        · rw [if_pos hOwn, (hAcpForce register hOwn).1, (hAcpForce register hOwn).2]
        · obtain ⟨idx, hIdx, hRegister⟩ := hTouched.resolve_left hOwn
          rw [if_neg hOwn, if_pos hTouched, (hCpuForce idx hIdx register hRegister).1,
            (hCpuForce idx hIdx register hRegister).2]
      · rw [if_neg hTouched, if_neg hTouched, locked_apply, if_neg fun h => hTouched (.inl h),
          if_neg hTouched]

/-- The lockdown is all or nothing exactly where it writes nothing, or the readback of the ACP
speaks for every register. -/
theorem lockdown_all_or_nothing_iff (params : Params) (mapped : Bool) (before : Registers) :
    AllOrNothing hw params mapped before ↔
      (params.Accepted → mapped = true → WholeOrUnlocked hw params before) := by
  by_cases hRun : params.Accepted ∧ mapped = true
  · obtain ⟨hAccepted, rfl⟩ := hRun
    have hInit := init_of_accepted hw before hAccepted
    by_cases hRead : ReadsBack hw params before
    · rw [if_neg ((readsBack_iff hw before).mp hRead)] at hInit
      have hSuccess := succeeded_iff hw before hAccepted
      simp only [AllOrNothing, hInit, ne_eq, not_true, false_imp_iff, true_imp_iff, true_and,
        hSuccess, WholeOrUnlocked, hRead, hAccepted, and_true]
    · rw [if_pos (not_not.mp (mt (readsBack_iff hw before).mpr hRead))] at hInit
      have hFailure := failed_iff hw before hAccepted
      have hCode : (- EIO : Int) ≠ 0 := by decide
      simp only [AllOrNothing, hInit, hCode, ne_eq, not_false_iff, false_imp_iff, true_imp_iff,
        and_true, hFailure, WholeOrUnlocked, hRead, hAccepted, true_and]
  · obtain ⟨hCode, hSame⟩ := init_of_rejected hw before hRun
    refine ⟨fun _ hAccepted hMapped => absurd ⟨hAccepted, hMapped⟩ hRun, fun _ => ?_⟩
    exact ⟨fun _ register _ => by rw [hSame]; simp, fun hZero => absurd hZero hCode⟩

/-- A controller without lockdown by master has only the first pair of registers; the others read
as zero and ignore writes. -/
def onePairController : Controller where
  writable register := if register ∈ masterRegisters 0 then 0xFFFF else 0
  readback _ held := held

/-- The ACP's registers refuse the mask, and the CPUs stay locked out of way 7. -/
theorem lockdown_half_applied :
    ¬∀ (hw : Controller) (params : Params) (mapped : Bool) (before : Registers),
      AllOrNothing hw params mapped before := by
  intro hAll
  have hNothing := (hAll onePairController .default true fun _ => 0).1 (by decide)
  exact absurd (hNothing 0x900 (by decide)) (by decide)

end AllOrNothing

end Kernel
