import PandaBridge.Concurrent.Logic
import PandaBridge.Lqr.GainBuffer

/-! The publisher and its memory-mapped transport, as the shared accesses they
make. `PublishOutline` is the proof outline of one call: a caller supplies the
assertions in front of each bus access for its own world. -/
namespace Lqr

open Concurrent

/-- The registers of the block that the bridge uses. -/
inductive Reg
  | start
  | data
  | commit
  | gen
  | exportStatus
  deriving DecidableEq

/-- One shared access of the bridge: a register of the block, or one word of the
mapped state window. -/
inductive Access
  | read32 (reg : Reg)
  | write32 (reg : Reg) (value : Word)
  | word (index : Nat)
  | writeWord (index : Nat) (value : Word)
  deriving DecidableEq

@[reducible] def Access.Answer : Access → Type
  | .read32 _ => Word
  | .write32 _ _ => Unit
  | .word _ => Word
  | .writeWord _ _ => Unit

/-- Code over the bridge's accesses. -/
abbrev BridgeCode (Fields : Type) := Code Fields Access Access.Answer

def read32 {Fields : Type} (reg : Reg) : BridgeCode Fields Word := Code.ask (Access.read32 reg)

def write32 {Fields : Type} (reg : Reg) (value : Word) : BridgeCode Fields Unit :=
  Code.ask (Access.write32 reg value)

abbrev Generation := BitVec 32

def kGenWidth : Nat := 16

def kGenMask : Generation := (1 <<< kGenWidth) - 1

/-- A gain frame of `n` words in transfer order. -/
abbrev Frame (n : Nat) := Fin n → Word

inductive Swap
  | confirmed
  | pending
  | reset
  deriving DecidableEq

/-- What one poll of `confirm` concludes: the difference is a 16-bit signed
number, zero when the swap is in and minus one while it is awaited. -/
def Swap.ofPoll (generation expected : Generation) : Swap :=
  let d := ((generation - expected) &&& kGenMask).setWidth 16
  if d.toInt = 0 then .confirmed else if d.toInt ≠ -1 then .reset else .pending

section Generations

theorem toNat_and_kGenMask (value : Generation) :
    (value &&& kGenMask).toNat = value.toNat % 65536 := by
  rw [show kGenMask = 0xFFFF#32 by decide, BitVec.toNat_and]
  exact Nat.and_two_pow_sub_one_eq_mod _ 16

theorem zeroExtend_and_kGenMask (gen : BitVec 16) :
    gen.zeroExtend 32 &&& kGenMask = gen.zeroExtend 32 := by
  apply BitVec.eq_of_toNat_eq
  rw [toNat_and_kGenMask]
  bv_omega

/-- The local count wraps where the hardware counter does. -/
theorem zeroExtend_succ_and_kGenMask (gen : BitVec 16) :
    (gen.zeroExtend 32 + 1) &&& kGenMask = (gen + 1).zeroExtend 32 := by
  apply BitVec.eq_of_toNat_eq
  rw [toNat_and_kGenMask]
  bv_omega

theorem zeroExtend_pred_and_kGenMask (gen : BitVec 16) :
    ((gen + 1).zeroExtend 32 - 1) &&& kGenMask = gen.zeroExtend 32 := by
  apply BitVec.eq_of_toNat_eq
  rw [toNat_and_kGenMask]
  bv_omega

private theorem setWidth_sub_and_kGenMask (gen expected : BitVec 16) :
    ((gen.zeroExtend 32 - expected.zeroExtend 32) &&& kGenMask).setWidth 16 = gen - expected := by
  apply BitVec.eq_of_toNat_eq
  rw [BitVec.toNat_setWidth, toNat_and_kGenMask]
  bv_omega

theorem Swap.ofPoll_zeroExtend (gen expected : BitVec 16) :
    Swap.ofPoll (gen.zeroExtend 32) (expected.zeroExtend 32) =
      if gen = expected then .confirmed else if gen + 1 = expected then .pending else .reset := by
  have hZero : (gen - expected).toInt = 0 ↔ gen = expected := by
    rw [show (0 : Int) = (0 : BitVec 16).toInt by decide, BitVec.toInt_inj]
    bv_omega
  have hMinus : (gen - expected).toInt = -1 ↔ gen + 1 = expected := by
    rw [show (-1 : Int) = (-1 : BitVec 16).toInt by decide, BitVec.toInt_inj]
    bv_omega
  unfold Swap.ofPoll
  simp only [setWidth_sub_and_kGenMask, hZero, hMinus, ne_eq]
  split_ifs <;> rfl

end Generations

/-- What a publisher's log records: the result of a poll, or that the expected
generation was adopted from the hardware again. -/
inductive PublisherEvent
  | polled (swap : Swap)
  | resynced
  deriving DecidableEq

/-- The members of `Publisher` and of the `MmioTransport` it owns. The log is
read by no part of the code. -/
structure Publisher (n : Nat) where
  expected : Generation
  scratch : Frame n
  last : Generation
  pending : Bool
  dropped : Nat
  stalled : Nat
  log : List PublisherEvent

abbrev PublisherCode (n : Nat) := BridgeCode (Publisher n)

namespace MmioTransport

variable {n : Nat}

/-- The constructor seeds the expected generation from the hardware. -/
def seed : PublisherCode n Unit := do
  let value ← read32 .gen
  Code.modify fun self => { self with expected := value &&& kGenMask }

def stage (frame : Frame n) : PublisherCode n Unit := do
  write32 .start 0
  let _ ← Code.forEach (write32 .data) (List.ofFn frame)

def resync : PublisherCode n Unit := do
  let value ← read32 .gen
  Code.modify fun self =>
    { self with expected := value &&& kGenMask, log := self.log ++ [.resynced] }

def commit : PublisherCode n Generation := do
  write32 .commit 0
  Code.modify fun self => { self with expected := (self.expected + 1) &&& kGenMask }
  let self ← Code.get
  pure self.expected

def generation : PublisherCode n Generation := read32 .gen

end MmioTransport

/-- `confirm`: poll until the answer is not `Pending`, at most `maxPolls + 1` times. -/
def confirm {n : Nat} (expected : Generation) : Nat → PublisherCode n Swap
  | 0 => do
      let generation ← MmioTransport.generation
      pure (Swap.ofPoll generation expected)
  | maxPolls + 1 => do
      let generation ← MmioTransport.generation
      match Swap.ofPoll generation expected with
      | .pending => confirm expected maxPolls
      | swap => pure swap

namespace Publisher

variable {n : Nat} {Gains : Type}

def kResyncAfter : Nat := 16

theorem kResyncAfter_pos : 0 < kResyncAfter := by decide

def initial (n : Nat) : Publisher n :=
  { expected := 0, scratch := fun _ => 0, last := 0, pending := false, dropped := 0, stalled := 0,
    log := [] }

/-- The `switch` of `publish` on the previous swap: may this call stage? -/
def backPressure (last : Generation) : PublisherCode n Bool := do
  let swap ← confirm last 0
  Code.modify fun self => { self with log := self.log ++ [.polled swap] }
  match swap with
  | .confirmed =>
      Code.modify fun self => { self with stalled := 0 }
      pure true
  | .reset =>
      MmioTransport.resync
      Code.modify fun self => { self with stalled := 0 }
      pure true
  | .pending =>
      Code.modify fun self => { self with stalled := self.stalled + 1 }
      let self ← Code.get
      if self.stalled < kResyncAfter then
        Code.modify fun self => { self with dropped := self.dropped + 1 }
        pure false
      else
        MmioTransport.resync
        Code.modify fun self => { self with stalled := 0 }
        pure true

/-- The rest of `publish` once the bank is free: quantise, stage and commit. -/
def store (quantiseInto : Gains → Frame n) (gains : Gains) :
    PublisherCode n (Option Generation) := do
  Code.modify fun self => { self with scratch := quantiseInto gains }
  let self ← Code.get
  MmioTransport.stage self.scratch
  let last ← MmioTransport.commit
  Code.modify fun self => { self with last := last, pending := true }
  pure (some last)

/-- `publish`: back-pressure on the previous swap, then stage and commit. A
refused call returns `none`. -/
def publish (quantiseInto : Gains → Frame n) (gains : Gains) :
    PublisherCode n (Option Generation) := do
  let self ← Code.get
  if self.pending then
    let admitted ← backPressure self.last
    if admitted then store quantiseInto gains else pure none
  else store quantiseInto gains

end Publisher

section Outline

variable {n : Nat} {Gains Shared Choice : Type}

/-- Assertions in front of the writes of one call that publishes `frame`, with
what each write has to establish. `fill k` stands after the fill pointer was
reset and `k` words were written. -/
structure StageOutline (world : World Shared Choice Access Access.Answer)
    (guard : Guard Shared (Publisher n) Choice Access) (inv : Shared → Publisher n → Prop)
    (frame : Frame n) (post : Option Generation → Publisher n → Shared → Prop) where
  start : Publisher n → Shared → Prop
  fill : Nat → Publisher n → Shared → Prop
  start_stable : ∀ self, Stable world guard self (start self)
  fill_stable : ∀ k self, Stable world guard self (fill k self)
  start_inv : ∀ self shared, start self shared → inv shared self
  fill_inv : ∀ k self shared, fill k self shared → inv shared self
  start_serve : ∀ self shared choice, start self shared →
    guard shared self (.serve (.write32 .start 0) choice) →
    fill 0 self (world.serve (.write32 .start 0) choice shared).2
  fill_serve : ∀ k (hk : k < n) self shared choice, fill k self shared →
    guard shared self (.serve (.write32 .data (frame ⟨k, hk⟩)) choice) →
    fill (k + 1) self (world.serve (.write32 .data (frame ⟨k, hk⟩)) choice shared).2
  commit_serve : ∀ self shared choice, fill n self shared →
    guard shared self (.serve (.write32 .commit 0) choice) →
    post (some ((self.expected + 1) &&& kGenMask))
      { self with
        expected := (self.expected + 1) &&& kGenMask
        last := (self.expected + 1) &&& kGenMask
        pending := true } (world.serve (.write32 .commit 0) choice shared).2

/-- The outline of a whole `publish` call: `poll` stands before the back-pressure
poll and `adopt` before the read of a resync. -/
structure PublishOutline (world : World Shared Choice Access Access.Answer)
    (guard : Guard Shared (Publisher n) Choice Access) (inv : Shared → Publisher n → Prop)
    (frame : Frame n) (pre : Publisher n → Shared → Prop)
    (post : Option Generation → Publisher n → Shared → Prop)
    extends StageOutline world guard inv frame post where
  poll : Publisher n → Shared → Prop
  adopt : Publisher n → Shared → Prop
  poll_stable : ∀ self, Stable world guard self (poll self)
  adopt_stable : ∀ self, Stable world guard self (adopt self)
  poll_inv : ∀ self shared, poll self shared → inv shared self
  adopt_inv : ∀ self shared, adopt self shared → inv shared self
  enter_poll : ∀ self shared, pre self shared → self.pending = true → poll self shared
  enter_start : ∀ self shared, pre self shared → self.pending = false →
    start { self with scratch := frame } shared
  poll_confirmed : ∀ self shared choice, poll self shared →
    guard shared self (.serve (.read32 .gen) choice) →
    Swap.ofPoll (world.serve (.read32 .gen) choice shared).1 self.last = .confirmed →
    start { self with
      stalled := 0
      scratch := frame
      log := self.log ++ [.polled .confirmed] } (world.serve (.read32 .gen) choice shared).2
  poll_reset : ∀ self shared choice, poll self shared →
    guard shared self (.serve (.read32 .gen) choice) →
    Swap.ofPoll (world.serve (.read32 .gen) choice shared).1 self.last = .reset →
    adopt { self with log := self.log ++ [.polled .reset] }
      (world.serve (.read32 .gen) choice shared).2
  poll_refused : ∀ self shared choice, poll self shared →
    guard shared self (.serve (.read32 .gen) choice) →
    Swap.ofPoll (world.serve (.read32 .gen) choice shared).1 self.last = .pending →
    self.stalled + 1 < Publisher.kResyncAfter →
    post none { self with
      stalled := self.stalled + 1
      dropped := self.dropped + 1
      log := self.log ++ [.polled .pending] } (world.serve (.read32 .gen) choice shared).2
  poll_stalled : ∀ self shared choice, poll self shared →
    guard shared self (.serve (.read32 .gen) choice) →
    Swap.ofPoll (world.serve (.read32 .gen) choice shared).1 self.last = .pending →
    Publisher.kResyncAfter ≤ self.stalled + 1 →
    adopt { self with
      stalled := self.stalled + 1
      log := self.log ++ [.polled .pending] } (world.serve (.read32 .gen) choice shared).2
  adopt_serve : ∀ self shared choice, adopt self shared →
    guard shared self (.serve (.read32 .gen) choice) →
    start { self with
      expected := (world.serve (.read32 .gen) choice shared).1 &&& kGenMask
      stalled := 0
      scratch := frame
      log := self.log ++ [.resynced] } (world.serve (.read32 .gen) choice shared).2

section Proofs

variable {world : World Shared Choice Access Access.Answer}
  {guard : Guard Shared (Publisher n) Choice Access} {inv : Shared → Publisher n → Prop}
  {frame : Frame n} {pre : Publisher n → Shared → Prop}
  {post : Option Generation → Publisher n → Shared → Prop}

namespace StageOutline

variable (outline : StageOutline world guard inv frame post)

include outline

private theorem fill_safe {self : Publisher n} {shared : Shared} (h : outline.fill 0 self shared) :
    Safe world guard inv (fun _ self' shared => self' = self ∧ outline.fill n self shared)
      (Code.forEach (write32 .data) (List.ofFn frame) self) shared := by
  have hLoop : Triple world guard inv (fun self' s => self' = self ∧ outline.fill 0 self s)
      (Code.forEach (write32 .data) (List.ofFn frame))
      (fun results self' s => results.length = (List.ofFn frame).length ∧
        (self' = self ∧ outline.fill ((List.ofFn frame).zip results).length self s)) := by
    refine Triple.forEach (L := fun finished self' s =>
      self' = self ∧ outline.fill finished.length self s) ?_
    intro finished word rest hAll
    obtain ⟨hIndex, rfl⟩ : ∃ hIndex : finished.length < n, word = frame ⟨finished.length, hIndex⟩ := by
      have hLength := congrArg List.length hAll
      simp only [List.length_ofFn, List.length_append, List.length_map, List.length_cons] at hLength
      refine ⟨by omega, ?_⟩
      have hWord := congrArg (fun words => words[finished.length]?) hAll
      simpa [List.getElem?_append_right, show finished.length < n by omega] using hWord.symm
    refine Triple.ask ?_ ?_ ?_
    · intro self' s choice h hGuard
      obtain ⟨rfl, hFill⟩ := h
      exact ⟨rfl, outline.fill_stable _ _ s choice hFill hGuard⟩
    · rintro self' s ⟨rfl, hFill⟩
      exact outline.fill_inv _ _ s hFill
    · rintro self' s choice ⟨rfl, hFill⟩ hGuard
      simpa using outline.fill_serve _ hIndex _ s choice hFill hGuard
  refine (hLoop self shared ⟨rfl, h⟩).weaken ?_
  rintro results self' s ⟨hLength, rfl, hFill⟩
  refine ⟨rfl, ?_⟩
  simpa [List.length_zip, hLength] using hFill

private theorem stage_safe {self : Publisher n} {shared : Shared}
    (h : outline.start self shared) :
    Safe world guard inv (fun _ self' shared => self' = self ∧ outline.fill n self shared)
      (MmioTransport.stage frame self) shared := by
  refine Safe.access (outline.start self) h (outline.start_stable self) (outline.start_inv self) ?_
  intro s choice hs hGuard
  exact (outline.fill_safe (outline.start_serve self s choice hs hGuard)).bind fun _ _ _ h => h

theorem store_safe {gains : Gains} {quantiseInto : Gains → Frame n}
    (hFrame : quantiseInto gains = frame) {self : Publisher n} {shared : Shared}
    (h : outline.start { self with scratch := frame } shared) :
    Safe world guard inv post (Publisher.store quantiseInto gains self) shared := by
  unfold Publisher.store
  simp only [Code.bind_apply, Code.modify_apply, Code.get_apply, Thread.bind_done, hFrame]
  refine Safe.bind (outline.stage_safe h) ?_
  rintro - self' s ⟨rfl, hFill⟩
  refine Safe.access (outline.fill n _) hFill (outline.fill_stable n _) (outline.fill_inv n _) ?_
  intro s' choice hs' hGuard
  exact outline.commit_serve _ s' choice hs' hGuard

end StageOutline

namespace PublishOutline

variable (outline : PublishOutline world guard inv frame pre post)

include outline

private theorem adopt_safe {self : Publisher n} {shared : Shared} (h : outline.adopt self shared) :
    Safe world guard inv
      (fun admitted self shared => admitted = true ∧
        outline.start { self with scratch := frame } shared)
      ((do
        MmioTransport.resync
        Code.modify fun self => { self with stalled := 0 }
        pure true : PublisherCode n Bool) self) shared := by
  simp only [MmioTransport.resync, read32, Code.bind_apply, Code.ask_apply, Code.modify_apply,
    Code.pure_apply, Thread.bind_access, Thread.bind_done]
  refine Safe.access (outline.adopt self) h (outline.adopt_stable self) (outline.adopt_inv self) ?_
  intro s choice hs hGuard
  exact ⟨rfl, outline.adopt_serve self s choice hs hGuard⟩

private theorem backPressure_safe {self : Publisher n} {shared : Shared} (h : outline.poll self shared) :
    Safe world guard inv
      (fun admitted self shared =>
        if admitted then outline.start { self with scratch := frame } shared
        else post none self shared)
      (Publisher.backPressure self.last self) shared := by
  unfold Publisher.backPressure
  simp only [confirm, MmioTransport.generation, read32, Code.bind_apply, Code.ask_apply,
    Code.modify_apply, Code.pure_apply, Thread.bind_access, Thread.bind_done]
  refine Safe.access (outline.poll self) h (outline.poll_stable self) (outline.poll_inv self) ?_
  intro s choice hs hGuard
  cases hSwap : Swap.ofPoll (world.serve (.read32 .gen) choice s).1 self.last with
  | confirmed => exact outline.poll_confirmed self s choice hs hGuard hSwap
  | reset =>
      have hAdopt := outline.poll_reset self s choice hs hGuard hSwap
      exact (outline.adopt_safe hAdopt).weaken fun _ _ _ hPost => by simpa [hPost.1] using hPost.2
  | pending =>
      simp only [Code.bind_apply, Code.modify_apply, Code.get_apply, Thread.bind_done]
      split_ifs with hStalled
      · exact outline.poll_refused self s choice hs hGuard hSwap hStalled
      · have hAdopt := outline.poll_stalled self s choice hs hGuard hSwap (by omega)
        exact (outline.adopt_safe hAdopt).weaken fun _ _ _ hPost => by simpa [hPost.1] using hPost.2

theorem publish_safe {gains : Gains} {quantiseInto : Gains → Frame n}
    (hFrame : quantiseInto gains = frame) {self : Publisher n} {shared : Shared}
    (h : pre self shared) :
    Safe world guard inv post (Publisher.publish quantiseInto gains self) shared := by
  unfold Publisher.publish
  rw [Code.bind_apply, Code.get_apply, Thread.bind_done]
  cases hPending : self.pending with
  | false => exact outline.toStageOutline.store_safe hFrame (outline.enter_start self shared h hPending)
  | true =>
      refine Safe.bind (outline.backPressure_safe (outline.enter_poll self shared h hPending)) ?_
      intro admitted self' s hAdmit
      cases admitted with
      | false => exact hAdmit
      | true => exact outline.toStageOutline.store_safe hFrame hAdmit

end PublishOutline

end Proofs

end Outline

end Lqr
