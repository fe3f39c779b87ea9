import PandaBridge.Lqr.SeqlockSource

/-! The thread of the bridge: mark the window, then poll the stamp, read,
optimise and publish once for each new stamp. `RoundOutline` is the proof
outline of one round of the loop. The latency probe and the log messages touch
nothing that the loop reads and are left out. -/
namespace Lqr

open Concurrent

/-- What the trace of the bridge records, oldest first: a failed read, an
operating point passed to the optimiser, and the answer of a publish call. -/
inductive BridgeEvent (axes : Nat) (Value : Type)
  | readFailed
  | solved (point : OperatingPoint axes Value)
  | published (generation : Option Generation)

def BridgeEvent.point? {axes : Nat} {Value : Type} :
    BridgeEvent axes Value → Option (OperatingPoint axes Value)
  | .solved point => some point
  | _ => none

/-- The publisher, the state source and the counters of `bridge_loop`. The trace
is read by no part of the code. -/
structure Bridge (n axes : Nat) (Value : Type) where
  publisher : Publisher n
  source : SeqlockStateSource axes Value
  lastStamp : Word
  published : Nat
  dropped : Nat
  readFail : Nat
  trace : List (BridgeEvent axes Value)

def writeWord {Fields : Type} (index : Nat) (value : Word) : BridgeCode Fields Unit :=
  Code.ask (Access.writeWord index value)

namespace Bridge

variable {n axes : Nat} {Value Gains : Type}

def initial (n : Nat) (source : SeqlockStateSource axes Value) : Bridge n axes Value where
  publisher := Publisher.initial n
  source := source
  lastStamp := 0
  published := 0
  dropped := 0
  readFail := 0
  trace := []

/-- The operating points passed to the optimiser, in order. -/
def solved (self : Bridge n axes Value) : List (OperatingPoint axes Value) :=
  self.trace.filterMap BridgeEvent.point?

abbrev LoopCode (n axes : Nat) (Value : Type) := BridgeCode (Bridge n axes Value)

def onPublisher {Result : Type} (code : PublisherCode n Result) : LoopCode n axes Value Result :=
  Code.focus publisher (fun value self => { self with publisher := value }) code

def onSource {Result : Type} (code : SourceCode axes Value Result) :
    LoopCode n axes Value Result :=
  Code.focus source (fun value self => { self with source := value }) code

def kReadFailReport : Nat := 8

def failRead (self : Bridge n axes Value) : Bridge n axes Value :=
  { self with readFail := self.readFail + 1, trace := self.trace ++ [.readFailed] }

/-- A fresh operating point: it goes to the optimiser next. -/
def take (point : OperatingPoint axes Value) (self : Bridge n axes Value) : Bridge n axes Value :=
  { self with readFail := 0, lastStamp := point.stamp, trace := self.trace ++ [.solved point] }

/-- Count a publish call by its answer. -/
def tally (generation : Option Generation) (self : Bridge n axes Value) : Bridge n axes Value :=
  match generation with
  | some _ => { self with published := self.published + 1,
                          trace := self.trace ++ [.published generation] }
  | none => { self with dropped := self.dropped + 1,
                        trace := self.trace ++ [.published generation] }

/-- The branch of a torn or stuck export: every so often the status is probed. -/
def onFailure : LoopCode n axes Value Unit := do
  Code.modify failRead
  let self ← Code.get
  if kReadFailReport ≤ self.readFail then
    let _ ← read32 .exportStatus
    Code.modify fun self => { self with readFail := 0 }
  else pure ()

def onPoint (solve : OperatingPoint axes Value → Gains) (quantiseInto : Gains → Frame n)
    (point : OperatingPoint axes Value) : LoopCode n axes Value Unit := do
  Code.modify (take point)
  let generation ← onPublisher (Publisher.publish quantiseInto (solve point))
  Code.modify (tally generation)

/-- One round of the loop. -/
def round (toFloat : Word → Value) (solve : OperatingPoint axes Value → Gains)
    (quantiseInto : Gains → Frame n) : LoopCode n axes Value Unit := do
  let stamp ← SeqlockStateSource.peekStamp
  let self ← Code.get
  if stamp = self.lastStamp then pure ()
  else
    match ← onSource (SeqlockStateSource.read toFloat) with
    | none => onFailure
    | some point => onPoint solve quantiseInto point

/-- The loop, stopped after the given number of rounds. -/
def rounds (toFloat : Word → Value) (solve : OperatingPoint axes Value → Gains)
    (quantiseInto : Gains → Frame n) : Nat → LoopCode n axes Value Unit
  | 0 => pure ()
  | left + 1 => do
      round toFloat solve quantiseInto
      rounds toFloat solve quantiseInto left

/-- `bridge_loop`: construct the transport, mark the window as holding no valid
export, and run the loop. -/
def bridgeLoop (toFloat : Word → Value) (solve : OperatingPoint axes Value → Gains)
    (quantiseInto : Gains → Frame n) (count : Nat) : LoopCode n axes Value Unit := do
  onPublisher MmioTransport.seed
  writeWord StateAbi.seqWord 1
  writeWord StateAbi.stampWord 0
  rounds toFloat solve quantiseInto count

end Bridge

section Outline

variable {n axes : Nat} {Value Gains Shared Choice : Type}

/-- Assertions for one round. `top` stands at the head of the loop, `fresh` after
a peek that saw another stamp than the last one, and `loaded` after a read has
loaded the stamp of its current attempt. A read only changes its scratch arrays,
which no assertion mentions. -/
structure RoundOutline (world : World Shared Choice Access Access.Answer)
    (guard : Guard Shared (Bridge n axes Value) Choice Access)
    (inv : Shared → Bridge n axes Value → Prop) (solve : OperatingPoint axes Value → Gains)
    (quantiseInto : Gains → Frame n) where
  top : Bridge n axes Value → Shared → Prop
  fresh : Bridge n axes Value → Shared → Prop
  loaded : Bridge n axes Value → Word → Shared → Prop
  top_stable : ∀ self, Stable world guard self (top self)
  fresh_stable : ∀ self source, Stable world guard { self with source := source } (fresh self)
  loaded_stable : ∀ self source stamp,
    Stable world guard { self with source := source } (loaded self stamp)
  top_inv : ∀ self shared, top self shared → inv shared self
  fresh_inv : ∀ self source shared, fresh self shared → inv shared { self with source := source }
  fresh_of_loaded : ∀ self stamp shared, loaded self stamp shared → fresh self shared
  peek_old : ∀ self shared choice, top self shared →
    guard shared self (.serve (.word StateAbi.stampWord) choice) →
    top self (world.serve (.word StateAbi.stampWord) choice shared).2
  peek_new : ∀ self shared choice, top self shared →
    guard shared self (.serve (.word StateAbi.stampWord) choice) →
    (world.serve (.word StateAbi.stampWord) choice shared).1 ≠ self.lastStamp →
    fresh self (world.serve (.word StateAbi.stampWord) choice shared).2
  fresh_word : ∀ self source shared index choice, fresh self shared →
    guard shared { self with source := source } (.serve (.word index) choice) →
    fresh self (world.serve (.word index) choice shared).2
  fresh_stamp : ∀ self source shared choice, fresh self shared →
    guard shared { self with source := source } (.serve (.word StateAbi.stampWord) choice) →
    loaded self (world.serve (.word StateAbi.stampWord) choice shared).1
      (world.serve (.word StateAbi.stampWord) choice shared).2
  loaded_word : ∀ self source stamp shared index choice, loaded self stamp shared →
    index ≠ StateAbi.stampWord →
    guard shared { self with source := source } (.serve (.word index) choice) →
    loaded self stamp (world.serve (.word index) choice shared).2
  failed : ∀ self source shared, fresh self shared →
    top ({ self with source := source }.failRead) shared
  status : ∀ self shared choice, top self shared →
    guard shared self (.serve (.read32 .exportStatus) choice) →
    top { self with readFail := 0 } (world.serve (.read32 .exportStatus) choice shared).2
  publish : ∀ self source point shared, loaded self point.stamp shared →
    Safe world
      (fun s publisher label =>
        guard s { { self with source := source }.take point with publisher := publisher } label)
      (fun s publisher =>
        inv s { { self with source := source }.take point with publisher := publisher })
      (fun generation publisher s => top
        ({ { self with source := source }.take point with publisher := publisher }.tally generation)
        s)
      (Publisher.publish quantiseInto (solve point) self.publisher) shared

namespace RoundOutline

variable {world : World Shared Choice Access Access.Answer}
  {guard : Guard Shared (Bridge n axes Value) Choice Access}
  {inv : Shared → Bridge n axes Value → Prop} {solve : OperatingPoint axes Value → Gains}
  {quantiseInto : Gains → Frame n} {toFloat : Word → Value}
  (outline : RoundOutline world guard inv solve quantiseInto)

include outline

private theorem word_loaded (self : Bridge n axes Value) (stamp : Word) {index : Nat}
    (hOther : index ≠ StateAbi.stampWord) :
    Triple world (fun s source label => guard s { self with source := source } label)
      (fun s source => inv s { self with source := source })
      (fun _ => outline.loaded self stamp) (SeqlockStateSource.word index)
      (fun _ _ => outline.loaded self stamp) := by
  refine Triple.ask ?_ ?_ ?_
  · intro source
    exact outline.loaded_stable self source stamp
  · intro source shared h
    exact outline.fresh_inv self source shared (outline.fresh_of_loaded self stamp shared h)
  · intro source shared choice h hGuard
    exact outline.loaded_word self source stamp shared index choice h hOther hGuard

private theorem assign_loaded (self : Bridge n axes Value) (stamp : Word) {index : Nat}
    (hOther : index ≠ StateAbi.stampWord)
    (put : Value → SeqlockStateSource axes Value → SeqlockStateSource axes Value) :
    Triple world (fun s source label => guard s { self with source := source } label)
      (fun s source => inv s { self with source := source })
      (fun _ => outline.loaded self stamp) (SeqlockStateSource.assign toFloat index put)
      (fun _ _ => outline.loaded self stamp) := by
  refine Triple.bind (outline.word_loaded self stamp hOther) fun raw => ?_
  exact Triple.modify fun source shared h => h

private theorem decode_loaded (self : Bridge n axes Value) (stamp : Word) :
    Triple world (fun s source label => guard s { self with source := source } label)
      (fun s source => inv s { self with source := source })
      (fun _ => outline.loaded self stamp) (SeqlockStateSource.decode toFloat)
      (fun _ _ => outline.loaded self stamp) := by
  refine Triple.bind (Triple.consequence (Triple.forEach
    (L := fun _ _ => outline.loaded self stamp) ?_) (fun _ _ h => h) fun _ _ _ h => h.2)
    fun _ => Triple.pure fun _ _ h => h
  intro finished k rest _
  refine Triple.bind (outline.assign_loaded self stamp (StateAbi.axisWord_ne_stampWord k rfl) _) fun _ => ?_
  refine Triple.bind (outline.assign_loaded self stamp (StateAbi.axisWord_ne_stampWord k rfl) _) fun _ => ?_
  refine Triple.bind (outline.assign_loaded self stamp (StateAbi.axisWord_ne_stampWord k rfl) _) fun _ => ?_
  exact outline.assign_loaded self stamp (StateAbi.axisWord_ne_stampWord k rfl) _

/-- A read either fails with the peek still good, or returns the stamp of its
last attempt. The proof is by induction on the attempts that are left. -/
private theorem read_loaded (self : Bridge n axes Value) :
    Triple world (fun s source label => guard s { self with source := source } label)
      (fun s source => inv s { self with source := source })
      (fun _ => outline.fresh self) (SeqlockStateSource.read toFloat)
      (fun result _ shared => match result with
        | none => outline.fresh self shared
        | some point => outline.loaded self point.stamp shared) := by
  suffices hAttempts : ∀ left, Triple world
      (fun s source label => guard s { self with source := source } label)
      (fun s source => inv s { self with source := source })
      (fun _ => outline.fresh self) (SeqlockStateSource.attempt toFloat left)
      (fun result _ shared => match result with
        | none => outline.fresh self shared
        | some point => outline.loaded self point.stamp shared) from hAttempts _
  intro left
  induction left with
  | zero => exact Triple.pure fun source shared h => h
  | succ left ih =>
      refine Triple.bind (Q := fun _ _ => outline.fresh self) ?_ fun s1 => ?_
      · refine Triple.ask (fun source => outline.fresh_stable self source)
          (fun source => outline.fresh_inv self source) ?_
        intro source shared choice h hGuard
        exact outline.fresh_word self source shared _ choice h hGuard
      by_cases hOdd : s1 &&& 1 ≠ 0
      · rw [if_pos hOdd]
        exact ih
      · rw [if_neg hOdd]
        refine Triple.bind (Q := fun stamp _ => outline.loaded self stamp) ?_ fun stamp => ?_
        · refine Triple.ask (fun source => outline.fresh_stable self source)
            (fun source => outline.fresh_inv self source) ?_
          intro source shared choice h hGuard
          exact outline.fresh_stamp self source shared choice h hGuard
        refine Triple.bind (outline.decode_loaded self stamp) fun _ => ?_
        refine Triple.bind (outline.word_loaded self stamp (by decide)) fun s2 => ?_
        by_cases hSame : s2 = s1
        · rw [if_pos hSame]
          intro source shared h
          exact h
        · rw [if_neg hSame]
          intro source shared h
          exact ih source shared (outline.fresh_of_loaded self stamp shared h)

private theorem onFailure_top :
    Triple world guard inv (fun self shared => outline.top self.failRead shared)
      (Bridge.onFailure : Bridge.LoopCode n axes Value Unit) (fun _ => outline.top) := by
  intro self shared h
  unfold Bridge.onFailure
  simp only [Code.bind_apply, Code.modify_apply, Code.get_apply, Thread.bind_done]
  by_cases hReport : Bridge.kReadFailReport ≤ self.failRead.readFail
  · rw [if_pos hReport]
    refine Safe.access (outline.top self.failRead) h (outline.top_stable _) (outline.top_inv _) ?_
    intro s choice hs hGuard
    exact outline.status _ s choice hs hGuard
  · rw [if_neg hReport]
    exact h

private theorem onPoint_top (self : Bridge n axes Value)
    (source : SeqlockStateSource axes Value) (point : OperatingPoint axes Value) (shared : Shared)
    (h : outline.loaded self point.stamp shared) :
    Safe world guard inv (fun _ => outline.top)
      (Bridge.onPoint solve quantiseInto point { self with source := source }) shared := by
  unfold Bridge.onPoint
  simp only [Code.bind_apply, Code.modify_apply, Thread.bind_done]
  refine Safe.bind (Q := fun generation after s => outline.top (after.tally generation) s) ?_ ?_
  · exact Safe.mapFields (outline.publish self source point shared h)
  · intro generation after s hAfter
    exact hAfter

theorem round_triple :
    Triple world guard inv outline.top (Bridge.round toFloat solve quantiseInto)
      (fun _ => outline.top) := by
  intro self shared h
  refine Safe.access (outline.top self) h (outline.top_stable self) (outline.top_inv self) ?_
  intro s choice hs hGuard
  simp only [Thread.bind_done, Code.bind_apply, Code.get_apply]
  by_cases hOld : (world.serve (.word StateAbi.stampWord) choice s).1 = self.lastStamp
  · rw [if_pos hOld]
    exact outline.peek_old self s choice hs hGuard
  · rw [if_neg hOld]
    have hFresh := outline.peek_new self s choice hs hGuard hOld
    refine Safe.bind (Q := fun result after s => ∃ source, after = { self with source := source } ∧
      match result with
        | none => outline.fresh self s
        | some point => outline.loaded self point.stamp s) ?_ ?_
    · refine Safe.mapFields ((outline.read_loaded self self.source _ hFresh).weaken ?_)
      intro result source s' hAfter
      exact ⟨source, rfl, hAfter⟩
    · rintro result after s' ⟨source, rfl, hAfter⟩
      cases result with
      | none => exact outline.onFailure_top _ _ (outline.failed self source s' hAfter)
      | some point => exact outline.onPoint_top self source point s' hAfter

theorem rounds_triple (count : Nat) :
    Triple world guard inv outline.top (Bridge.rounds toFloat solve quantiseInto count)
      (fun _ => outline.top) := by
  induction count with
  | zero => exact Triple.pure fun self shared h => h
  | succ count ih => exact Triple.bind outline.round_triple fun _ => ih

end RoundOutline

end Outline

end Lqr
