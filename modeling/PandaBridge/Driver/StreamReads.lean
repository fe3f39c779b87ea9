import PandaBridge.Driver.StreamRing

/-! How far the reader is in the data of the completed blocks, and when it says that they are
all read. -/
namespace Driver

variable {Byte : Type}

/-- What the call in progress has copied. -/
def Reader.copied : Reader Byte → List Byte
  | .test call | .copy call | .check call | .finish call => call.copied
  | _ => []

namespace World

/-- The data of the block that the reader is at, if it is complete. -/
def nextData (world : World Byte) : List Byte := (world.completed[world.freed]?).getD []

/-- The reader is at the last block. -/
def AtEnd (world : World Byte) : Prop := world.Ended ∧ world.freed + 1 = world.handed

/-- The block that the reader is at is read completely. -/
def Complete (world : World Byte) : Prop := world.device.readOffset = world.nextData.length

/-- What a call knows where it is. -/
def Calls (world : World Byte) : Prop :=
  match world.reader with
  | .test call => call.count = 0 → call.copied = [] →
      world.freed < world.handed ∧ (world.AtEnd → world.Complete)
  | .copy call => world.freed < world.handed ∧ 0 < call.count
  | .check call => world.freed < world.handed ∧ (call.count = 0 → call.copied ≠ [])
  | .finish call => call.copied = [] → world.AtEnd → world.Complete
  | _ => True

structure Reads (blockCount : Nat) (world : World Byte) : Prop where
  index : world.device.readBlockIndex = world.freed % blockCount
  started : world.freed < world.handed ∨ world.device.readOffset = 0
  bound : world.device.readOffset ≤ world.nextData.length
  calls : world.Calls
  delivered : world.returned ++ world.reader.copied =
    (world.completed.take world.freed).flatten ++ world.nextData.take world.device.readOffset
  zero : ∀ result ∈ world.results, result.2 = .zero →
    world.AtEnd ∧ world.Complete ∧ world.reader.copied = []
  always : world.results.Pairwise fun later earlier => earlier.2 = .zero → later.2 = .zero

structure Inv (blockCount marked : Nat) (world : World Byte) : Prop where
  placed : world.Placed blockCount marked
  serves : world.Serves blockCount marked
  runs : world.Runs blockCount marked
  stored : world.Stored blockCount
  reads : world.Reads blockCount

variable {blockCount marked : Nat} {world next : World Byte}

theorem Runs.handed_le (hRuns : world.Runs blockCount marked) :
    world.handed ≤ world.completed.length := by
  by_cases hRaised : ∃ status, world.Raised status
  · obtain ⟨status, hStatus⟩ := hRaised
    have hLength := (hRuns.raised status hStatus).1
    omega
  · have hLength := hRuns.quiet fun status hStatus => hRaised ⟨status, hStatus⟩
    omega

/-- What the reader is at does not change when the engine completes a block. -/
theorem nextData_append (hCompleted : next.completed = world.completed ∨
      ∃ data, next.completed = world.completed ++ [data])
    (hFreed : next.freed = world.freed) (hLess : world.freed < world.completed.length) :
    next.nextData = world.nextData := by
  unfold nextData
  obtain hSame | ⟨data, hMore⟩ := hCompleted
  · rw [hSame, hFreed]
  · rw [hMore, hFreed, List.getElem?_append_left hLess]

/-- What a step of the engine or of the handler does to the reader: it may hand a block over, and
if that is the last one then a call that has found nothing must not be at its end. -/
theorem Reads.kept (hReads : world.Reads blockCount)
    (hHandedLe : world.handed ≤ world.completed.length)
    (hIndex : next.device.readBlockIndex = world.device.readBlockIndex)
    (hOffset : next.device.readOffset = world.device.readOffset)
    (hReader : next.reader = world.reader) (hFreed : next.freed = world.freed)
    (hReturned : next.returned = world.returned) (hResults : next.results = world.results)
    (hHanded : world.handed ≤ next.handed)
    (hCompleted : next.completed = world.completed ∨
      ∃ data, next.completed = world.completed ++ [data])
    (hFreedLe : world.freed ≤ world.handed)
    (hKeep : world.AtEnd → next.AtEnd)
    (hEnd : next.AtEnd → world.AtEnd ∨ world.freed = world.handed ∧
      ∀ call, world.reader = .finish call → call.copied = [] → next.Complete) :
    next.Reads blockCount := by
  have hData : world.freed < world.handed → next.nextData = world.nextData := fun hLess =>
    nextData_append hCompleted hFreed (by omega)
  have hTake : (next.completed.take next.freed).flatten =
      (world.completed.take world.freed).flatten := by
    obtain hSame | ⟨data, hMore⟩ := hCompleted
    · rw [hSame, hFreed]
    · rw [hMore, hFreed, List.take_append_of_le_length (by omega)]
  have hEndComplete : world.AtEnd → world.Complete → next.Complete := by
    intro hAtEnd hComplete
    have hLess : world.freed < world.handed := by
      have := hAtEnd.2
      omega
    unfold Complete at hComplete ⊢
    rw [hData hLess, hOffset, hComplete]
  refine ⟨by rw [hIndex, hFreed, hReads.index], ?_, ?_, ?_, ?_, ?_, ?_⟩
  · rw [hFreed, hOffset]
    exact hReads.started.imp_left fun hLess => by omega
  · rw [hOffset]
    obtain hLess | hZero := hReads.started
    · rw [hData hLess]
      exact hReads.bound
    · rw [hZero]
      exact Nat.zero_le _
  · have hCalls := hReads.calls
    unfold Calls at hCalls ⊢
    rw [hReader, hFreed]
    cases hAt : world.reader with
    | idle => trivial
    | waiting size => trivial
    | test call =>
        rw [hAt] at hCalls
        intro hCount hCopied
        obtain ⟨hLess, hImp⟩ := hCalls hCount hCopied
        refine ⟨by omega, fun hAtEnd => ?_⟩
        obtain hBefore | ⟨hSame, -⟩ := hEnd hAtEnd
        · exact hEndComplete hBefore (hImp hBefore)
        · omega
    | copy call =>
        rw [hAt] at hCalls
        exact ⟨by omega, hCalls.2⟩
    | check call =>
        rw [hAt] at hCalls
        exact ⟨by omega, hCalls.2⟩
    | finish call =>
        rw [hAt] at hCalls
        intro hCopied hAtEnd
        obtain hBefore | ⟨-, hNone⟩ := hEnd hAtEnd
        · exact hEndComplete hBefore (hCalls hCopied hBefore)
        · exact hNone call hAt hCopied
  · rw [hReturned, hReader, hTake, hOffset, hReads.delivered]
    obtain hLess | hZero := hReads.started
    · rw [hData hLess]
    · rw [hZero, List.take_zero, List.take_zero]
  · intro result hResult hZero
    rw [hResults] at hResult
    obtain ⟨hAtEnd, hComplete, hNone⟩ := hReads.zero result hResult hZero
    exact ⟨hKeep hAtEnd, hEndComplete hAtEnd hComplete, by rw [hReader, hNone]⟩
  · rw [hResults]
    exact hReads.always

end World

end Driver
