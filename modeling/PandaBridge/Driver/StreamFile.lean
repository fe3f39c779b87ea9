import PandaBridge.Resource.Log

/-! Opening and closing the stream device. An open obtains its memory, its mappings and its
interrupt one after the other, and any of these steps can fail. -/
namespace Driver

open Resource

/-- What an open file holds. -/
inductive StreamResource
  | file
  | pages (blk : Nat)
  | mapping (blk : Nat)
  | irq
  deriving DecidableEq

/-- What the kernel answers: whether there is memory for the file and for each block, whether each
block can be mapped, and whether the interrupt is free. -/
structure OpenResults where
  kmalloc : Bool
  getFreePages : Nat → Bool
  dmaMapSingle : Nat → Bool
  requestIrq : Bool

inductive OpenError
  | busy
  | noMemory
  | io
  | irq
  deriving DecidableEq

/-- The device: `device_open`, and the log of all that was obtained and given back. -/
structure StreamDevice where
  deviceOpen : Nat
  log : List (Action StreamResource)

/-- The loop at the end of `allocate_blocks`, from its test on. -/
def releaseBlocks : (blk : Nat) → List (Action StreamResource)
  | 0 => []
  | blk + 1 => .release (.mapping blk) :: .release (.pages blk) :: releaseBlocks blk

/-- The loop of `allocate_blocks`, for so many blocks from this one on. -/
def allocateBlocksFrom (results : OpenResults) :
    (count blk : Nat) → List (Action StreamResource) × Option OpenError
  | 0, _ => ([], none)
  | count + 1, blk =>
      if ¬ results.getFreePages blk then (releaseBlocks blk, some .noMemory)
      else if ¬ results.dmaMapSingle blk then
        (.acquire (.pages blk) :: .release (.pages blk) :: releaseBlocks blk, some .io)
      else
        let rest := allocateBlocksFrom results count (blk + 1)
        (.acquire (.pages blk) :: .acquire (.mapping blk) :: rest.1, rest.2)

/-- `allocate_blocks`. -/
def allocateBlocks (blockCount : Nat) (results : OpenResults) :
    List (Action StreamResource) × Option OpenError :=
  allocateBlocksFrom results blockCount 0

/-- What `free_blocks` gives back, in its order. -/
def blockResources (blockCount : Nat) : List StreamResource :=
  (List.range blockCount).flatMap fun blk => [.mapping blk, .pages blk]

/-- `free_blocks`. -/
def freeBlocks (blockCount : Nat) : List (Action StreamResource) :=
  (blockResources blockCount).map .release

namespace StreamDevice

variable (blockCount : Nat)

def append (device : StreamDevice) (actions : List (Action StreamResource)) : StreamDevice :=
  { device with log := device.log ++ actions }

/-- `panda_stream_open`. -/
def pandaStreamOpen (results : OpenResults) (device : StreamDevice) :
    StreamDevice × Option OpenError :=
  if device.deviceOpen = 1 then (device, some .busy)
  else
    let device := { device with deviceOpen := device.deviceOpen + 1 }
    if ¬ results.kmalloc then (device, some .noMemory)
    else
      let device := device.append [.acquire .file]
      let allocated := allocateBlocks blockCount results
      let device := device.append allocated.1
      match allocated.2 with
      | some error => (device.append [.release .file], some error)
      | none =>
          if ¬ results.requestIrq then
            (device.append (freeBlocks blockCount ++ [.release .file]), some .irq)
          else (device.append [.acquire .irq], none)

/-- `panda_stream_release`. -/
def pandaStreamRelease (device : StreamDevice) : StreamDevice :=
  { device.append (.release .irq :: (freeBlocks blockCount ++ [.release .file])) with
    deviceOpen := device.deviceOpen - 1 }

/-- An open, and a release if it succeeds. -/
def session (results : OpenResults) (device : StreamDevice) : StreamDevice :=
  let opened := device.pandaStreamOpen blockCount results
  match opened.2 with
  | some _ => opened.1
  | none => opened.1.pandaStreamRelease blockCount

/-- Everything is given back, once, and the device can be opened. -/
structure Released (device : StreamDevice) : Prop where
  balanced : Balanced device.log
  unused : device.deviceOpen = 0

end StreamDevice

/-- No step of an open fails. -/
def OpenResults.Succeed (blockCount : Nat) (results : OpenResults) : Prop :=
  results.kmalloc = true ∧
    (∀ blk < blockCount, results.getFreePages blk = true ∧ results.dmaMapSingle blk = true) ∧
    results.requestIrq = true

/-! ### The blocks -/

/-- What is held once so many blocks were obtained, the last one first. -/
def obtained : Nat → List StreamResource
  | 0 => []
  | blk + 1 => .mapping blk :: .pages blk :: obtained blk

theorem mem_obtained {blk : Nat} {resource : StreamResource} :
    resource ∈ obtained blk ↔ ∃ other < blk, resource = .mapping other ∨ resource = .pages other := by
  induction blk with
  | zero => simp [obtained]
  | succ blk ih =>
      rw [obtained, List.mem_cons, List.mem_cons, ih]
      constructor
      · rintro (hMapping | hPages | ⟨other, hLess, hOther⟩)
        · exact ⟨blk, Nat.lt_succ_self blk, .inl hMapping⟩
        · exact ⟨blk, Nat.lt_succ_self blk, .inr hPages⟩
        · exact ⟨other, Nat.lt_succ_of_lt hLess, hOther⟩
      · rintro ⟨other, hLess, hOther⟩
        rcases Nat.lt_succ_iff_lt_or_eq.mp hLess with hBefore | rfl
        · exact .inr (.inr ⟨other, hBefore, hOther⟩)
        · rcases hOther with hMapping | hPages
          · exact .inl hMapping
          · exact .inr (.inl hPages)

theorem new_block {blk : Nat} {items : List StreamResource}
    (hOthers : ∀ other, .pages other ∉ items ∧ .mapping other ∉ items) :
    .pages blk ∉ obtained blk ++ items ∧
      .mapping blk ∉ StreamResource.pages blk :: (obtained blk ++ items) := by
  constructor
  · rw [List.mem_append, mem_obtained, not_or]
    exact ⟨by simp, (hOthers blk).1⟩
  · rw [List.mem_cons, List.mem_append, mem_obtained, not_or, not_or]
    exact ⟨by simp, by simp, (hOthers blk).2⟩

/-- The unwinding loop gives back exactly the blocks below its index. -/
theorem held_releaseBlocks (blk : Nat) (items : List StreamResource) :
    held (releaseBlocks blk) (obtained blk ++ items) = some items := by
  induction blk with
  | zero => rfl
  | succ blk ih =>
      rw [releaseBlocks, obtained, List.cons_append, List.cons_append, held_release_head,
        held_release_head]
      exact ih

theorem held_allocateBlocksFrom (results : OpenResults) {items : List StreamResource}
    (hOthers : ∀ other, .pages other ∉ items ∧ .mapping other ∉ items) (count blk : Nat) :
    held (allocateBlocksFrom results count blk).1 (obtained blk ++ items) =
      some (if (allocateBlocksFrom results count blk).2.isSome then items
        else obtained (blk + count) ++ items) := by
  induction count generalizing blk with
  | zero => rfl
  | succ count ih =>
      obtain ⟨hPages, hMapping⟩ := @new_block blk items hOthers
      unfold allocateBlocksFrom
      split
      · exact held_releaseBlocks blk items
      · split
        · simp only
          rw [held_acquire hPages, held_release_head]
          exact held_releaseBlocks blk items
        · simp only
          rw [held_acquire hPages, held_acquire hMapping]
          have hRest := ih (blk + 1)
          rw [Nat.add_right_comm, Nat.add_assoc] at hRest
          exact hRest

theorem allocateBlocksFrom_none (results : OpenResults) (count blk : Nat) :
    (allocateBlocksFrom results count blk).2 = none ↔ ∀ other, blk ≤ other → other < blk + count →
      results.getFreePages other = true ∧ results.dmaMapSingle other = true := by
  induction count generalizing blk with
  | zero =>
      refine iff_of_true rfl fun other hFrom hTo => ?_
      omega
  | succ count ih =>
      unfold allocateBlocksFrom
      split
      · rename_i hPages
        refine iff_of_false (by simp) fun hAll => hPages (hAll blk (Nat.le_refl blk) (by omega)).1
      · split
        · rename_i hMap
          refine iff_of_false (by simp) fun hAll => hMap (hAll blk (Nat.le_refl blk) (by omega)).2
        · rename_i hPages hMap
          rw [ih]
          constructor
          · intro hAll other hFrom hTo
            rcases Nat.lt_or_eq_of_le hFrom with hAfter | rfl
            · exact hAll other hAfter (by omega)
            · exact ⟨by simpa using hPages, by simpa using hMap⟩
          · exact fun hAll other hFrom hTo => hAll other (by omega) (by omega)

/-- The blocks are given back in another order than the one in which they were obtained. -/
theorem blockResources_perm (blockCount : Nat) :
    (blockResources blockCount).Perm (obtained blockCount) := by
  induction blockCount with
  | zero => exact List.Perm.refl _
  | succ blockCount ih =>
      rw [blockResources, List.range_succ, List.flatMap_append, obtained]
      exact (ih.append_right _).trans List.perm_append_comm

/-! ### Opening and closing -/

namespace StreamDevice

variable {blockCount : Nat} {device : StreamDevice}

/-- Closing gives back what a successful open holds. -/
theorem held_freeBlocks (blockCount : Nat) :
    held (freeBlocks blockCount ++ [.release .file]) (obtained blockCount ++ [.file]) =
      some [] := by
  have hAll := held_releases ((blockResources_perm blockCount).append_right [.file])
  rw [List.map_append] at hAll
  exact hAll

/-- What is held of the device. -/
def Holds (device : StreamDevice) (items : List StreamResource) : Prop :=
  held device.log [] = some items

theorem Holds.append {items left : List StreamResource} (hHolds : device.Holds items)
    {actions : List (Action StreamResource)} (hActions : held actions items = some left) :
    (device.append actions).Holds left := by
  unfold Holds StreamDevice.append
  rw [held_append, hHolds]
  exact hActions

theorem pandaStreamOpen_spec (results : OpenResults) (hStart : device.Released) :
    (device.pandaStreamOpen blockCount results).1.deviceOpen = 1 ∧
      ((device.pandaStreamOpen blockCount results).2 = none ↔ results.Succeed blockCount) ∧
      (device.pandaStreamOpen blockCount results).1.Holds
        (if (device.pandaStreamOpen blockCount results).2.isSome then []
          else .irq :: (obtained blockCount ++ [.file])) := by
  obtain ⟨hBalanced, hUnused⟩ := hStart
  have hOpen : device.deviceOpen + 1 = 1 := by rw [hUnused]
  have hFile : ({ device with deviceOpen := device.deviceOpen + 1 }.append
      [.acquire .file]).Holds [.file] := Holds.append hBalanced rfl
  have hOthers : ∀ other, StreamResource.pages other ∉ [StreamResource.file] ∧
      StreamResource.mapping other ∉ [StreamResource.file] := by simp
  have hBlocks := hFile.append (held_allocateBlocksFrom results hOthers blockCount 0)
  have hNone := allocateBlocksFrom_none results blockCount 0
  unfold pandaStreamOpen allocateBlocks
  rw [if_neg (by omega)]
  simp only [OpenResults.Succeed]
  split
  · rename_i hKmalloc
    exact ⟨hOpen, iff_of_false (by simp) fun h => hKmalloc h.1, hBalanced⟩
  · rename_i hKmalloc
    generalize allocateBlocksFrom results blockCount 0 = allocated at hBlocks hNone ⊢
    obtain ⟨log, error⟩ := allocated
    simp only [Nat.zero_add, Nat.zero_le, forall_const] at hBlocks hNone
    simp only
    cases error with
    | some error =>
        refine ⟨hOpen, iff_of_false (by simp) fun h => ?_, hBlocks.append rfl⟩
        exact absurd (hNone.mpr h.2.1) (by simp)
    | none =>
        have hAll := hNone.mp rfl
        simp only
        split
        · rename_i hIrq
          exact ⟨hOpen, iff_of_false (by simp) fun h => hIrq h.2.2,
            hBlocks.append (held_freeBlocks blockCount)⟩
        · rename_i hIrq
          refine ⟨hOpen, iff_of_true rfl ⟨by simpa using hKmalloc, hAll, by simpa using hIrq⟩,
            hBlocks.append (held_acquire ?_ [])⟩
          simp [mem_obtained]

end StreamDevice

/-- For every number of blocks and whatever an open runs into: everything that was obtained is
given back once, whether the open fails or its file is closed; but the device can be opened again
only if no step of the open has failed. -/
theorem stream_open_restores_iff (blockCount : Nat) (results : OpenResults) {device : StreamDevice}
    (hStart : device.Released) :
    Balanced (device.session blockCount results).log ∧
      ((device.session blockCount results).Released ↔ results.Succeed blockCount) := by
  obtain ⟨hOpen, hNone, hHolds⟩ :=
    @StreamDevice.pandaStreamOpen_spec blockCount device results hStart
  unfold StreamDevice.session
  generalize device.pandaStreamOpen blockCount results = opened at hOpen hNone hHolds ⊢
  obtain ⟨opened, error⟩ := opened
  cases error with
  | some error =>
      refine ⟨hHolds, iff_of_false (fun h => ?_) fun h => absurd (hNone.mpr h) (by simp)⟩
      exact absurd (h.unused.symm.trans hOpen) (by decide)
  | none =>
      have hActions : held (.release .irq :: (freeBlocks blockCount ++ [.release .file]))
          (.irq :: (obtained blockCount ++ [.file])) = some [] :=
        (held_release_head _ _ _).trans (StreamDevice.held_freeBlocks blockCount)
      have hClosed := hHolds.append hActions
      refine ⟨hClosed, iff_of_true ⟨hClosed, ?_⟩ (hNone.mp rfl)⟩
      simp only [StreamDevice.pandaStreamRelease]
      simp only at hOpen
      omega

/-! ### One device -/

def unusedDevice : StreamDevice where
  deviceOpen := 0
  log := []

def allSucceed : OpenResults where
  kmalloc := true
  getFreePages := fun _ => true
  dmaMapSingle := fun _ => true
  requestIrq := true

theorem stream_open_restores_two :
    unusedDevice.Released ∧ (unusedDevice.session 2 allSucceed).Released := by
  have hStart : unusedDevice.Released := ⟨rfl, rfl⟩
  refine ⟨hStart, (stream_open_restores_iff 2 allSucceed hStart).2.mpr ?_⟩
  exact ⟨rfl, fun _ _ => ⟨rfl, rfl⟩, rfl⟩

/-- The second block of two cannot be mapped. All memory is given back, but an open after that is
refused although it could succeed. -/
theorem failed_open_blocks_device :
    let results : OpenResults := { allSucceed with dmaMapSingle := fun blk => blk == 0 }
    let failed := unusedDevice.pandaStreamOpen 2 results
    failed.2 = some .io ∧ failed.1.log =
        [.acquire .file, .acquire (.pages 0), .acquire (.mapping 0), .acquire (.pages 1),
          .release (.pages 1), .release (.mapping 0), .release (.pages 0), .release .file] ∧
      ¬ (unusedDevice.session 2 results).Released ∧
      (failed.1.pandaStreamOpen 2 allSucceed).2 = some .busy := by
  refine ⟨rfl, rfl, fun hReleased => ?_, rfl⟩
  exact absurd hReleased.unused (by decide)

end Driver
