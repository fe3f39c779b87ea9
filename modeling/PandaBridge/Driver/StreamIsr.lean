import PandaBridge.Driver.StreamReads

/-! The engine and the handler keep the ring: a block that is given to the engine is free, and one
that is handed over has the data that the engine put there. -/
namespace Driver

variable {Byte : Type}

/-! ### One block changes -/

section Blocks

variable {device : StreamOpen Byte} {block other : Nat} {value : Block Byte}

theorem setBlock_self : (device.setBlock block value).blocks block = value := by
  simp [StreamOpen.setBlock]

theorem setBlock_of_ne (hNe : other ≠ block) :
    (device.setBlock block value).blocks other = device.blocks other := by
  simp [StreamOpen.setBlock, hNe]

theorem setBlock_state (hState : value.state = (device.blocks block).state) :
    ((device.setBlock block value).blocks other).state = (device.blocks other).state := by
  by_cases hSame : other = block
  · rw [hSame, setBlock_self, hState]
  · rw [setBlock_of_ne hSame]

theorem setBlock_length (hLength : value.length = (device.blocks block).length) :
    ((device.setBlock block value).blocks other).length = (device.blocks other).length := by
  by_cases hSame : other = block
  · rw [hSame, setBlock_self, hLength]
  · rw [setBlock_of_ne hSame]

theorem setBlock_memory (hMemory : value.memory = (device.blocks block).memory) :
    ((device.setBlock block value).blocks other).memory = (device.blocks other).memory := by
  by_cases hSame : other = block
  · rw [hSame, setBlock_self, hMemory]
  · rw [setBlock_of_ne hSame]

theorem setState_state (state : BlockState) : ((device.setState block state).blocks other).state =
    if other = block then state else (device.blocks other).state := by
  unfold StreamOpen.setState
  by_cases hSame : other = block
  · rw [if_pos hSame, hSame, setBlock_self]
  · rw [if_neg hSame, setBlock_of_ne hSame]

theorem setState_length (state : BlockState) :
    ((device.setState block state).blocks other).length = (device.blocks other).length :=
  setBlock_length (by rfl)

theorem setState_memory (state : BlockState) :
    ((device.setState block state).blocks other).memory = (device.blocks other).memory :=
  setBlock_memory (by rfl)

end Blocks

namespace World

variable {blockCount marked : Nat} {world next : World Byte}

/-- What is left of the handler's place by a step of the engine or of the reader. -/
theorem Serves.kept (hServes : world.Serves blockCount marked) (hIsr : next.isr = world.isr)
    (hActive : next.device.streamActive = world.device.streamActive)
    (hIndex : next.device.isrBlockIndex = world.device.isrBlockIndex)
    (hHanded : next.handed = world.handed)
    (hSized : ∀ number length, world.Sized number length → next.Sized number length)
    (hFreed : world.freed ≤ next.freed) (hLast : world.Ended → next.freed < next.handed) :
    next.Serves blockCount marked := by
  unfold Serves at hServes ⊢
  rw [hIsr, hActive, hIndex]
  cases hAt : world.isr with
  | idle =>
      rw [hAt] at hServes
      rw [hHanded] at hLast ⊢
      exact ⟨hServes.1, fun hStopped => ⟨hLast ⟨hStopped, hAt⟩, (hServes.2 hStopped).2⟩⟩
  | advance block length =>
      rw [hAt] at hServes
      obtain ⟨hActive, hIndex, hMarked, hBlock, hLength⟩ := hServes
      rw [hHanded]
      exact ⟨hActive, hIndex, hMarked, hBlock, hSized _ _ hLength⟩
  | assign block length place =>
      rw [hAt] at hServes
      obtain ⟨hActive, hIndex, hMarked, hBlock, hLength, hPlace, hNear⟩ := hServes
      rw [hHanded]
      exact ⟨hActive, hIndex, hMarked, hBlock, hSized _ _ hLength, hPlace, by omega⟩
  | mark block length place =>
      rw [hAt] at hServes
      obtain ⟨hActive, hIndex, hMarked, hBlock, hLength, hPlace⟩ := hServes
      rw [hHanded]
      exact ⟨hActive, hIndex, hMarked, hBlock, hSized _ _ hLength, hPlace⟩
  | receive block length =>
      rw [hAt] at hServes
      obtain ⟨hRange, hMarked, hBlock, hLength⟩ := hServes
      rw [hHanded]
      exact ⟨hRange, hMarked, hBlock, hSized _ _ hLength⟩
  | hand block =>
      rw [hAt] at hServes
      obtain ⟨hRange, hMarked, hBlock, length, hLength⟩ := hServes
      rw [hHanded]
      exact ⟨hRange, hMarked, hBlock, length, hSized _ _ hLength⟩

theorem Sized.append {number length : Nat} (hSized : world.Sized number length) {data : List Byte}
    (hCompleted : next.completed = world.completed ++ [data]) : next.Sized number length := by
  obtain ⟨held, hHeld, hLength⟩ := hSized
  refine ⟨held, ?_, hLength⟩
  rw [hCompleted, List.getElem?_append_left (List.getElem?_eq_some_iff.mp hHeld).1, hHeld]

/-- The blocks that the reader has not given back, when the handler is not at its last. -/
theorem Inv.freed_lt (hInv : world.Inv blockCount marked) (hEnded : world.Ended) :
    world.freed < world.handed := by
  have hServes := hInv.serves
  unfold Serves at hServes
  rw [hEnded.2] at hServes
  exact (hServes.2 hEnded.1).1

/-! ### The engine -/

theorem dmaWrite_inv (hInv : world.Inv blockCount marked) {byte : Byte}
    (hNext : dmaWrite world byte = some next) : next.Inv blockCount marked := by
  obtain ⟨block, hBlock, rfl⟩ := Option.map_eq_some_iff.mp hNext
  obtain ⟨hPlace, hWithin⟩ := hInv.runs.current block hBlock
  have hLap := hInv.placed.lap
  have hHanded := hInv.runs.handed_le
  have hFreed := hInv.placed.freed
  refine ⟨⟨hInv.placed.freed, hInv.placed.lap, fun number hNumber hNear => ?_⟩,
    hInv.serves.kept rfl rfl rfl rfl (fun _ _ => id) (Nat.le_refl _) hInv.freed_lt,
    ⟨hInv.runs.quiet, hInv.runs.raised, hInv.runs.running, hInv.runs.stopped, hInv.runs.within,
      hInv.runs.current, hInv.runs.next⟩, ⟨fun number data hNumber hData => ?_,
      fun number data hNumber hLess hData => ?_⟩, ?_⟩
  · rw [setBlock_state (by rfl)]
    exact hInv.placed.states number hNumber hNear
  · -- the engine writes in the block after those that are complete
    have hLess : number < world.completed.length := (List.getElem?_eq_some_iff.mp hData).1
    dsimp only at hNumber
    rw [setBlock_of_ne]
    · exact hInv.stored.memory number data hNumber hData
    · rw [hPlace]
      exact Ring.slot_ne hLess (by omega)
  · rw [setBlock_length (by rfl)]
    exact hInv.stored.length number data hNumber hLess hData
  · exact hInv.reads.kept hHanded rfl rfl rfl rfl rfl rfl (Nat.le_refl _) (.inl rfl) hFreed id .inl

theorem Isr.sized_le_serving (isr : Isr) : isr.sized ≤ isr.serving := by
  cases isr with
  | hand block => exact Nat.le_refl _
  | _ => exact Nat.zero_le _

theorem raiseInterrupt_inv (hInv : world.Inv blockCount marked)
    {last timeout complete startEvent : Bool} {completion : Nat}
    (hNext : raiseInterrupt world last timeout complete startEvent completion = some next) :
    next.Inv blockCount marked := by
  have hHanded := hInv.runs.handed_le
  have hFreed := hInv.placed.freed
  unfold raiseInterrupt at hNext
  split at hNext
  · rename_i block hStatus hCurrent
    obtain ⟨hPlace, hWithin⟩ := hInv.runs.current block hCurrent
    have hSome : world.engine.current ≠ none := by
      rw [hCurrent]
      exact Option.some_ne_none _
    have hNone : ∀ status, ¬ world.Raised status := by
      rintro status ⟨hRaised, -⟩
      rw [hStatus] at hRaised
      exact Option.some_ne_none _ hRaised.symm
    have hLength := hInv.runs.quiet hNone
    have hActive : world.device.streamActive = true := by
      by_contra hStopped
      exact hSome (hInv.runs.stopped (by simpa using hStopped)).1
    have hNotEnded : ¬ world.Ended := by
      rintro ⟨hStopped, -⟩
      exact Bool.noConfusion (hActive.symm.trans hStopped)
    simp only at hNext
    split at hNext
    · -- a block is complete
      rename_i hNew
      obtain rfl := Option.some.inj hNext
      refine ⟨⟨hInv.placed.freed, hInv.placed.lap, hInv.placed.states⟩,
        hInv.serves.kept rfl rfl rfl rfl (fun _ _ hSized => hSized.append rfl) (Nat.le_refl _)
          hInv.freed_lt, ⟨fun hQuiet => absurd ⟨rfl, hNew⟩ (hQuiet _), ?_,
          fun _ hQuiet => absurd ⟨rfl, hNew⟩ (hQuiet _), ?_, ?_, ?_, ?_⟩,
        ⟨fun number data hNumber hData => ?_, fun number data hNumber hLess hData => ?_⟩, ?_⟩
      · rintro status ⟨hRaised, -⟩
        obtain rfl := Option.some.inj hRaised
        refine ⟨by rw [List.length_append, hLength]; rfl, ?_, ?_⟩
        · refine ⟨(List.range world.engine.filled).map (world.device.blocks block).memory, ?_, ?_⟩
          · dsimp only
            rw [← hLength, List.getElem?_append_right (Nat.le_refl _), Nat.sub_self]
            rfl
          · rw [List.length_map, List.length_range]
        · constructor
          · intro hDone
            exact if_pos hDone
          · intro hStop
            by_contra hGo
            have hStop : world.engine.next = none := (if_neg hGo).symm.trans hStop
            exact hGo (by simp [hStop])
      · intro hStopped
        exact Bool.noConfusion (hActive.symm.trans hStopped)
      · rw [List.length_append]
        exact hWithin
      · intro place hPlaced
        split at hPlaced
        · exact absurd hPlaced (by simp)
        · obtain ⟨number, hNumber, -, hBelow, hIs⟩ := hInv.runs.next place hPlaced
          obtain rfl := hIs hSome
          rw [List.length_append]
          exact ⟨hNumber, hBelow⟩
      · intro place hPlaced
        exact absurd hPlaced (by simp)
      · -- the new block has what the engine wrote
        rw [List.getElem?_append] at hData
        split at hData
        · exact hInv.stored.memory number data hNumber hData
        · rename_i hAfter
          have hAt : number - world.completed.length = 0 := by
            have hIn := (List.getElem?_eq_some_iff.mp hData).1
            rw [List.length_singleton] at hIn
            omega
          rw [hAt, List.getElem?_cons_zero, Option.some.injEq] at hData
          have hIs : number = world.completed.length := by omega
          subst hData
          rw [List.length_map, List.length_range, hIs, ← hPlace]
      · have hSized := Isr.sized_le_serving world.isr
        dsimp only at hLess
        rw [List.getElem?_append_left (by omega)] at hData
        exact hInv.stored.length number data hNumber hLess hData
      · exact hInv.reads.kept hHanded rfl rfl rfl rfl rfl rfl (Nat.le_refl _) (.inr ⟨_, rfl⟩) hFreed
          (fun hAtEnd => absurd hAtEnd.1 hNotEnded) (fun hAtEnd => absurd hAtEnd.1 hNotEnded)
    · -- only the start of the experiment is told
      rename_i hStart
      obtain rfl := Option.some.inj hNext
      refine ⟨⟨hInv.placed.freed, hInv.placed.lap, hInv.placed.states⟩,
        hInv.serves.kept rfl rfl rfl rfl (fun _ _ => id) (Nat.le_refl _) hInv.freed_lt,
        ⟨fun _ => hLength, ?_, fun _ _ => hSome, ?_, hInv.runs.within,
          hInv.runs.current, hInv.runs.next⟩, ⟨hInv.stored.memory, hInv.stored.length⟩,
        hInv.reads.kept hHanded rfl rfl rfl rfl rfl rfl (Nat.le_refl _) (.inl rfl) hFreed id .inl⟩
      · rintro status ⟨hRaised, hNew⟩
        obtain rfl := Option.some.inj hRaised
        exact absurd hNew hStart
      · intro hStopped
        exact Bool.noConfusion (hActive.symm.trans hStopped)
  · exact absurd hNext (by simp)

/-! ### The handler -/

theorem expected_of_not_ended (hEnded : ¬ world.Ended) (number : Nat) :
    world.expected marked number =
      if number < world.handed then .data else if number < marked then .dma else .free := by
  simp only [expected, hEnded, false_and, if_false]

theorem expected_of_ended (hEnded : world.Ended) (number : Nat) :
    world.expected marked number =
      if number < world.handed then if number + 1 = world.handed then .dataEnd else .data
      else if number < marked then .dma else .free := by
  simp only [expected, hEnded, true_and]

/-- As long as the last block is not handed over, states go by the numbers alone. -/
theorem Placed.kept (hPlaced : world.Placed blockCount marked) (hBefore : ¬ world.Ended)
    (hAfter : ¬ next.Ended) (hHanded : next.handed = world.handed)
    (hFreed : next.freed = world.freed)
    (hStates : ∀ block, (next.device.blocks block).state = (world.device.blocks block).state)
    (hLap : marked + next.isr.marking ≤ world.freed + blockCount) :
    next.Placed blockCount marked := by
  refine ⟨by rw [hFreed, hHanded]; exact hPlaced.freed, by rw [hFreed]; exact hLap, ?_⟩
  intro number hNumber hNear
  rw [hFreed] at hNumber hNear
  rw [hStates, hPlaced.states number hNumber hNear, expected_of_not_ended hBefore,
    expected_of_not_ended hAfter, hHanded]

theorem Placed.setState (hPlaced : world.Placed blockCount marked) {target number : Nat}
    (hTarget : world.freed ≤ target) (hTargetNear : target < world.freed + blockCount)
    (hNumber : world.freed ≤ number) (hNear : number < world.freed + blockCount)
    (state : BlockState) :
    ((world.device.setState (target % blockCount) state).blocks (number % blockCount)).state =
      if number = target then state else world.expected marked number := by
  rw [setState_state, hPlaced.states number hNumber hNear]
  simp only [mod_eq_iff hNumber hNear hTarget hTargetNear]

theorem Runs.taken (hRuns : world.Runs blockCount marked) (hIdle : world.isr = .idle)
    {status : IrqStatus} (hRaised : world.Raised status) {device : StreamOpen Byte} {isr : Isr}
    (hServing : isr.serving = 1) (hMarking : isr.marking = 0)
    (hActive : device.streamActive = !status.done) :
    ({ world with device, isr, engine := { world.engine with status := none } } :
      World Byte).Runs blockCount marked := by
  obtain ⟨hLength, -, hDone⟩ := hRuns.raised status hRaised
  have hWithin := hRuns.within
  have hCurrent := hRuns.current
  have hNext := hRuns.next
  rw [hIdle] at hLength hWithin hCurrent hNext
  refine ⟨fun _ => ?_, ?_, ?_, ?_, ?_, ?_, ?_⟩
  · rw [hServing]
    exact hLength
  · rintro other ⟨hOther, -⟩
    exact absurd hOther (by simp)
  · intro hGo _ hStop
    rw [hActive, hDone.mpr hStop] at hGo
    exact Bool.noConfusion hGo
  · intro hStop
    rw [hActive] at hStop
    exact ⟨hDone.mp (by simpa using hStop), rfl⟩
  · rw [hMarking]
    exact hWithin
  · rw [hMarking]
    exact hCurrent
  · rw [hMarking]
    exact hNext

theorem enterIsr_inv (hInv : world.Inv blockCount marked) (hIdle : world.isr = .idle)
    {status : IrqStatus} (hStatus : world.engine.status = some status) :
    (enterIsr world status).Inv blockCount marked := by
  have hHanded := hInv.runs.handed_le
  have hFreed := hInv.placed.freed
  have hActive : world.device.streamActive = true := by
    by_contra hStopped
    have hNone := (hInv.runs.stopped (by simpa using hStopped)).2
    exact Option.some_ne_none _ (hStatus.symm.trans hNone)
  have hNotEnded : ¬ world.Ended := by
    rintro ⟨hStopped, -⟩
    exact Bool.noConfusion (hActive.symm.trans hStopped)
  have hServes := hInv.serves
  unfold Serves at hServes
  rw [hIdle] at hServes
  obtain ⟨hIndex, hLow, hHigh⟩ := hServes.1 hActive
  have hLap := hInv.placed.lap
  have hLengths := hInv.stored.length
  rw [hIdle] at hLap hLengths
  unfold enterIsr
  simp only [hActive, if_true]
  by_cases hNew : status.newBuffer = true
  · rw [if_pos hNew]
    obtain ⟨hLength, hSized, hDone⟩ := hInv.runs.raised status ⟨hStatus, hNew⟩
    rw [hIdle] at hLength hSized
    by_cases hLast : status.done = true
    · rw [if_pos hLast]
      refine ⟨hInv.placed.kept hNotEnded (fun hEnded => Isr.noConfusion hEnded.2) rfl rfl
          (fun _ => rfl) hLap,
        ⟨fun hGo => Bool.noConfusion hGo, hLow, hIndex, hSized⟩,
        hInv.runs.taken hIdle ⟨hStatus, hNew⟩ rfl rfl (by rw [hLast]; rfl),
        ⟨hInv.stored.memory, hLengths⟩, ?_⟩
      exact hInv.reads.kept hHanded rfl rfl rfl rfl rfl rfl (Nat.le_refl _) (.inl rfl) hFreed
        (fun hAtEnd => absurd hAtEnd.1 hNotEnded) (fun hAtEnd => Isr.noConfusion hAtEnd.1.2)
    · rw [if_neg hLast]
      -- the engine goes on, so it has been given a block after this one
      have hMarked : marked = world.handed + 2 := by
        have hRunning : world.engine.current ≠ none := fun hStop => hLast (hDone.mpr hStop)
        obtain ⟨block, hBlock⟩ := Option.ne_none_iff_exists'.mp hRunning
        have hBelow := (hInv.runs.current block hBlock).2
        rw [hIdle] at hBelow
        simp only [Isr.marking, Isr.serving] at hBelow hLength
        omega
      refine ⟨hInv.placed.kept hNotEnded (fun hEnded => Isr.noConfusion hEnded.2) rfl rfl
          (fun _ => rfl) hLap,
        ⟨rfl, hIndex, hMarked, hIndex, hSized⟩,
        hInv.runs.taken hIdle ⟨hStatus, hNew⟩ rfl rfl (by simp [hLast]),
        ⟨hInv.stored.memory, hLengths⟩, ?_⟩
      exact hInv.reads.kept hHanded rfl rfl rfl rfl rfl rfl (Nat.le_refl _) (.inl rfl) hFreed
        (fun hAtEnd => absurd hAtEnd.1 hNotEnded) (fun hAtEnd => Isr.noConfusion hAtEnd.1.2)
  · rw [if_neg hNew]
    have hNone : ∀ other, ¬ world.Raised other := by
      rintro other ⟨hOther, hOtherNew⟩
      obtain rfl := Option.some.inj (hStatus.symm.trans hOther)
      exact hNew hOtherNew
    refine ⟨hInv.placed.kept hNotEnded (fun hEnded => Bool.noConfusion hEnded.1) rfl rfl
        (fun _ => rfl) hInv.placed.lap,
      hInv.serves.kept rfl hActive.symm rfl rfl (fun _ _ => id) (Nat.le_refl _)
        (fun hEnded => absurd hEnded hNotEnded),
      ⟨fun _ => hInv.runs.quiet hNone, ?_, fun _ _ => hInv.runs.running hActive hNone, ?_,
        hInv.runs.within, hInv.runs.current, hInv.runs.next⟩,
      ⟨hInv.stored.memory, hInv.stored.length⟩, ?_⟩
    · rintro other ⟨hOther, -⟩
      exact absurd hOther (by simp)
    · intro hStop
      exact absurd hStop (by simp)
    · exact hInv.reads.kept hHanded rfl rfl rfl rfl rfl rfl (Nat.le_refl _) (.inl rfl) hFreed
        (fun hAtEnd => absurd hAtEnd.1 hNotEnded) (fun hAtEnd => Bool.noConfusion hAtEnd.1.1)

/-- The engine does not notice what is no business of its. -/
theorem Runs.kept {marked' : Nat} (hRuns : world.Runs blockCount marked)
    (hEngine : next.engine = world.engine) (hCompleted : next.completed = world.completed)
    (hActive : next.device.streamActive = world.device.streamActive)
    (hServed : next.handed + next.isr.serving = world.handed + world.isr.serving)
    (hAssigned : marked' + next.isr.marking = marked + world.isr.marking) :
    next.Runs blockCount marked' := by
  have hRaised : ∀ status, next.Raised status ↔ world.Raised status := by
    intro status
    rw [Raised, Raised, hEngine]
  have hSized : ∀ number length, next.Sized number length ↔ world.Sized number length := by
    intro number length
    rw [Sized, Sized, hCompleted]
  refine ⟨?_, ?_, ?_, ?_, ?_, ?_, ?_⟩
  · simp only [hRaised, hCompleted, hServed]
    exact hRuns.quiet
  · simp only [hRaised, hSized, hCompleted, hServed, hEngine]
    exact hRuns.raised
  · simp only [hRaised, hActive, hEngine]
    exact hRuns.running
  · simp only [hActive, hEngine]
    exact hRuns.stopped
  · rw [hCompleted, hAssigned]
    exact hRuns.within
  · simp only [hEngine, hCompleted, hAssigned]
    exact hRuns.current
  · simp only [hEngine, hCompleted, hAssigned]
    exact hRuns.next

/-- What the handler does between two states of a block is nothing to the reader. -/
theorem Inv.reads_of_busy (hInv : world.Inv blockCount marked) (hBusy : world.isr ≠ .idle)
    (hBusyAfter : next.isr ≠ .idle)
    (hIndex : next.device.readBlockIndex = world.device.readBlockIndex)
    (hOffset : next.device.readOffset = world.device.readOffset)
    (hReader : next.reader = world.reader) (hFreed : next.freed = world.freed)
    (hReturned : next.returned = world.returned) (hResults : next.results = world.results)
    (hHanded : next.handed = world.handed) (hCompleted : next.completed = world.completed) :
    next.Reads blockCount :=
  hInv.reads.kept hInv.runs.handed_le hIndex hOffset hReader hFreed hReturned hResults hHanded.ge
    (.inl hCompleted) hInv.placed.freed (fun hAtEnd => absurd hAtEnd.1.2 hBusy)
    (fun hAtEnd => absurd hAtEnd.1.2 hBusyAfter)

theorem Inv.near_of_free (hCount : 3 ≤ blockCount) (hInv : world.Inv blockCount marked)
    (hMarked : marked = world.handed + 2)
    (hFree : (world.device.blocks ((world.handed + 2) % blockCount)).state = .free) :
    world.handed + 2 < world.freed + blockCount := by
  by_contra hFar
  have hFreed := hInv.placed.freed
  have hNear := hInv.placed.lap
  have hLap : world.handed + 2 = world.handed + 2 - blockCount + blockCount := by
    omega
  have hState := hInv.placed.states (world.handed + 2 - blockCount) (by omega) (by omega)
  rw [hLap, Nat.add_mod_right, hState] at hFree
  unfold expected at hFree
  rw [if_pos (by omega)] at hFree
  split at hFree
  · exact BlockState.noConfusion hFree
  · exact BlockState.noConfusion hFree

theorem advanceIsrBlock_inv (hCount : 3 ≤ blockCount) (hInv : world.Inv blockCount marked)
    {block length : Nat} (hAt : world.isr = .advance block length) :
    (advanceIsrBlock blockCount world block length).Inv blockCount marked := by
  have hBusy : world.isr ≠ .idle := by
    rw [hAt]
    exact Isr.noConfusion
  have hServes := hInv.serves
  unfold Serves at hServes
  rw [hAt] at hServes
  obtain ⟨hActive, hIndex, hMarked, hBlock, hSized⟩ := hServes
  have hLap := hInv.placed.lap
  have hLengths := hInv.stored.length
  rw [hAt] at hLap hLengths
  have hStep : stepIndex blockCount world.device.isrBlockIndex =
      (world.handed + 1) % blockCount := by
    rw [hIndex, stepIndex_mod (by omega)]
  have hStepNext : stepIndex blockCount ((world.handed + 1) % blockCount) =
      (world.handed + 2) % blockCount := stepIndex_mod (by omega) _
  unfold advanceIsrBlock
  simp only [hStep, hStepNext]
  by_cases hFree : (world.device.blocks ((world.handed + 2) % blockCount)).state = .free
  · rw [if_pos hFree]
    have hNear := hInv.near_of_free hCount hMarked hFree
    exact ⟨hInv.placed.kept (fun hEnded => hBusy hEnded.2) (fun hEnded => Isr.noConfusion hEnded.2)
        rfl rfl (fun _ => rfl) hLap,
      ⟨hActive, rfl, hMarked, hBlock, hSized, rfl, hNear⟩,
      hInv.runs.kept rfl rfl rfl (by rw [hAt]; rfl) (by rw [hAt]; rfl),
      ⟨hInv.stored.memory, hLengths⟩,
      hInv.reads_of_busy hBusy Isr.noConfusion rfl rfl rfl rfl rfl rfl rfl rfl⟩
  · rw [if_neg hFree]
    have hRange : world.handed + 2 ≤ marked ∧ marked ≤ world.handed + 3 := by omega
    have hLow : world.handed < marked := by omega
    exact ⟨hInv.placed.kept (fun hEnded => hBusy hEnded.2) (fun hEnded => Isr.noConfusion hEnded.2)
        rfl rfl (fun _ => rfl) hLap,
      ⟨fun _ => ⟨rfl, hRange⟩, hLow, hBlock, hSized⟩,
      hInv.runs.kept rfl rfl rfl (by rw [hAt]; rfl) (by rw [hAt]; rfl),
      ⟨hInv.stored.memory, hLengths⟩,
      hInv.reads_of_busy hBusy Isr.noConfusion rfl rfl rfl rfl rfl rfl rfl rfl⟩

theorem assign_inv (hInv : world.Inv blockCount marked) {block length place : Nat}
    (hAt : world.isr = .assign block length place) :
    ({ world with
      engine := { world.engine with next := some place }
      isr := .mark block length place } : World Byte).Inv blockCount marked := by
  have hBusy : world.isr ≠ .idle := by
    rw [hAt]
    exact Isr.noConfusion
  have hServes := hInv.serves
  unfold Serves at hServes
  rw [hAt] at hServes
  obtain ⟨hActive, hIndex, hMarked, hBlock, hSized, hPlace, hNear⟩ := hServes
  have hLengths := hInv.stored.length
  have hQuiet := hInv.runs.quiet
  have hRaised := hInv.runs.raised
  have hWithin := hInv.runs.within
  have hCurrent := hInv.runs.current
  rw [hAt] at hLengths hQuiet hRaised hWithin hCurrent
  simp only [Isr.marking, Isr.serving, Nat.add_zero] at hQuiet hRaised hWithin hCurrent
  have hServed : world.handed + 1 ≤ world.completed.length := by
    by_cases hSome : ∃ status, world.Raised status
    · obtain ⟨status, hStatus⟩ := hSome
      have hLength := (hRaised status hStatus).1
      omega
    · have hLength := hQuiet fun status hStatus => hSome ⟨status, hStatus⟩
      omega
  refine ⟨hInv.placed.kept (fun hEnded => hBusy hEnded.2) (fun hEnded => Isr.noConfusion hEnded.2)
      rfl rfl (fun _ => rfl) (by simp only [Isr.marking]; omega),
    ⟨hActive, hIndex, hMarked, hBlock, hSized, hPlace⟩,
    ⟨hQuiet, hRaised, hInv.runs.running, hInv.runs.stopped, Nat.le_succ_of_le hWithin, ?_, ?_⟩,
    ⟨hInv.stored.memory, hLengths⟩,
    hInv.reads_of_busy hBusy Isr.noConfusion rfl rfl rfl rfl rfl rfl rfl rfl⟩
  · intro other hOther
    obtain ⟨hIs, hBelow⟩ := hCurrent other hOther
    exact ⟨hIs, Nat.lt_succ_of_lt hBelow⟩
  · intro other hOther
    obtain rfl := Option.some.inj hOther
    refine ⟨world.handed + 2, hPlace, by rw [← hMarked]; exact hWithin, ?_, fun hRunning => ?_⟩
    · simp only [Isr.marking]
      omega
    · -- the engine cannot have come to the end of the block before this one
      obtain ⟨running, hBlock⟩ := Option.ne_none_iff_exists'.mp hRunning
      have hBelow := (hCurrent running hBlock).2
      dsimp only
      omega

theorem mark_inv (hInv : world.Inv blockCount marked) {block length place : Nat}
    (hAt : world.isr = .mark block length place) :
    ({ world with
      device := world.device.setState place .dma
      isr := .receive block length } : World Byte).Inv blockCount (marked + 1) := by
  have hBusy : world.isr ≠ .idle := by
    rw [hAt]
    exact Isr.noConfusion
  have hServes := hInv.serves
  unfold Serves at hServes
  rw [hAt] at hServes
  obtain ⟨hActive, hIndex, hMarked, hBlock, hSized, hPlace⟩ := hServes
  have hFreed := hInv.placed.freed
  have hLap := hInv.placed.lap
  have hLengths := hInv.stored.length
  rw [hAt] at hLap hLengths
  simp only [Isr.marking] at hLap
  have hRange : world.handed + 2 ≤ marked + 1 ∧ marked + 1 ≤ world.handed + 3 := by omega
  have hLow : world.handed < marked + 1 := by omega
  refine ⟨⟨hFreed, hLap, fun number hNumber hNear => ?_⟩,
    ⟨fun _ => ⟨hIndex, hRange⟩, hLow, hBlock, hSized⟩,
    hInv.runs.kept rfl rfl rfl (by rw [hAt]; rfl) (by rw [hAt]; rfl),
    ⟨fun number data hNumber hData => ?_, fun number data hNumber hLess hData => ?_⟩,
    hInv.reads_of_busy hBusy Isr.noConfusion rfl rfl rfl rfl rfl rfl rfl rfl⟩
  · dsimp only at hNumber hNear
    rw [hPlace, hInv.placed.setState (by omega) (by omega) hNumber hNear,
      expected_of_not_ended (fun hEnded => hBusy hEnded.2),
      expected_of_not_ended (fun hEnded => Isr.noConfusion hEnded.2)]
    dsimp only
    split_ifs <;> first | rfl | omega
  · rw [setState_memory]
    exact hInv.stored.memory number data hNumber hData
  · rw [setState_length]
    exact hLengths number data hNumber hLess hData

theorem receive_inv (hInv : world.Inv blockCount marked) {block length : Nat}
    (hAt : world.isr = .receive block length) :
    ({ world with
      device := world.device.setBlock block { world.device.blocks block with length }
      isr := .hand block } : World Byte).Inv blockCount marked := by
  have hBusy : world.isr ≠ .idle := by
    rw [hAt]
    exact Isr.noConfusion
  have hServes := hInv.serves
  unfold Serves at hServes
  rw [hAt] at hServes
  obtain ⟨hRange, hMarked, hBlock, hSized⟩ := hServes
  have hFreed := hInv.placed.freed
  have hLap := hInv.placed.lap
  have hLengths := hInv.stored.length
  rw [hAt] at hLap hLengths
  simp only [Isr.marking, Isr.sized, Nat.add_zero] at hLap hLengths
  refine ⟨hInv.placed.kept (fun hEnded => hBusy hEnded.2) (fun hEnded => Isr.noConfusion hEnded.2)
      rfl rfl (fun _ => setBlock_state (by rfl)) hLap,
    ⟨hRange, hMarked, hBlock, length, hSized⟩,
    hInv.runs.kept rfl rfl rfl (by rw [hAt]; rfl) (by rw [hAt]; rfl),
    ⟨fun number data hNumber hData => ?_, fun number data hNumber hLess hData => ?_⟩,
    hInv.reads_of_busy hBusy Isr.noConfusion rfl rfl rfl rfl rfl rfl rfl rfl⟩
  · rw [setBlock_memory (by rfl)]
    exact hInv.stored.memory number data hNumber hData
  · simp only [Isr.sized] at hLess
    dsimp only at hNumber hData
    by_cases hIs : number = world.handed
    · obtain ⟨held, hHeld, hLength⟩ := hSized
      rw [hIs, hHeld, Option.some.injEq] at hData
      rw [hIs, ← hBlock, setBlock_self, ← hData, hLength]
    · rw [setBlock_of_ne]
      · exact hLengths number data hNumber (by omega) hData
      · rw [hBlock]
        exact Ring.slot_ne (by omega) (by omega)

/-- The handler hands a block over. If it is the last one and has data, no read that has found
nothing is about to return at this block. -/
theorem hand_inv (hInv : world.Inv blockCount marked) {block : Nat}
    (hAt : world.isr = .hand block)
    (hGuard : world.device.streamActive = false → 0 < (world.device.blocks block).length →
      ∀ call, world.reader = .finish call → call.copied = [] →
        world.device.readBlockIndex ≠ block) :
    ({ world with
      device := world.device.setState block
        (if world.device.streamActive then .data else .dataEnd)
      isr := .idle
      handed := world.handed + 1 } : World Byte).Inv blockCount marked := by
  have hBusy : world.isr ≠ .idle := by
    rw [hAt]
    exact Isr.noConfusion
  have hServes := hInv.serves
  unfold Serves at hServes
  rw [hAt] at hServes
  obtain ⟨hRange, hMarked, hBlock, length, hSized⟩ := hServes
  have hFreed := hInv.placed.freed
  have hLap := hInv.placed.lap
  have hLengths := hInv.stored.length
  rw [hAt] at hLap hLengths
  simp only [Isr.marking, Isr.sized, Nat.add_zero] at hLap hLengths
  refine ⟨⟨Nat.le_succ_of_le hFreed, hLap, fun number hNumber hNear => ?_⟩,
    ⟨fun hGo => ?_, fun hStop => ⟨Nat.lt_succ_of_le hFreed, hMarked⟩⟩,
    hInv.runs.kept rfl rfl rfl (by rw [hAt]; rfl) (by rw [hAt]; rfl),
    ⟨fun number data hNumber hData => ?_, fun number data hNumber hLess hData => ?_⟩, ?_⟩
  · dsimp only at hNumber hNear
    rw [hBlock, hInv.placed.setState (by omega) (by omega) hNumber hNear,
      expected_of_not_ended (fun hEnded => hBusy hEnded.2)]
    cases hActive : world.device.streamActive with
    | true =>
        rw [expected_of_not_ended]
        · simp only [if_true]
          split_ifs <;> first | rfl | omega
        · exact fun hEnded => Bool.noConfusion (hActive.symm.trans hEnded.1)
    | false =>
        rw [expected_of_ended]
        · dsimp only
          split_ifs <;> first | rfl | omega
        · exact ⟨hActive, rfl⟩
  · obtain ⟨hIndex, hLow, hHigh⟩ := hRange hGo
    exact ⟨hIndex, hLow, hHigh⟩
  · rw [setState_memory]
    exact hInv.stored.memory number data hNumber hData
  · rw [setState_length]
    exact hLengths number data hNumber hLess hData
  · refine hInv.reads.kept hInv.runs.handed_le rfl rfl rfl rfl rfl rfl (Nat.le_succ _) (.inl rfl)
      hFreed (fun hAtEnd => absurd hAtEnd.1.2 hBusy) ?_
    rintro ⟨⟨hStop, -⟩, hLast⟩
    dsimp only at hLast
    refine .inr ⟨by omega, fun call hCall hNone => ?_⟩
    -- the reader is at this block, and it is empty
    have hIs : world.freed = world.handed := by omega
    obtain ⟨data, hData, -⟩ := hSized
    have hStored := hLengths world.handed data (by omega) (by omega) hData
    have hEmpty : data.length = 0 := by
      by_contra hSome
      refine hGuard hStop ?_ call hCall hNone ?_
      · rw [hBlock, hStored]
        omega
      · rw [hInv.reads.index, hIs, hBlock]
    have hOffset : world.device.readOffset = 0 :=
      hInv.reads.started.resolve_left (by omega)
    have hNext : world.nextData = data := by
      rw [nextData, hIs, hData]
      rfl
    change world.device.readOffset = world.nextData.length
    rw [hOffset, hNext, hEmpty]

end World

end Driver
