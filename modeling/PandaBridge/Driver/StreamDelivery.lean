import PandaBridge.Driver.StreamIsr

/-! The reader keeps the ring as well, and with that every run delivers the data of the completed
blocks, as long as a read does not stop short of the last of them. -/
namespace Driver

variable {Byte : Type}

namespace World

variable {blockCount marked : Nat} {world next : World Byte}

/-! ### What the reader sees -/

section Facts

variable (hCount : 3 ≤ blockCount) (hInv : world.Inv blockCount marked)

include hInv

theorem Inv.handed_lt (hEnded : ¬ world.Ended) : world.handed < marked := by
  have hServes := hInv.serves
  unfold Serves at hServes
  cases hAt : world.isr with
  | idle =>
      rw [hAt] at hServes
      have hActive : world.device.streamActive = true := by
        by_contra hStop
        exact hEnded ⟨by simpa using hStop, hAt⟩
      exact (hServes.1 hActive).2.1
  | advance block length =>
      rw [hAt] at hServes
      have hMarked := hServes.2.2.1
      omega
  | assign block length place =>
      rw [hAt] at hServes
      have hMarked := hServes.2.2.1
      omega
  | mark block length place =>
      rw [hAt] at hServes
      have hMarked := hServes.2.2.1
      omega
  | receive block length =>
      rw [hAt] at hServes
      exact hServes.2.1
  | hand block =>
      rw [hAt] at hServes
      exact hServes.2.1

theorem Inv.handed_le_marked : world.handed ≤ marked := by
  by_cases hEnded : world.Ended
  · have hServes := hInv.serves
    unfold Serves at hServes
    rw [hEnded.2] at hServes
    exact (hServes.2 hEnded.1).2
  · exact (hInv.handed_lt hEnded).le

theorem Inv.readBlock_length (hLess : world.freed < world.handed) :
    world.device.readBlock.length = world.nextData.length ∧
      world.nextData = (List.range world.nextData.length).map world.device.readBlock.memory := by
  have hIn : world.freed < world.completed.length := by
    have := hInv.runs.handed_le
    omega
  obtain ⟨data, hData⟩ : ∃ data, world.completed[world.freed]? = some data :=
    ⟨_, List.getElem?_eq_getElem hIn⟩
  have hNext : world.nextData = data := by
    rw [nextData, hData]
    rfl
  rw [hNext, StreamOpen.readBlock, hInv.reads.index]
  exact ⟨hInv.stored.length world.freed data (Nat.le_refl _) (by omega) hData,
    hInv.stored.memory world.freed data (Nat.le_refl _) hData⟩

include hCount

theorem Inv.readBlock_state : world.device.readBlock.state = world.expected marked world.freed := by
  rw [StreamOpen.readBlock, hInv.reads.index]
  exact hInv.placed.states world.freed (Nat.le_refl _) (by omega)

/-- The reader has no block of its own only where the engine has it. -/
theorem Inv.freed_lt_of_ne_dma (hState : world.device.readBlock.state ≠ .dma) :
    world.freed < world.handed := by
  by_contra hAt
  have hIs : world.freed = world.handed := by
    have := hInv.placed.freed
    omega
  have hNotEnded : ¬ world.Ended := fun hEnded => hAt (hInv.freed_lt hEnded)
  refine hState ?_
  rw [hInv.readBlock_state hCount, expected_of_not_ended hNotEnded, hIs, if_neg (by omega),
    if_pos (hInv.handed_lt hNotEnded)]

theorem Inv.state_eq_dataEnd_iff : world.device.readBlock.state = .dataEnd ↔ world.AtEnd := by
  rw [hInv.readBlock_state hCount]
  unfold expected AtEnd
  constructor
  · intro hState
    split at hState
    · split at hState
      · assumption
      · exact absurd hState (by simp)
    · split at hState
      · exact absurd hState (by simp)
      · exact absurd hState (by simp)
  · intro hAtEnd
    have hLast := hAtEnd.2
    rw [if_pos (by omega), if_pos hAtEnd]

theorem Inv.freed_lt_of_ready (hReady : world.device.blockReady = true) :
    world.freed < world.handed := by
  refine hInv.freed_lt_of_ne_dma hCount fun hState => ?_
  simp [StreamOpen.blockReady, hState] at hReady

theorem Inv.ready_of_atEnd (hAtEnd : world.AtEnd) : world.device.blockReady = true := by
  simp [StreamOpen.blockReady, (hInv.state_eq_dataEnd_iff hCount).mpr hAtEnd]

omit hCount in
/-- Only the call and what it returns change. -/
theorem Inv.withReader {reader : Reader Byte} {returned : List Byte}
    {results : List (Nat × ReadReturn)}
    (hReads : ({ world with reader, returned, results } : World Byte).Reads blockCount) :
    ({ world with reader, returned, results } : World Byte).Inv blockCount marked :=
  ⟨⟨hInv.placed.freed, hInv.placed.lap, hInv.placed.states⟩,
    hInv.serves.kept rfl rfl rfl rfl (fun _ _ => id) (Nat.le_refl _) hInv.freed_lt,
    hInv.runs.kept rfl rfl rfl rfl rfl, ⟨hInv.stored.memory, hInv.stored.length⟩, hReads⟩

omit hCount in
theorem Inv.moves {reader : Reader Byte} (hCopied : reader.copied = world.reader.copied)
    (hCalls : ({ world with reader } : World Byte).Calls) :
    ({ world with reader } : World Byte).Inv blockCount marked := by
  refine hInv.withReader ⟨hInv.reads.index, hInv.reads.started, hInv.reads.bound, hCalls, ?_, ?_,
    hInv.reads.always⟩
  · rw [hCopied]
    exact hInv.reads.delivered
  · intro result hResult hZero
    rw [hCopied]
    exact hInv.reads.zero result hResult hZero

omit hCount in
/-- A call returns what it has copied. After an end there are only ends. -/
theorem Inv.returns {size : Nat} {bytes : List Byte} {result : ReadReturn}
    (hBytes : bytes = world.reader.copied)
    (hZero : result = .zero → world.AtEnd ∧ world.Complete)
    (hAlways : world.AtEnd → world.Complete → world.reader.copied = [] → result = .zero) :
    (returnRead world size bytes result).Inv blockCount marked := by
  refine hInv.withReader ⟨hInv.reads.index, hInv.reads.started, hInv.reads.bound, trivial, ?_, ?_, ?_⟩
  · rw [hBytes]
    exact (List.append_nil _).trans hInv.reads.delivered
  · intro other hOther hIs
    rcases List.mem_cons.mp hOther with rfl | hOther
    · obtain ⟨hAtEnd, hComplete⟩ := hZero hIs
      exact ⟨hAtEnd, hComplete, rfl⟩
    · obtain ⟨hAtEnd, hComplete, -⟩ := hInv.reads.zero other hOther hIs
      exact ⟨hAtEnd, hComplete, rfl⟩
  · refine List.pairwise_cons.mpr ⟨fun other hOther hIs => ?_, hInv.reads.always⟩
    obtain ⟨hAtEnd, hComplete, hNone⟩ := hInv.reads.zero other hOther hIs
    exact hAlways hAtEnd hComplete hNone

end Facts

/-! ### The steps of the reader -/

theorem wake_inv (hCount : 3 ≤ blockCount) (hInv : world.Inv blockCount marked) {size : Nat}
    (hAt : world.reader = .waiting size) (hReady : world.device.blockReady = true)
    (hGuard : size = 0 → world.device.readBlock.state = .dataEnd →
      world.device.readOffset ≥ world.device.readBlock.length) :
    ({ world with reader := .test { size, count := size, copied := [] } } :
      World Byte).Inv blockCount marked := by
  have hLess := hInv.freed_lt_of_ready hCount hReady
  refine hInv.moves (by rw [hAt]; rfl) fun hNone _ => ⟨hLess, fun hAtEnd => ?_⟩
  have hAll := hGuard hNone ((hInv.state_eq_dataEnd_iff hCount).mpr hAtEnd)
  rw [(hInv.readBlock_length hLess).1] at hAll
  exact Nat.le_antisymm hInv.reads.bound hAll

theorem test_inv (hCount : 3 ≤ blockCount) (hInv : world.Inv blockCount marked)
    {call : ReadCall Byte} (hAt : world.reader = .test call) :
    ({ world with
      reader := if call.count > 0 ∧ world.device.readBlock.state ≠ .dma then .copy call
        else .finish call } : World Byte).Inv blockCount marked := by
  have hCalls := hInv.reads.calls
  unfold Calls at hCalls
  rw [hAt] at hCalls
  by_cases hGo : call.count > 0 ∧ world.device.readBlock.state ≠ .dma
  · rw [if_pos hGo]
    have hLess := hInv.freed_lt_of_ne_dma hCount hGo.2
    exact hInv.moves (by rw [hAt]; rfl) ⟨hLess, hGo.1⟩
  · rw [if_neg hGo]
    refine hInv.moves (by rw [hAt]; rfl) fun hNone hAtEnd => ?_
    have hEnd := (hInv.state_eq_dataEnd_iff hCount).mpr hAtEnd
    have hZero : call.count = 0 := by
      by_contra hSome
      exact hGo ⟨Nat.pos_of_ne_zero hSome, by rw [hEnd]; exact BlockState.noConfusion⟩
    exact (hCalls hZero hNone).2 hAtEnd

theorem advanceBlock_inv (hCount : 3 ≤ blockCount) (hInv : world.Inv blockCount marked)
    {call : ReadCall Byte} (hAt : world.reader = .check call)
    (hAll : world.device.readOffset ≥ world.device.readBlock.length)
    (hState : world.device.readBlock.state ≠ .dataEnd) :
    ({ world with
      device := advanceBlock blockCount world.device
      reader := .test call
      freed := world.freed + 1 } : World Byte).Inv blockCount marked := by
  have hCalls := hInv.reads.calls
  unfold Calls at hCalls
  rw [hAt] at hCalls
  obtain ⟨hLess, hSome⟩ := hCalls
  have hLap := hInv.placed.lap
  have hMarked := hInv.handed_le_marked
  have hNotAtEnd : ¬ world.AtEnd := fun hAtEnd =>
    hState ((hInv.state_eq_dataEnd_iff hCount).mpr hAtEnd)
  have hIn : world.freed < world.completed.length := by
    have := hInv.runs.handed_le
    omega
  have hComplete : world.device.readOffset = world.nextData.length := by
    rw [(hInv.readBlock_length hLess).1] at hAll
    exact Nat.le_antisymm hInv.reads.bound hAll
  refine ⟨⟨hLess, by dsimp only; omega, fun number hNumber hNear => ?_⟩,
    hInv.serves.kept rfl rfl rfl rfl (fun _ _ => id) (Nat.le_succ _) fun hEnded => ?_,
    hInv.runs.kept rfl rfl rfl rfl rfl,
    ⟨fun number data hNumber hData => ?_, fun number data hNumber hBelow hData => ?_⟩,
    ⟨?_, .inr rfl, Nat.zero_le _, fun hZero hNone => absurd hNone (hSome hZero), ?_, ?_,
      hInv.reads.always⟩⟩
  · dsimp only at hNumber hNear
    have hExpected : ∀ other, ({ world with
        device := advanceBlock blockCount world.device
        reader := .test call
        freed := world.freed + 1 } : World Byte).expected marked other =
          world.expected marked other := fun other => rfl
    rw [hExpected]
    change ((world.device.setState world.device.readBlockIndex .free).blocks _).state = _
    rw [hInv.reads.index]
    by_cases hWrap : number = world.freed + blockCount
    · -- the block that is given back is the last one of the new lap
      rw [hWrap, Nat.add_mod_right, setState_state, if_pos rfl]
      unfold expected
      rw [if_neg (by omega), if_neg (by omega)]
    · rw [hInv.placed.setState (Nat.le_refl _) (by omega) (by omega) (by omega), if_neg (by omega)]
  · have hNotLast : world.freed + 1 ≠ world.handed := fun hLast => hNotAtEnd ⟨hEnded, hLast⟩
    dsimp only
    omega
  · change _ = (List.range data.length).map
      ((world.device.setState world.device.readBlockIndex .free).blocks _).memory
    rw [setState_memory]
    exact hInv.stored.memory number data (by dsimp only at hNumber; omega) hData
  · change ((world.device.setState world.device.readBlockIndex .free).blocks _).length = _
    rw [setState_length]
    exact hInv.stored.length number data (by dsimp only at hNumber; omega) hBelow hData
  · change stepIndex blockCount world.device.readBlockIndex = _
    rw [hInv.reads.index, stepIndex_mod (by omega)]
  · have hDelivered := hInv.reads.delivered
    rw [hAt, hComplete, List.take_length] at hDelivered
    change world.returned ++ call.copied = _ ++ List.take 0 _
    rw [List.take_zero, List.append_nil, List.take_add_one, List.flatten_append]
    refine hDelivered.trans (congrArg _ ?_)
    rw [nextData, List.getElem?_eq_getElem hIn]
    simp
  · intro result hResult hZero
    exact absurd (hInv.reads.zero result hResult hZero).1 hNotAtEnd

theorem readerStep_inv (hCount : 3 ≤ blockCount) (hInv : world.Inv blockCount marked)
    (hNext : readerStep blockCount world = some next) : next.Inv blockCount marked := by
  have hCalls := hInv.reads.calls
  unfold Calls at hCalls
  unfold readerStep at hNext
  cases hAt : world.reader with
  | idle => simp [hAt] at hNext
  | waiting size => simp [hAt] at hNext
  | test call =>
      rw [hAt] at hNext
      obtain rfl := Option.some.inj hNext
      exact test_inv hCount hInv hAt
  | copy call =>
      rw [hAt] at hNext hCalls
      simp only at hNext
      split at hNext
      · exact absurd hNext (by simp)
      · obtain rfl := Option.some.inj hNext
        refine hInv.moves (by rw [hAt]; rfl) ⟨hCalls.1, fun hZero => ?_⟩
        have hPos := hCalls.2
        omega
  | check call =>
      rw [hAt] at hNext hCalls
      obtain ⟨hLess, hSome⟩ := hCalls
      simp only at hNext
      split at hNext
      · rename_i hAll
        split at hNext
        · obtain rfl := Option.some.inj hNext
          refine hInv.moves (by rw [hAt]; rfl) fun _ _ => ?_
          rw [(hInv.readBlock_length hLess).1] at hAll
          exact Nat.le_antisymm hInv.reads.bound hAll
        · rename_i hState
          obtain rfl := Option.some.inj hNext
          exact advanceBlock_inv hCount hInv hAt hAll hState
      · obtain rfl := Option.some.inj hNext
        exact hInv.moves (by rw [hAt]; rfl) fun hZero hNone => absurd hNone (hSome hZero)
  | finish call =>
      rw [hAt] at hNext hCalls
      simp only at hNext
      split at hNext
      · rename_i hPos
        obtain rfl := Option.some.inj hNext
        refine hInv.returns (by rw [hAt]; rfl) (fun hZero => ReadReturn.noConfusion hZero) ?_
        intro _ _ hNone
        rw [hAt] at hNone
        exact absurd hPos (by simp [show call.copied = [] from hNone])
      · rename_i hNone
        have hNone : call.copied = [] := List.length_eq_zero_iff.mp (by omega)
        split at hNext
        · rename_i hState
          obtain rfl := Option.some.inj hNext
          have hAtEnd := (hInv.state_eq_dataEnd_iff hCount).mp hState
          exact hInv.returns (by rw [hAt]; exact hNone.symm) (fun _ => ⟨hAtEnd, hCalls hNone hAtEnd⟩)
            (fun _ _ _ => rfl)
        · rename_i hState
          obtain rfl := Option.some.inj hNext
          refine hInv.returns (by rw [hAt]; exact hNone.symm)
            (fun hZero => ReadReturn.noConfusion hZero) (fun hAtEnd _ _ => ?_)
          exact absurd ((hInv.state_eq_dataEnd_iff hCount).mpr hAtEnd) hState

theorem copyStep_inv (hInv : world.Inv blockCount marked) {moved : Nat}
    (hGuard : moved = 0 → ∀ call, world.reader = .copy call → call.copied = [])
    (hNext : copyStep world moved = some next) : next.Inv blockCount marked := by
  have hCalls := hInv.reads.calls
  unfold Calls at hCalls
  unfold copyStep at hNext
  cases hAt : world.reader with
  | copy call =>
      rw [hAt] at hNext hCalls
      obtain ⟨hLess, hPos⟩ := hCalls
      obtain ⟨hLength, hMemory⟩ := hInv.readBlock_length hLess
      simp only at hNext
      split at hNext
      · rename_i hRoom
        obtain ⟨hMore, hMoved⟩ := hRoom
        have hNotComplete : ¬ world.Complete := by
          unfold Complete
          omega
        have hNever : ∀ result ∈ world.results, result.2 ≠ .zero := fun result hResult hZero =>
          hNotComplete (hInv.reads.zero result hResult hZero).2.1
        split at hNext
        · rename_i hNothing
          obtain rfl := Option.some.inj hNext
          refine hInv.returns ?_ (fun hZero => ReadReturn.noConfusion hZero)
            (fun _ hComplete _ => absurd hComplete hNotComplete)
          rw [hAt]
          exact (hGuard hNothing call hAt).symm
        · rename_i hSome
          obtain rfl := Option.some.inj hNext
          have hBound : world.device.readOffset + moved ≤ world.nextData.length := by omega
          refine ⟨⟨hInv.placed.freed, hInv.placed.lap, hInv.placed.states⟩,
            hInv.serves.kept rfl rfl rfl rfl (fun _ _ => id) (Nat.le_refl _) hInv.freed_lt,
            hInv.runs.kept rfl rfl rfl rfl rfl, ⟨hInv.stored.memory, hInv.stored.length⟩,
            ⟨hInv.reads.index, .inl hLess, hBound, ⟨hLess, fun _ hNone => ?_⟩, ?_, ?_,
              hInv.reads.always⟩⟩
          · have hNone := (List.append_eq_nil_iff.mp hNone).2
            exact hSome (by simpa using hNone)
          · -- the next bytes of the block
            have hDelivered := hInv.reads.delivered
            rw [hAt] at hDelivered
            have hBytes : (List.range' world.device.readOffset moved).map
                world.device.readBlock.memory =
                  (world.nextData.drop world.device.readOffset).take moved := by
              rw [hMemory, ← List.map_drop, ← List.map_take, List.range_eq_range', List.drop_range',
                List.take_range'_of_length_ge (by omega), Nat.mul_one, Nat.zero_add]
            change world.returned ++ (call.copied ++ _) = _ ++ world.nextData.take _
            rw [hBytes, ← List.append_assoc, List.take_add, ← List.append_assoc]
            exact congrArg (· ++ _) hDelivered
          · intro result hResult hZero
            exact absurd hZero (hNever result hResult)
      · exact absurd hNext (by simp)
  | idle => simp [hAt] at hNext
  | waiting size => simp [hAt] at hNext
  | test call => simp [hAt] at hNext
  | check call => simp [hAt] at hNext
  | finish call => simp [hAt] at hNext

/-! ### Whole runs -/

theorem startHardware_inv (hCount : 3 ≤ blockCount) (device : StreamOpen Byte) :
    (startHardware device).Inv blockCount 2 := by
  have hNotEnded : ¬ (startHardware device).Ended := fun hEnded => Bool.noConfusion hEnded.1
  refine ⟨⟨Nat.le_refl _, ?_, fun number _ hNear => ?_⟩,
    ⟨fun _ => ⟨(Nat.zero_mod _).symm, Nat.zero_lt_two, Nat.le_refl 2⟩,
      fun hStop => Bool.noConfusion hStop⟩,
    ⟨fun _ => rfl, fun status hRaised => absurd hRaised.1 nofun, fun _ _ => nofun,
      fun hStop => Bool.noConfusion hStop, Nat.zero_le _, ?_, ?_⟩,
    ⟨fun number data _ hData => absurd hData nofun, fun number data _ _ hData => absurd hData nofun⟩,
    ⟨(Nat.zero_mod _).symm, .inr rfl, Nat.zero_le _, trivial, rfl, nofun, List.Pairwise.nil⟩⟩
  · change 2 + 0 ≤ 0 + blockCount
    omega
  · rw [expected_of_not_ended hNotEnded]
    have hNear : number < blockCount := by simpa [startHardware] using hNear
    rw [Nat.mod_eq_of_lt hNear]
    exact (if_neg (Nat.not_lt_zero _)).symm
  · intro block hBlock
    obtain rfl := Option.some.inj hBlock
    exact ⟨(Nat.zero_mod _).symm, Nat.zero_lt_two⟩
  · intro block hBlock
    obtain rfl := Option.some.inj hBlock
    exact ⟨1, (Nat.mod_eq_of_lt (by omega)).symm, Nat.zero_le 1, Nat.one_lt_two, fun _ => rfl⟩

/-- What a read relies on. The last block, if it has data, is not handed over while a read that
has found nothing is about to return at it; a read of no bytes does not find the last block with
bytes that are not read; and a read that has copied something does not fail. -/
def undisturbed (world : World Byte) : Event Byte → Bool
  | .isr =>
      match world.isr, world.reader with
      | .hand block, .finish call =>
          world.device.streamActive || (world.device.blocks block).length == 0 ||
            !call.copied.isEmpty || world.device.readBlockIndex != block
      | _, _ => true
  | .wake =>
      match world.reader with
      | .waiting 0 =>
          decide (world.device.readBlock.state ≠ .dataEnd) ||
            decide (world.device.readBlock.length ≤ world.device.readOffset)
      | _ => true
  | .copyToUser 0 =>
      match world.reader with
      | .copy call => call.copied.isEmpty
      | _ => true
  | _ => true

theorem isrStep_inv (hCount : 3 ≤ blockCount) (hInv : world.Inv blockCount marked)
    (hGuard : world.undisturbed .isr = true) (hNext : isrStep blockCount world = some next) :
    ∃ marked', next.Inv blockCount marked' := by
  unfold isrStep at hNext
  split at hNext
  · rename_i hAt
    obtain ⟨status, hStatus, rfl⟩ := Option.map_eq_some_iff.mp hNext
    exact ⟨marked, enterIsr_inv hInv hAt hStatus⟩
  · rename_i block length hAt
    obtain rfl := Option.some.inj hNext
    exact ⟨marked, advanceIsrBlock_inv hCount hInv hAt⟩
  · rename_i block length place hAt
    obtain rfl := Option.some.inj hNext
    exact ⟨marked, assign_inv hInv hAt⟩
  · rename_i block length place hAt
    obtain rfl := Option.some.inj hNext
    exact ⟨marked + 1, mark_inv hInv hAt⟩
  · rename_i block length hAt
    obtain rfl := Option.some.inj hNext
    exact ⟨marked, receive_inv hInv hAt⟩
  · rename_i block hAt
    obtain rfl := Option.some.inj hNext
    refine ⟨marked, hand_inv hInv hAt fun hStop hSome call hCall hNone hSame => ?_⟩
    simp only [undisturbed, hAt, hCall, hStop, hNone, hSame] at hGuard
    simp only [List.isEmpty_nil, bne_self_eq_false, Bool.or_false, Bool.not_true, Bool.false_or,
      beq_iff_eq] at hGuard
    omega

theorem step_inv (hCount : 3 ≤ blockCount) (hInv : ∃ marked, world.Inv blockCount marked)
    {event : Event Byte} (hGuard : world.undisturbed event = true)
    (hNext : streamSystem blockCount world event = some next) :
    ∃ marked, next.Inv blockCount marked := by
  obtain ⟨marked, hInv⟩ := hInv
  cases event with
  | dmaWrite byte => exact ⟨marked, dmaWrite_inv hInv hNext⟩
  | interrupt last timeout complete startEvent completion =>
      exact ⟨marked, raiseInterrupt_inv hInv hNext⟩
  | isr => exact isrStep_inv hCount hInv hGuard hNext
  | read size =>
      simp only [streamSystem] at hNext
      split at hNext
      · rename_i hAt
        obtain rfl := Option.some.inj hNext
        exact ⟨marked, hInv.moves (by rw [hAt]; rfl) trivial⟩
      · exact absurd hNext (by simp)
  | wake =>
      simp only [streamSystem] at hNext
      split at hNext
      · rename_i size hAt
        split at hNext
        · rename_i hReady
          obtain rfl := Option.some.inj hNext
          refine ⟨marked, wake_inv hCount hInv hAt hReady fun hZero hState => ?_⟩
          subst hZero
          simpa [undisturbed, hAt, hState] using hGuard
        · exact absurd hNext (by simp)
      · exact absurd hNext (by simp)
  | giveUp signal =>
      simp only [streamSystem] at hNext
      split at hNext
      · rename_i size hAt
        split at hNext
        · exact absurd hNext (by simp)
        · rename_i hReady
          obtain rfl := Option.some.inj hNext
          refine ⟨marked, hInv.returns (by rw [hAt]; rfl) (fun hZero => ?_) (fun hAtEnd _ _ => ?_)⟩
          · cases signal <;> exact absurd hZero (by simp)
          · exact absurd (hInv.ready_of_atEnd hCount hAtEnd) hReady
      · exact absurd hNext (by simp)
  | reader => exact ⟨marked, readerStep_inv hCount hInv hNext⟩
  | copyToUser moved =>
      refine ⟨marked, copyStep_inv hInv (fun hNothing call hAt => ?_) hNext⟩
      subst hNothing
      simpa [undisturbed, hAt] using hGuard

/-! ### After the last block -/

/-- The last block is read completely, and the call in progress, if any, has found nothing. -/
structure Drained (world : World Byte) : Prop where
  ended : world.Ended
  engine : world.engine.current = none ∧ world.engine.status = none
  state : world.device.readBlock.state = .dataEnd
  offset : world.device.readOffset = world.device.readBlock.length
  nothing : world.reader.copied = []

/-- Then nothing is left to happen but reads, and they return zero. -/
theorem Drained.step (h : world.Drained) {event : Event Byte}
    (hNext : streamSystem blockCount world event = some next) :
    next.Drained ∧ ∃ more, next.results = more ++ world.results ∧
      ∀ result ∈ more, result.2 = .zero := by
  have hReady : world.device.blockReady = true := by simp [StreamOpen.blockReady, h.state]
  have hMoved : ∀ reader : Reader Byte, reader.copied = [] → next = { world with reader } →
      next.Drained ∧ ∃ more, next.results = more ++ world.results ∧
        ∀ result ∈ more, result.2 = .zero := by
    rintro reader hCopied rfl
    exact ⟨⟨h.ended, h.engine, h.state, h.offset, hCopied⟩, [], rfl, nofun⟩
  cases event with
  | dmaWrite byte => simp [streamSystem, dmaWrite, h.engine.1] at hNext
  | interrupt last timeout complete startEvent completion =>
      simp [streamSystem, raiseInterrupt, h.engine.1] at hNext
  | isr => simp [streamSystem, isrStep, h.ended.2, h.engine.2] at hNext
  | read size =>
      simp only [streamSystem] at hNext
      split at hNext
      · exact hMoved (.waiting size) rfl (Option.some.inj hNext).symm
      · exact absurd hNext nofun
  | wake =>
      simp only [streamSystem] at hNext
      split at hNext
      · rw [if_pos hReady] at hNext
        exact hMoved _ rfl (Option.some.inj hNext).symm
      · exact absurd hNext nofun
  | giveUp signal =>
      simp only [streamSystem] at hNext
      split at hNext
      · rw [if_pos hReady] at hNext
        exact absurd hNext nofun
      · exact absurd hNext nofun
  | reader =>
      have hNothing := h.nothing
      simp only [streamSystem, readerStep] at hNext
      split at hNext
      · next call hAt =>
          rw [hAt] at hNothing
          refine hMoved _ ?_ (Option.some.inj hNext).symm
          split_ifs
          · exact hNothing
          · exact hNothing
      · next call hAt =>
          rw [hAt] at hNothing
          rw [if_neg (by rw [h.offset]; exact lt_irrefl _)] at hNext
          exact hMoved (.check call) hNothing (Option.some.inj hNext).symm
      · next call hAt =>
          rw [hAt] at hNothing
          rw [if_pos h.offset.ge, if_pos h.state] at hNext
          exact hMoved (.finish call) hNothing (Option.some.inj hNext).symm
      · next call hAt =>
          rw [hAt] at hNothing
          rw [if_neg (by rw [show call.copied = [] from hNothing]; exact lt_irrefl 0),
            if_pos h.state] at hNext
          obtain rfl := Option.some.inj hNext
          refine ⟨⟨h.ended, h.engine, h.state, h.offset, rfl⟩, [(call.size, .zero)], rfl, ?_⟩
          simp
      · exact absurd hNext nofun
  | copyToUser moved =>
      simp only [streamSystem, copyStep] at hNext
      split at hNext
      · rw [if_neg (by rw [h.offset]; exact fun hMore => lt_irrefl _ hMore.1)] at hNext
        exact absurd hNext nofun
      · exact absurd hNext nofun

theorem Drained.run (h : world.Drained) {events : List (Event Byte)}
    (hRun : (streamSystem blockCount).run events world = some next) :
    ∃ more, next.results = more ++ world.results ∧ ∀ result ∈ more, result.2 = .zero := by
  induction events generalizing world with
  | nil =>
      obtain rfl := Option.some.inj hRun
      exact ⟨[], rfl, nofun⟩
  | cons event rest ih =>
      obtain ⟨middle, hStep, hRest⟩ := Option.bind_eq_some_iff.mp hRun
      obtain ⟨hMiddle, first, hFirst, hZeros⟩ := h.step hStep
      obtain ⟨more, hMore, hAll⟩ := ih hMiddle hRest
      refine ⟨more ++ first, by rw [hMore, hFirst, List.append_assoc], fun result hResult => ?_⟩
      exact (List.mem_append.mp hResult).elim (hAll result) (hZeros result)

/-- The reads so far return the data of the completed blocks, in order; what is not read yet is
still there; a read copies from a block that is neither free nor the engine's; the engine has no
block with data that is not read; once a read returns zero, all is read, and it stays so; and once
the last block is read completely, every read that begins returns zero. -/
structure Delivers (blockCount : Nat) (world : World Byte) : Prop where
  delivered : world.returned ++ world.reader.copied =
    (world.completed.take world.freed).flatten ++ world.nextData.take world.device.readOffset
  kept : ∀ number data, world.freed ≤ number → world.completed[number]? = some data →
    data = (List.range data.length).map (world.device.blocks (number % blockCount)).memory
  copies : ∀ call, world.reader = .copy call → world.device.blockReady = true ∧
    world.engine.current ≠ some world.device.readBlockIndex ∧
    world.engine.next ≠ some world.device.readBlockIndex
  unread : ∀ number, world.freed ≤ number → number < world.completed.length →
    world.engine.current ≠ some (number % blockCount) ∧
    world.engine.next ≠ some (number % blockCount)
  zero : ∀ result ∈ world.results, result.2 = .zero →
    world.device.readBlock.state = .dataEnd ∧
    world.device.readOffset = world.device.readBlock.length ∧
    world.returned = world.completed.flatten
  always : world.results.Pairwise fun later earlier => earlier.2 = .zero → later.2 = .zero
  final : world.device.readBlock.state = .dataEnd →
    world.device.readOffset = world.device.readBlock.length → world.reader = .idle →
    ∀ events next, (streamSystem blockCount).run events world = some next →
    ∃ more, next.results = more ++ world.results ∧ ∀ result ∈ more, result.2 = .zero

theorem Inv.unread (hInv : world.Inv blockCount marked) {number : Nat}
    (hNumber : world.freed ≤ number) (hLess : number < world.completed.length) :
    world.engine.current ≠ some (number % blockCount) ∧
      world.engine.next ≠ some (number % blockCount) := by
  have hLap := hInv.placed.lap
  constructor
  · intro hCurrent
    obtain ⟨hSame, hBelow⟩ := hInv.runs.current _ hCurrent
    exact Ring.slot_ne hLess (by omega) hSame
  · intro hNext
    obtain ⟨other, hSame, hAbove, hBelow, -⟩ := hInv.runs.next _ hNext
    exact Ring.slot_ne (by omega) (by omega) hSame

theorem Inv.delivers (hCount : 3 ≤ blockCount) (hInv : world.Inv blockCount marked) :
    world.Delivers blockCount := by
  refine ⟨hInv.reads.delivered, hInv.stored.memory, ?_, fun number => hInv.unread, ?_,
    hInv.reads.always, fun hState hOffset hIdle _ _ hRun => ?_⟩
  · intro call hAt
    have hCalls := hInv.reads.calls
    unfold Calls at hCalls
    rw [hAt] at hCalls
    have hIn := hInv.runs.handed_le
    refine ⟨?_, ?_⟩
    · have hState := hInv.readBlock_state hCount
      unfold expected at hState
      rw [if_pos hCalls.1] at hState
      unfold StreamOpen.blockReady
      split at hState <;> simp [hState]
    · rw [hInv.reads.index]
      exact hInv.unread (Nat.le_refl _) (by omega)
  · intro result hResult hZero
    obtain ⟨hAtEnd, hComplete, hNone⟩ := hInv.reads.zero result hResult hZero
    have hLast := hAtEnd.2
    have hLess : world.freed < world.handed := by omega
    refine ⟨(hInv.state_eq_dataEnd_iff hCount).mpr hAtEnd,
      hComplete.trans (hInv.readBlock_length hLess).1.symm, ?_⟩
    -- the engine has stopped, so the last block that it completed was handed over
    have hQuiet : ∀ status, ¬ world.Raised status := by
      rintro status ⟨hStatus, -⟩
      have hStopped := (hInv.runs.stopped hAtEnd.1.1).2
      exact Option.some_ne_none _ (hStatus.symm.trans hStopped)
    have hLength := hInv.runs.quiet hQuiet
    rw [hAtEnd.1.2] at hLength
    simp only [Isr.serving, Nat.add_zero] at hLength
    have hDelivered := hInv.reads.delivered
    have hComplete : world.device.readOffset = world.nextData.length := hComplete
    rw [hNone, List.append_nil, hComplete, List.take_length] at hDelivered
    rw [hDelivered]
    have hIn : world.freed < world.completed.length := by omega
    have hAll : world.completed = world.completed.take world.freed ++ [world.nextData] := by
      rw [nextData, List.getElem?_eq_getElem hIn, Option.getD_some, List.take_append_getElem,
        List.take_of_length_le (by omega)]
    calc (world.completed.take world.freed).flatten ++ world.nextData
        = (world.completed.take world.freed ++ [world.nextData]).flatten := by simp
      _ = world.completed.flatten := by rw [← hAll]
  · have hAtEnd := (hInv.state_eq_dataEnd_iff hCount).mp hState
    have hDrained : world.Drained :=
      ⟨hAtEnd.1, hInv.runs.stopped hAtEnd.1.1, hState, hOffset, by rw [hIdle]; rfl⟩
    exact hDrained.run hRun

end World

/-- For a ring of at least three blocks, every run of the device delivers its data, if no read is
disturbed in it. -/
theorem stream_delivered {blockCount : Nat} (hCount : 3 ≤ blockCount) (device : StreamOpen Byte)
    {events : List (Event Byte)} {world : World Byte}
    (hGuarded : (streamSystem blockCount).Guarded (fun world event => world.undisturbed event = true)
      events (startHardware device))
    (hRun : (streamSystem blockCount).run events (startHardware device) = some world) :
    world.Delivers blockCount := by
  obtain ⟨marked, hInv⟩ := Transition.System.run_invariant
    (fun world : World Byte => ∃ marked, world.Inv blockCount marked)
    (fun _ _ _ hInv hGuard hNext => World.step_inv hCount hInv hGuard hNext) hGuarded
    ⟨2, World.startHardware_inv hCount device⟩ hRun
  exact hInv.delivers hCount

/-! ### The last interrupt -/

def threeBlocks : StreamOpen Nat where
  isrBlockIndex := 0
  streamActive := false
  completion := 0
  startTsValid := false
  readBlockIndex := 0
  readOffset := 0
  blocks := fun _ => { memory := fun _ => 0, state := .free, length := 0 }

def afterStart (events : List (Event Nat)) : World Nat :=
  ((streamSystem 3).run events (startHardware threeBlocks)).getD (startHardware threeBlocks)

/-- A timeout without any data, which the handler hands over. -/
def emptyBlock : List (Event Nat) :=
  .interrupt false true false false 0 :: List.replicate 6 .isr

/-- A byte and the end of the experiment, which the handler hands over. -/
def lastBlock : List (Event Nat) :=
  [.dmaWrite 7, .interrupt true false false false 0] ++ List.replicate 3 .isr

/-- A read of four bytes finds the empty block, gives it back, and sees that the engine still has
the next one. -/
def emptyRead : List (Event Nat) := [.read 4, .wake] ++ List.replicate 4 .reader

/-- The last block comes after the read has returned: the next read gets its byte, and the one
after that the end. -/
def promptEnd : List (Event Nat) :=
  emptyBlock ++ emptyRead ++ [.reader] ++ lastBlock ++
    [.read 4, .wake, .reader, .copyToUser 1, .reader, .reader] ++
    [.read 4, .wake] ++ List.replicate 4 .reader

theorem prompt_end_delivered :
    (afterStart promptEnd).results = [(4, .zero), (4, .bytes 1), (4, .again)] ∧
    (afterStart promptEnd).Delivers 3 :=
  ⟨by decide, stream_delivered (by decide) threeBlocks
    (show (streamSystem 3).Guarded (fun world event => world.undisturbed event = true) promptEnd
      (startHardware threeBlocks) by decide) rfl⟩

/-- The last block comes while the read is about to return: it says that there is no more data,
with one byte not read. -/
theorem late_end_lost :
    (streamSystem 3).run (emptyBlock ++ emptyRead ++ lastBlock ++ [.reader])
        (startHardware threeBlocks) =
      some (afterStart (emptyBlock ++ emptyRead ++ lastBlock ++ [.reader])) ∧
    (afterStart (emptyBlock ++ emptyRead ++ lastBlock ++ [.reader])).results = [(4, .zero)] ∧
    (afterStart (emptyBlock ++ emptyRead ++ lastBlock ++ [.reader])).returned = [] ∧
    (afterStart (emptyBlock ++ emptyRead ++ lastBlock ++ [.reader])).completed = [[], [7]] ∧
    ¬ (afterStart (emptyBlock ++ emptyRead ++ lastBlock ++ [.reader])).Delivers 3 := by
  have hResults : (afterStart (emptyBlock ++ emptyRead ++ lastBlock ++ [.reader])).results =
      [(4, .zero)] := by decide
  have hReturned : (afterStart (emptyBlock ++ emptyRead ++ lastBlock ++ [.reader])).returned =
      [] := by decide
  have hCompleted : (afterStart (emptyBlock ++ emptyRead ++ lastBlock ++ [.reader])).completed =
      [[], [7]] := by decide
  refine ⟨rfl, hResults, hReturned, hCompleted, fun hDelivers => ?_⟩
  have hAll := (hDelivers.zero (4, .zero) (by rw [hResults]; exact List.mem_cons_self) rfl).2.2
  rw [hReturned, hCompleted] at hAll
  exact absurd hAll (by decide)

end Driver
