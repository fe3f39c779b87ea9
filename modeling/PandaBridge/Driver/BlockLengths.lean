import PandaBridge.Driver.BlockConservation

/-! The lengths that the table device programs. A request is measured in bytes, in the arithmetic
of `size_t`, and programmed in words, in a register of 32 bits that has the flag in its highest
bit. -/
namespace Driver

/-- The value that `push_buffer_locked` writes to the length register. -/
def HandedBlock.lengthRegister (block : HandedBlock) : BitVec 32 :=
  if block.more then BitVec.ofNat 32 block.length ||| 0x80000000#32
  else BitVec.ofNat 32 block.length

/-- The words that `copy_from_user` is asked for. -/
def BlockSetup.copiedWords (setup : BlockSetup) (length : Nat) : Nat :=
  length * 4 % 2 ^ setup.width / 4

/-- A write to the length register, and the words that were copied into the buffer. -/
structure Programmed where
  block : HandedBlock
  words : Nat
  deriving DecidableEq

/-- The channel, with the words in its buffers and all writes to its length register. -/
structure CopiedDevice where
  device : BlockDevice
  words : Nat → Nat
  programmed : List Programmed

namespace BlockDevice

/-- Everything that was ever handed to the hardware. -/
def writes (device : BlockDevice) : List HandedBlock :=
  device.earlier.flatMap Prod.snd ++ device.handed

end BlockDevice

/-- The words in the buffers after an event: a request that goes on has copied its data. -/
def CopiedDevice.copy (setup : BlockSetup) (state : CopiedDevice) : BlockEvent → Nat → Nat
  | .finish buffer true =>
      Function.update state.words buffer (setup.copiedWords (state.device.info buffer).length)
  | .finish _ false | .send _ _ | .irq _ _ => state.words

/-- The channel under requests and interrupts, with the data that is copied. -/
def copiedSystem (setup : BlockSetup) : Transition.System CopiedDevice BlockEvent :=
  fun state event =>
    (blockSystem setup state.device event).map fun next =>
      { device := next
        words := state.copy setup event
        programmed := state.programmed ++
          (next.writes.drop state.device.writes.length).map fun block =>
            ⟨block, state.copy setup event block.buffer⟩ }

def BlockSetup.copiedStart (setup : BlockSetup) (info : Nat → BufferInfo) (words : Nat → Nat) :
    CopiedDevice where
  device := setup.start info
  words := words
  programmed := []

/-- What a write should be: the length is that of the data and fits the buffer, and the highest
bit is the flag. -/
structure Programmed.Right (setup : BlockSetup) (write : Programmed) : Prop where
  fits : write.block.lengthRegister.toNat % 2 ^ 31 ≤ setup.blockSize / 4
  words : write.block.lengthRegister.toNat % 2 ^ 31 = write.words
  flag : write.block.lengthRegister.msb = write.block.more

/-- The test of `send_block`. -/
def BlockSetup.Accepts (setup : BlockSetup) (length : Nat) : Prop :=
  length * 4 % 2 ^ setup.width ≤ setup.blockSize

/-- A length that the register can hold: bit 30 is clear, and bit 31 is set with the flag only. -/
def FitsRegister (length : Nat) (more : Bool) : Prop :=
  length % 2 ^ 31 < 2 ^ 30 ∧ (2 ^ 31 ≤ length % 2 ^ 32 → more = true)

/-- A request that is accepted has a length that the register can hold. -/
def LengthFits (setup : BlockSetup) (_ : CopiedDevice) : BlockEvent → Prop
  | .send _ request => setup.Accepts request.length → FitsRegister request.length request.more
  | .finish _ _ | .irq _ _ => True

/-! ### One length -/

section Lengths

variable {setup : BlockSetup}

theorem lengthRegister_mod (block : HandedBlock) :
    block.lengthRegister.toNat % 2 ^ 31 = block.length % 2 ^ 31 := by
  have hLow : block.length % 2 ^ 32 % 2 ^ 31 = block.length % 2 ^ 31 := by omega
  unfold HandedBlock.lengthRegister
  split
  · rw [BitVec.toNat_or, Nat.or_mod_two_pow, BitVec.toNat_ofNat, hLow]
    exact Nat.or_zero _
  · rw [BitVec.toNat_ofNat, hLow]

theorem lengthRegister_msb (block : HandedBlock) :
    block.lengthRegister.msb = (block.more || decide (2 ^ 31 ≤ block.length % 2 ^ 32)) := by
  have hLength : (BitVec.ofNat 32 block.length).msb = decide (2 ^ 31 ≤ block.length % 2 ^ 32) := by
    rw [BitVec.msb_eq_decide, BitVec.toNat_ofNat]
  unfold HandedBlock.lengthRegister
  split
  · rename_i hMore
    rw [BitVec.msb_or, hMore]
    exact Bool.or_true _
  · rename_i hMore
    rw [hLength, Bool.eq_false_iff.mpr hMore, Bool.false_or]

theorem copiedWords_eq (length : Nat) :
    setup.copiedWords length = length % 2 ^ (setup.width - 2) := by
  have hPow : 2 ^ setup.width = 2 ^ (setup.width - 2) * 4 := by
    have hWide := setup.wide
    have hSplit : setup.width = setup.width - 2 + 2 := by omega
    rw [hSplit, Nat.pow_add]
    rfl
  rw [BlockSetup.copiedWords, hPow, Nat.mul_mod_mul_right, Nat.mul_div_cancel _ (by omega)]

theorem copiedWords_le {length : Nat} (hAccepts : setup.Accepts length) :
    setup.copiedWords length ≤ setup.blockSize / 4 :=
  Nat.div_le_div_right hAccepts

theorem copiedWords_mod (length : Nat) :
    setup.copiedWords length % 2 ^ 30 = length % 2 ^ 30 := by
  rw [copiedWords_eq]
  apply Nat.mod_mod_of_dvd
  apply Nat.pow_dvd_pow
  have hWide := setup.wide
  omega

/-- A length that was accepted is programmed as it should be exactly when the register can hold
it. -/
theorem right_iff (hSize : setup.blockSize < 2 ^ 32) {write : Programmed}
    (hAccepts : setup.Accepts write.block.length)
    (hWords : write.words = setup.copiedWords write.block.length) :
    write.Right setup ↔ FitsRegister write.block.length write.block.more := by
  have hLow := @copiedWords_mod setup write.block.length
  have hLe := copiedWords_le hAccepts
  rw [← hWords] at hLow hLe
  have hRight : write.Right setup ↔ (write.block.length % 2 ^ 31 ≤ setup.blockSize / 4 ∧
      write.block.length % 2 ^ 31 = write.words) ∧
      (write.block.more || decide (2 ^ 31 ≤ write.block.length % 2 ^ 32)) = write.block.more := by
    rw [← lengthRegister_mod, ← lengthRegister_msb]
    exact ⟨fun h => ⟨⟨h.fits, h.words⟩, h.flag⟩, fun h => ⟨h.1.1, h.1.2, h.2⟩⟩
  rw [hRight]
  unfold FitsRegister
  refine and_congr ?_ ?_
  · omega
  · cases write.block.more with
    | true => simp
    | false => simp

end Lengths

/-! ### One step -/

namespace BlockDevice

variable {setup : BlockSetup} {device middle next : BlockDevice}

/-- How often a buffer is on the free list, under way, or in a request. -/
def owners (device : BlockDevice) (buffer : Nat) : Nat :=
  (device.channel.free ++ device.channel.pending ++ device.calls).count buffer

/-- Buffers change their places. Those of `joined` come from a request, and those of `pushed` are
handed to the hardware. -/
structure Moves (device next : BlockDevice) (joined pushed : List Nat) : Prop where
  info : next.info = device.info
  owners : ∀ buffer, next.owners buffer ≤ device.owners buffer
  pending : ∀ buffer ∈ next.channel.pending, buffer ∈ device.channel.pending ∨ buffer ∈ joined
  calls : ∀ buffer ∈ next.calls, buffer ∈ device.calls
  writes : next.writes = device.writes ++ pushed.map device.block
  pushed : ∀ buffer ∈ pushed, buffer ∈ next.channel.pending

theorem Moves.refl (device : BlockDevice) : Moves device device [] [] where
  info := rfl
  owners _ := Nat.le_refl _
  pending _ hMem := .inl hMem
  calls _ hMem := hMem
  writes := (List.append_nil _).symm
  pushed _ hMem := absurd hMem List.not_mem_nil

theorem Moves.trans {pushed : List Nat} (hFirst : Moves device middle [] [])
    (hSecond : Moves middle next [] pushed) : Moves device next [] pushed where
  info := hSecond.info.trans hFirst.info
  owners buffer := (hSecond.owners buffer).trans (hFirst.owners buffer)
  pending buffer hMem :=
    hFirst.pending buffer ((hSecond.pending buffer hMem).resolve_right List.not_mem_nil)
  calls buffer hMem := hFirst.calls buffer (hSecond.calls buffer hMem)
  writes := by
    have hBlock : middle.block = device.block := by
      funext buffer
      rw [block, block, hFirst.info]
    have hWrites := hFirst.writes
    rw [List.map_nil, List.append_nil] at hWrites
    rw [hSecond.writes, hWrites, hBlock]
  pushed := hSecond.pushed

theorem flush_moves (completed : Bool) : Moves device (device.flush completed) [] [] := by
  have hChannel := freeBuffers_eq device.channel
  constructor
  case info => rfl
  case owners =>
    intro buffer
    simp only [owners, flush, hChannel, BlockChannel.pending, List.count_append,
      List.count_reverse, Option.toList_none, List.count_nil]
    omega
  case pending => simp [flush, hChannel, BlockChannel.pending]
  case calls => exact fun _ hMem => hMem
  case writes => simp [flush, writes]
  case pushed => simp

theorem pushBuffer_some {buffer : Nat} (hPush : device.pushBuffer buffer = some next) :
    next.info = device.info ∧ next.calls = device.calls ∧
      next.channel.free = device.channel.free ∧
      (∀ other, next.channel.pending.count other =
        device.channel.pending.count other + [buffer].count other) ∧
      next.writes = device.writes ++ [device.block buffer] := by
  unfold pushBuffer at hPush
  simp only at hPush
  split at hPush
  · rename_i hCurrent
    obtain rfl := Option.some.inj hPush
    refine ⟨rfl, rfl, rfl, fun other => ?_, (List.append_assoc _ _ _).symm⟩
    simp only [BlockChannel.pending, hCurrent, Option.toList_some, Option.toList_none,
      List.count_append, List.count_nil]
    omega
  · rename_i hCurrent hNext
    obtain rfl := Option.some.inj hPush
    refine ⟨rfl, rfl, rfl, fun other => ?_, (List.append_assoc _ _ _).symm⟩
    simp only [BlockChannel.pending, hCurrent, hNext, Option.toList_some, Option.toList_none,
      List.count_append, List.count_nil]
    omega
  · cases hPush

/-- A buffer is taken from its place, and is at none. -/
structure Taken (device middle : BlockDevice) (buffer : Nat) : Prop where
  info : middle.info = device.info
  owners : ∀ other, middle.owners other + [buffer].count other ≤ device.owners other
  pending : ∀ other ∈ middle.channel.pending, other ∈ device.channel.pending
  calls : ∀ other ∈ middle.calls, other ∈ device.calls
  writes : middle.writes = device.writes

namespace Taken

variable {buffer : Nat} (hTaken : Taken device middle buffer)

include hTaken

theorem lose (joined : List Nat) : Moves device middle joined [] where
  info := hTaken.info
  owners other := (Nat.le_add_right _ _).trans (hTaken.owners other)
  pending other hMem := .inl (hTaken.pending other hMem)
  calls := hTaken.calls
  writes := hTaken.writes.trans (List.append_nil _).symm
  pushed _ hMem := absurd hMem List.not_mem_nil

theorem free (joined : List Nat) :
    Moves device { middle with channel := middle.channel.freeBuffer buffer } joined [] where
  info := hTaken.info
  owners other := by
    have hOther := hTaken.owners other
    simp only [BlockDevice.owners, BlockChannel.freeBuffer, BlockChannel.pending, List.count_append,
      List.count_cons, List.count_nil] at hOther ⊢
    omega
  pending other hMem := .inl (hTaken.pending other hMem)
  calls := hTaken.calls
  writes := hTaken.writes.trans (List.append_nil _).symm
  pushed _ hMem := absurd hMem List.not_mem_nil

theorem queue {joined : List Nat} (hPlace : buffer ∈ device.channel.pending ∨ buffer ∈ joined) :
    Moves device { middle with
      channel := { middle.channel with queue := buffer :: middle.channel.queue } } joined [] where
  info := hTaken.info
  owners other := by
    have hOther := hTaken.owners other
    simp only [BlockDevice.owners, BlockChannel.pending, List.count_append, List.count_cons,
      List.count_nil] at hOther ⊢
    omega
  pending other hMem := by
    rcases List.mem_cons.mp hMem with rfl | hOld
    · exact hPlace
    · exact .inl (hTaken.pending other hOld)
  calls := hTaken.calls
  writes := hTaken.writes.trans (List.append_nil _).symm
  pushed _ hMem := absurd hMem List.not_mem_nil

theorem push {joined : List Nat} (hPlace : buffer ∈ device.channel.pending ∨ buffer ∈ joined)
    (hPush : middle.pushBuffer buffer = some next) : Moves device next joined [buffer] := by
  obtain ⟨hInfo, hCalls, hFree, hPending, hWrites⟩ := pushBuffer_some hPush
  constructor
  case info => exact hInfo.trans hTaken.info
  case owners =>
    intro other
    have hOther := hTaken.owners other
    simp only [BlockDevice.owners, List.count_append, hCalls, hFree, hPending other] at hOther ⊢
    omega
  case pending =>
    intro other hMem
    have hPos := List.count_pos_iff.mpr hMem
    rw [hPending] at hPos
    by_cases hSame : other = buffer
    · exact hSame ▸ hPlace
    · have hNone : [buffer].count other = 0 :=
        List.count_eq_zero.mpr fun hIn => hSame (List.mem_singleton.mp hIn)
      exact .inl (hTaken.pending other (List.count_pos_iff.mp (by omega)))
  case calls => exact fun other hMem => hTaken.calls other (hCalls ▸ hMem)
  case writes => rw [hWrites, hTaken.writes, List.map_singleton, block, block, hTaken.info]
  case pushed =>
    intro other hMem
    obtain rfl := List.mem_singleton.mp hMem
    apply List.count_pos_iff.mp
    rw [hPending, List.count_singleton_self]
    omega

end Taken

theorem releaseCurrent_moves : Moves device (device.releaseCurrent setup) [] [] := by
  unfold releaseCurrent
  split
  · rename_i buffer other hCurrent hNext
    have hTaken : Taken device { device with
        channel := { device.channel with
          currentBuffer := some other
          nextBuffer := none
          nwords := (device.channel.nwords + (2 ^ setup.width - (device.info buffer).length)) %
            2 ^ setup.width } } buffer := by
      constructor
      case info => rfl
      case owners =>
        intro any
        simp only [owners, BlockChannel.pending, hCurrent, hNext, Option.toList_none,
          Option.toList_some, List.count_append, List.count_nil]
        omega
      case pending =>
        intro any hMem
        simp only [BlockChannel.pending, hCurrent, hNext, Option.toList_none, Option.toList_some,
          List.append_nil] at hMem ⊢
        exact List.mem_append_left _ hMem
      case calls => exact fun _ hMem => hMem
      case writes => rfl
    exact hTaken.free []
  · exact .refl device

theorem pushQueued_moves : ∃ pushed, Moves device device.pushQueued [] pushed := by
  unfold pushQueued
  cases hLast : device.channel.queue.getLast? with
  | none => exact ⟨[], .refl device⟩
  | some buffer =>
      obtain ⟨rest, hQueue⟩ := List.getLast?_eq_some_iff.mp hLast
      have hRest : device.channel.queue.dropLast = rest := by rw [hQueue, List.dropLast_concat]
      have hTaken : Taken device { device with
          channel := { device.channel with queue := rest } } buffer := by
        constructor
        case info => rfl
        case owners =>
          intro any
          simp only [owners, BlockChannel.pending, hQueue, List.count_append]
          omega
        case pending =>
          intro any hMem
          simp only [BlockChannel.pending, hQueue, List.mem_append] at hMem ⊢
          rcases hMem with (hOld | hNext) | hCurrent
          · exact .inl (.inl (.inl hOld))
          · exact .inl (.inr hNext)
          · exact .inr hCurrent
        case calls => exact fun _ hMem => hMem
        case writes => rfl
      have hPlace : buffer ∈ device.channel.pending ∨ buffer ∈ ([] : List Nat) := by
        simp [BlockChannel.pending, hQueue]
      simp only [hRest]
      cases hPush : BlockDevice.pushBuffer { device with
          channel := { device.channel with queue := rest } } buffer with
      | none => exact ⟨[], hTaken.free []⟩
      | some pushed => exact ⟨[buffer], hTaken.push hPlace hPush⟩

theorem blockIsr_moves (completed ready : Bool) :
    ∃ pushed, Moves device (device.blockIsr setup completed ready) [] pushed := by
  unfold blockIsr
  split
  · exact ⟨[], flush_moves true⟩
  · split
    · obtain ⟨pushed, hPushed⟩ := @pushQueued_moves (device.releaseCurrent setup)
      exact ⟨pushed, releaseCurrent_moves.trans hPushed⟩
    · exact ⟨[], .refl device⟩

theorem owners_erase {buffer : Nat} (hCall : buffer ∈ device.calls) (other : Nat) :
    (device.calls.erase buffer).count other + [buffer].count other = device.calls.count other := by
  have hPos := List.count_pos_iff.mpr hCall
  rw [List.count_erase, List.count_singleton]
  by_cases hSame : buffer = other
  · subst hSame
    simp only [beq_self_eq_true, if_true]
    omega
  · simp only [beq_eq_false_iff_ne.mpr hSame, Bool.false_eq_true, if_false]
    omega

/-- A request that goes on brings its buffer under way, unless it gives it back or loses it. -/
theorem sendFinish_moves {buffer : Nat} (hCall : buffer ∈ device.calls) (copied : Bool) :
    ∃ pushed, Moves device (device.sendFinish setup buffer copied).1
      (if copied then [buffer] else []) pushed := by
  have hTaken : ∀ nwords completed sent, Taken device { device with
      channel := { device.channel with nwords, completed }
      calls := device.calls.erase buffer, sent } buffer := by
    intro nwords completed sent
    constructor
    case info => rfl
    case owners =>
      intro other
      have hOther := owners_erase hCall other
      simp only [owners, BlockChannel.pending, List.count_append]
      omega
    case pending => exact fun _ hMem => hMem
    case calls => exact fun _ hMem => List.mem_of_mem_erase hMem
    case writes => rfl
  unfold sendFinish
  cases copied with
  | false => exact ⟨[], (hTaken _ _ _).lose []⟩
  | true =>
      have hPlace : buffer ∈ device.channel.pending ∨ buffer ∈ [buffer] :=
        .inr List.mem_cons_self
      simp only [not_true_eq_false, if_false, if_true]
      split
      · exact ⟨[], (hTaken _ _ _).free [buffer]⟩
      · split
        · rename_i pushed hPush
          exact ⟨[buffer], (hTaken _ _ _).push hPlace hPush⟩
        · exact ⟨[], (hTaken ((device.channel.nwords + (device.info buffer).length) %
            2 ^ setup.width) (!(device.info buffer).more)
            (device.sent ++ [device.block buffer])).queue hPlace⟩

/-- A request is refused, resets the channel, or takes a buffer of the free list. -/
theorem sendStart_cases (copied : Bool) (request : SendRequest) :
    Moves device (device.sendStart setup copied request).1 [] [] ∨
      ∃ buffer free, device.channel.free = buffer :: free ∧ setup.Accepts request.length ∧
        (device.sendStart setup copied request).1 =
          { device with
            channel := { device.channel with free := free }
            info := Function.update device.info buffer ⟨request.length, request.more⟩
            calls := buffer :: device.calls } := by
  unfold sendStart
  split
  · exact .inl (.refl device)
  · split
    · exact .inl (.refl device)
    · rename_i hShort
      split
      · exact .inl (flush_moves false)
      · split
        · exact .inl (.refl device)
        · rename_i buffer free hFree
          exact .inr ⟨buffer, free, hFree, not_not.mp hShort, rfl⟩

end BlockDevice

/-! ### A run -/

/-- The lengths under way were accepted under a condition, and those programmed too. -/
structure LengthInv (setup : BlockSetup) (allowed : Nat → Bool → Prop) (state : CopiedDevice) :
    Prop where
  owners : ∀ buffer, state.device.owners buffer ≤ 1
  known : ∀ buffer ∈ state.device.channel.pending ++ state.device.calls,
    setup.Accepts (state.device.info buffer).length ∧
      allowed (state.device.info buffer).length (state.device.info buffer).more
  copied : ∀ buffer ∈ state.device.channel.pending,
    state.words buffer = setup.copiedWords (state.device.info buffer).length
  programmed : ∀ write ∈ state.programmed, setup.Accepts write.block.length ∧
    allowed write.block.length write.block.more ∧
      write.words = setup.copiedWords write.block.length

namespace LengthInv

open BlockDevice

variable {setup : BlockSetup} {allowed : Nat → Bool → Prop} {state next : CopiedDevice}

theorem start (info : Nat → BufferInfo) (words : Nat → Nat) :
    LengthInv setup allowed (setup.copiedStart info words) where
  owners buffer := by
    simp only [BlockDevice.owners, BlockSetup.copiedStart, BlockSetup.start, BlockChannel.pending,
      Option.toList_none, List.append_nil, List.count_reverse, List.count_range]
    split <;> omega
  known buffer hMem := by
    simp [BlockSetup.copiedStart, BlockSetup.start, BlockChannel.pending] at hMem
  copied buffer hMem := by
    simp [BlockSetup.copiedStart, BlockSetup.start, BlockChannel.pending] at hMem
  programmed write hMem := absurd hMem List.not_mem_nil

/-- Buffers that change their places keep their lengths, and those that are pushed are programmed
with them. -/
theorem moves (hInv : LengthInv setup allowed state) {device : BlockDevice} {words : Nat → Nat}
    {joined pushed : List Nat} (hMoves : Moves state.device device joined pushed)
    (hJoined : ∀ buffer ∈ joined, buffer ∈ state.device.calls ∧
      words buffer = setup.copiedWords (state.device.info buffer).length)
    (hWords : ∀ buffer ∈ state.device.channel.pending, words buffer = state.words buffer) :
    LengthInv setup allowed
      { device := device
        words := words
        programmed := state.programmed ++
          (device.writes.drop state.device.writes.length).map fun block =>
            ⟨block, words block.buffer⟩ } := by
  have hPending : ∀ buffer ∈ device.channel.pending,
      buffer ∈ state.device.channel.pending ++ state.device.calls := by
    intro buffer hMem
    rcases hMoves.pending buffer hMem with hOld | hNew
    · exact List.mem_append_left _ hOld
    · exact List.mem_append_right _ (hJoined buffer hNew).1
  have hCopied : ∀ buffer ∈ device.channel.pending,
      words buffer = setup.copiedWords (state.device.info buffer).length := by
    intro buffer hMem
    rcases hMoves.pending buffer hMem with hOld | hNew
    · exact (hWords buffer hOld).trans (hInv.copied buffer hOld)
    · exact (hJoined buffer hNew).2
  constructor
  case owners => exact fun buffer => (hMoves.owners buffer).trans (hInv.owners buffer)
  case known =>
    intro buffer hMem
    dsimp only at hMem ⊢
    rw [hMoves.info]
    apply hInv.known buffer
    rcases List.mem_append.mp hMem with hPend | hCall
    · exact hPending buffer hPend
    · exact List.mem_append_right _ (hMoves.calls buffer hCall)
  case copied =>
    intro buffer hMem
    dsimp only at hMem ⊢
    rw [hMoves.info]
    exact hCopied buffer hMem
  case programmed =>
    intro write hMem
    rcases List.mem_append.mp hMem with hOld | hNew
    · exact hInv.programmed write hOld
    · rw [hMoves.writes, List.drop_left, List.map_map] at hNew
      obtain ⟨buffer, hBuffer, rfl⟩ := List.mem_map.mp hNew
      have hPend := hMoves.pushed buffer hBuffer
      have hKnown := hInv.known buffer (hPending buffer hPend)
      exact ⟨hKnown.1, hKnown.2, hCopied buffer hPend⟩

theorem take (hInv : LengthInv setup allowed state) {buffer : Nat} {free : List Nat}
    (hFree : state.device.channel.free = buffer :: free) {length : Nat} {more : Bool}
    (hAccepts : setup.Accepts length) (hAllowed : allowed length more) :
    LengthInv setup allowed { state with
      device := { state.device with
        channel := { state.device.channel with free := free }
        info := Function.update state.device.info buffer ⟨length, more⟩
        calls := buffer :: state.device.calls } } := by
  have hOnce := hInv.owners buffer
  rw [BlockDevice.owners, hFree, List.cons_append, List.cons_append, List.count_cons_self,
    List.count_append, List.count_append] at hOnce
  have hAway : buffer ∉ state.device.channel.pending :=
    fun hMem => absurd (List.count_pos_iff.mpr hMem) (by omega)
  constructor
  case owners =>
    intro other
    have hOwner := hInv.owners other
    simp only [BlockDevice.owners, BlockChannel.pending, hFree, List.count_append,
      List.count_cons] at hOwner ⊢
    omega
  case known =>
    intro other hMem
    dsimp only at hMem ⊢
    by_cases hSame : other = buffer
    · rw [hSame, Function.update_self]
      exact ⟨hAccepts, hAllowed⟩
    · rw [Function.update_of_ne hSame]
      apply hInv.known other
      rcases List.mem_append.mp hMem with hPend | hCall
      · exact List.mem_append_left _ hPend
      · exact List.mem_append_right _ ((List.mem_cons.mp hCall).resolve_left hSame)
  case copied =>
    intro other hMem
    have hOther : other ≠ buffer := fun hSame => hAway (hSame ▸ hMem)
    dsimp only
    rw [Function.update_of_ne hOther]
    exact hInv.copied other hMem
  case programmed => exact hInv.programmed

/-- A request that goes on copies into a buffer that the hardware does not have. -/
theorem finish (hInv : LengthInv setup allowed state) {buffer : Nat}
    (hCall : buffer ∈ state.device.calls) (copied : Bool) :
    (∀ other ∈ (if copied then [buffer] else []), other ∈ state.device.calls ∧
        state.copy setup (.finish buffer copied) other =
          setup.copiedWords (state.device.info other).length) ∧
      ∀ other ∈ state.device.channel.pending,
        state.copy setup (.finish buffer copied) other = state.words other := by
  cases copied with
  | false => exact ⟨fun _ hMem => absurd hMem List.not_mem_nil, fun _ _ => rfl⟩
  | true =>
      constructor
      · intro other hMem
        obtain rfl := List.mem_singleton.mp hMem
        exact ⟨hCall, Function.update_self ..⟩
      · intro other hPending
        apply Function.update_of_ne
        rintro rfl
        have hOnce := hInv.owners other
        rw [BlockDevice.owners, List.count_append, List.count_append] at hOnce
        have hFirst := List.count_pos_iff.mpr hCall
        have hSecond := List.count_pos_iff.mpr hPending
        omega

/-- What the invariant asks of an event: an accepted request has an allowed length. -/
def Admits (setup : BlockSetup) (allowed : Nat → Bool → Prop) : BlockEvent → Prop
  | .send _ request => setup.Accepts request.length → allowed request.length request.more
  | .finish _ _ | .irq _ _ => True

theorem step {event : BlockEvent} (hInv : LengthInv setup allowed state)
    (hAdmits : Admits setup allowed event)
    (hStep : copiedSystem setup state event = some next) : LengthInv setup allowed next := by
  obtain ⟨device, hDevice, rfl⟩ := Option.map_eq_some_iff.mp hStep
  cases event with
  | send copied request =>
      obtain rfl := Option.some.inj hDevice
      rcases @sendStart_cases setup state.device copied request with
        hMoves | ⟨buffer, free, hFree, hAccepts, hNext⟩
      · exact hInv.moves hMoves (fun _ hMem => absurd hMem List.not_mem_nil) fun _ _ => rfl
      · have hTake := hInv.take hFree hAccepts (hAdmits hAccepts)
        rw [hNext]
        have hWrites : ∀ writes : List HandedBlock, writes.drop writes.length = [] :=
          fun writes => List.drop_length
        refine ⟨hTake.owners, hTake.known, hTake.copied, fun write hMem => ?_⟩
        apply hTake.programmed write
        simpa only [BlockDevice.writes, hWrites, List.map_nil, List.append_nil] using hMem
  | finish buffer copied =>
      simp only [blockSystem] at hDevice
      split at hDevice
      · rename_i hCall
        obtain rfl := Option.some.inj hDevice
        obtain ⟨pushed, hMoves⟩ := @sendFinish_moves setup state.device buffer hCall copied
        obtain ⟨hJoined, hWords⟩ := hInv.finish hCall copied
        exact hInv.moves hMoves hJoined hWords
      · exact absurd hDevice (by simp)
  | irq completed ready =>
      obtain rfl := Option.some.inj hDevice
      obtain ⟨pushed, hMoves⟩ := @blockIsr_moves setup state.device completed ready
      exact hInv.moves hMoves (fun _ hMem => absurd hMem List.not_mem_nil) fun _ _ => rfl

theorem run {info : Nat → BufferInfo} {words : Nat → Nat} {events : List BlockEvent}
    (hAdmits : (copiedSystem setup).Guarded (fun _ => Admits setup allowed) events
      (setup.copiedStart info words))
    (hRun : (copiedSystem setup).run events (setup.copiedStart info words) = some state) :
    LengthInv setup allowed state :=
  Transition.System.run_invariant (LengthInv setup allowed)
    (fun _ _ _ hInv hEvent hStep => hInv.step hEvent hStep) hAdmits (start info words) hRun

end LengthInv

section Runs

variable {setup : BlockSetup} {info : Nat → BufferInfo} {words : Nat → Nat}
  {events : List BlockEvent} {state : CopiedDevice}

theorem programmed_accepted
    (hRun : (copiedSystem setup).run events (setup.copiedStart info words) = some state)
    {write : Programmed} (hWrite : write ∈ state.programmed) :
    setup.Accepts write.block.length ∧ write.words = setup.copiedWords write.block.length := by
  have hInv : LengthInv setup (fun _ _ => True) state := by
    refine LengthInv.run (Transition.System.guarded_iff.mpr ?_) hRun
    intro first event rest middle _ _
    cases event with
    | send copied request => exact fun _ => trivial
    | finish buffer copied => trivial
    | irq completed ready => trivial
  obtain ⟨hAccepts, _, hWords⟩ := hInv.programmed write hWrite
  exact ⟨hAccepts, hWords⟩

/-- In every run whose accepted requests have lengths that the register can hold, each length that
is programmed is that of the data in the buffer; in any run it is so for those that the register
can hold, and for no others. -/
theorem programmed_lengths_right (hSize : setup.blockSize < 2 ^ 32)
    (hRun : (copiedSystem setup).run events (setup.copiedStart info words) = some state) :
    ((copiedSystem setup).Guarded (LengthFits setup) events (setup.copiedStart info words) →
      ∀ write ∈ state.programmed, write.Right setup) ∧
    ∀ write ∈ state.programmed,
      (write.Right setup ↔ FitsRegister write.block.length write.block.more) := by
  have hExact : ∀ write ∈ state.programmed,
      (write.Right setup ↔ FitsRegister write.block.length write.block.more) := by
    intro write hWrite
    obtain ⟨hAccepts, hWords⟩ := programmed_accepted hRun hWrite
    exact right_iff hSize hAccepts hWords
  refine ⟨fun hFits write hWrite => (hExact write hWrite).mpr ?_, hExact⟩
  have hAdmits : (copiedSystem setup).Guarded
      (fun _ => LengthInv.Admits setup FitsRegister) events (setup.copiedStart info words) := by
    rw [Transition.System.guarded_iff] at hFits ⊢
    intro first event rest middle hEvents hFirst
    have hEvent := hFits first event rest middle hEvents hFirst
    cases event with
    | send copied request => exact hEvent
    | finish buffer copied => trivial
    | irq completed ready => trivial
  exact ((LengthInv.run hAdmits hRun).programmed write hWrite).2.1

end Runs

instance (length : Nat) (more : Bool) : Decidable (FitsRegister length more) :=
  inferInstanceAs (Decidable (_ ∧ _))

instance LengthFits.decidable (setup : BlockSetup) (state : CopiedDevice) :
    (event : BlockEvent) → Decidable (LengthFits setup state event)
  | .send _ request => inferInstanceAs (Decidable
      (request.length * 4 % 2 ^ setup.width ≤ setup.blockSize →
        FitsRegister request.length request.more))
  | .finish _ _ => isTrue trivial
  | .irq _ _ => isTrue trivial

theorem programmed_lengths_right_three :
    ∃ state, (copiedSystem threeBuffers).run threeSent
        (threeBuffers.copiedStart emptyInfo fun _ => 0) = some state ∧
      state.programmed = [⟨⟨2, 8, true⟩, 8⟩, ⟨⟨0, 6, true⟩, 6⟩, ⟨⟨1, 4, true⟩, 4⟩] ∧
      ∀ write ∈ state.programmed, write.Right threeBuffers := by
  have hFits : (copiedSystem threeBuffers).Guarded (LengthFits threeBuffers) threeSent
      (threeBuffers.copiedStart emptyInfo fun _ => 0) := by
    decide
  exact ⟨_, rfl, by decide, (programmed_lengths_right (by decide) rfl).1 hFits⟩

/-- With a `size_t` of 32 bits a request of 2 ^ 30 + 1 words copies one word and programs a length
of 2 ^ 30 + 1. -/
theorem wrapped_length_programmed :
    ¬ ∀ (setup : BlockSetup) (info : Nat → BufferInfo) (words : Nat → Nat)
        (events : List BlockEvent) (state : CopiedDevice), setup.blockSize < 2 ^ 32 →
      setup.width = 32 ∨ setup.width = 64 →
      (copiedSystem setup).run events (setup.copiedStart info words) = some state →
      ∀ write ∈ state.programmed, write.Right setup := by
  intro h
  have hRight := h threeBuffers emptyInfo (fun _ => 0)
    [.send true ⟨2 ^ 30 + 1, true⟩, .finish 2 true] _ (by decide) (.inl rfl) rfl
    ⟨⟨2, 2 ^ 30 + 1, true⟩, 1⟩ (by decide)
  exact absurd hRight.words (by decide)

end Driver
