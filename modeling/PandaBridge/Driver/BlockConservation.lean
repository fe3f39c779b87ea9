import Mathlib.Algebra.Group.Action.Defs
import Mathlib.Algebra.Order.BigOperators.Group.List
import Mathlib.Algebra.GroupWithZero.Nat
import Mathlib.Algebra.Order.Group.Nat
import Mathlib.Data.List.Nodup
import Mathlib.Data.List.Perm.Subperm
import PandaBridge.Driver.PandaBlock

/-! The buffers of a table channel are conserved: over every run of requests and interrupts each
buffer has one owner, the count of words is that of the buffers under way, and blocks go to the
hardware in the order in which they were sent. -/
namespace Driver

namespace BlockChannel

/-- The buffers that hold data for the hardware, the oldest last. -/
def pending (channel : BlockChannel) : List Nat :=
  channel.queue ++ channel.nextBuffer.toList ++ channel.currentBuffer.toList

end BlockChannel

namespace BlockDevice

/-- The words of the buffers under way. -/
def pendingWords (device : BlockDevice) : Nat :=
  (device.channel.pending.map fun buffer => (device.info buffer).length).sum

/-- What holds of a channel when no request is under way. -/
structure Conserved (setup : BlockSetup) (device : BlockDevice) : Prop where
  owners : (device.channel.free ++ device.channel.pending).Perm (List.range setup.nbuffers)
  words : device.channel.nwords = device.pendingWords
  queued : device.channel.queue ≠ [] → device.channel.nextBuffer ≠ none
  inOrder : device.sent = device.handed ++ device.channel.queue.reverse.map device.block
  before : ∀ epoch ∈ device.earlier, epoch.2 <+: epoch.1

/-- What every step keeps; requests under way have buffers too. -/
structure BlockInv (setup : BlockSetup) (device : BlockDevice) : Prop where
  owners : ∀ buffer, (device.channel.free ++ device.channel.pending ++ device.calls).count buffer =
    if buffer < setup.nbuffers then 1 else 0
  fits : ∀ buffer ∈ device.channel.pending ++ device.calls,
    (device.info buffer).length * 4 ≤ setup.blockSize
  words : device.channel.nwords = device.pendingWords
  queued : device.channel.queue ≠ [] → device.channel.nextBuffer ≠ none
  placed : device.channel.nextBuffer ≠ none → device.channel.currentBuffer ≠ none
  inOrder : device.sent = device.handed ++ device.channel.queue.reverse.map device.block
  before : ∀ epoch ∈ device.earlier, epoch.2 <+: epoch.1

variable {setup : BlockSetup} {device : BlockDevice}

theorem foldl_freeBuffer (buffers : List Nat) (channel : BlockChannel) :
    buffers.foldl BlockChannel.freeBuffer channel =
      { channel with free := buffers.reverse ++ channel.free } := by
  induction buffers generalizing channel with
  | nil => rfl
  | cons buffer buffers ih =>
      rw [List.foldl_cons, ih, List.reverse_cons, List.append_assoc]
      rfl

theorem reverse_toList (buffer : Option Nat) : buffer.toList.reverse = buffer.toList := by
  cases buffer <;> rfl

theorem freeBuffers_eq (channel : BlockChannel) :
    channel.freeBuffers = { channel with
      free := channel.nextBuffer.toList ++ (channel.currentBuffer.toList ++
        (channel.queue.reverse ++ channel.free))
      queue := []
      currentBuffer := none
      nextBuffer := none
      nwords := 0 } := by
  simp only [BlockChannel.freeBuffers, foldl_freeBuffer, reverse_toList]

namespace BlockInv

theorem conserved (hInv : BlockInv setup device) (hCalls : device.calls = []) :
    Conserved setup device where
  owners := by
    rw [List.perm_iff_count]
    intro buffer
    have hOwner := hInv.owners buffer
    rw [hCalls, List.append_nil] at hOwner
    rw [hOwner, List.count_range]
  words := hInv.words
  queued := hInv.queued
  inOrder := hInv.inOrder
  before := hInv.before

/-- The words under way are far below the end of a `size_t`. -/
theorem pendingWords_lt (hInv : BlockInv setup device) (extra : List Nat)
    (hExtra : extra.Sublist device.calls) :
    ((device.channel.pending ++ extra).map fun buffer => (device.info buffer).length).sum <
      2 ^ setup.width := by
  have hNodup : (device.channel.free ++ device.channel.pending ++ device.calls).Nodup := by
    rw [List.nodup_iff_count_le_one]
    intro buffer
    rw [hInv.owners]
    split <;> omega
  have hSub : (device.channel.pending ++ extra).Sublist
      (device.channel.free ++ device.channel.pending ++ device.calls) :=
    (List.sublist_append_right _ _).append hExtra
  have hPending := hNodup.sublist hSub
  have hRange : (device.channel.pending ++ extra) ⊆ List.range setup.nbuffers := by
    intro buffer hMem
    have hCount := List.count_pos_iff.mpr (hSub.subset hMem)
    rw [hInv.owners] at hCount
    rw [List.mem_range]
    split at hCount
    · assumption
    · exact absurd hCount (by decide)
  have hLength : (device.channel.pending ++ extra).length ≤ setup.nbuffers := by
    have hLe := (List.subperm_of_subset hPending hRange).length_le
    rwa [List.length_range] at hLe
  have hFits : ∀ buffer ∈ device.channel.pending ++ extra,
      (device.info buffer).length * 4 ≤ setup.blockSize := by
    intro buffer hMem
    apply hInv.fits
    rcases List.mem_append.mp hMem with hPend | hCall
    · exact List.mem_append_left _ hPend
    · exact List.mem_append_right _ (hExtra.subset hCall)
  have hSum := List.sum_le_card_nsmul
    ((device.channel.pending ++ extra).map fun buffer => (device.info buffer).length)
    (setup.blockSize / 4) fun length hMem => by
      obtain ⟨buffer, hBuffer, rfl⟩ := List.mem_map.mp hMem
      have := hFits buffer hBuffer
      omega
  rw [List.length_map, smul_eq_mul] at hSum
  have hWords : (device.channel.pending ++ extra).length * (setup.blockSize / 4) * 4 ≤
      (device.channel.pending ++ extra).length * setup.blockSize := by
    rw [Nat.mul_assoc]
    exact Nat.mul_le_mul_left _ (Nat.div_mul_le_self _ _)
  have hMemory : (device.channel.pending ++ extra).length * setup.blockSize ≤ 2 ^ setup.width :=
    (Nat.mul_le_mul_right _ hLength).trans setup.inMemory
  have hPos : 0 < 2 ^ setup.width := Nat.two_pow_pos _
  omega

/-- A buffer of the free list or of a request holds no data for the hardware. -/
theorem not_mem_pending (hInv : BlockInv setup device) {buffer : Nat}
    (hMem : buffer ∈ device.channel.free ∨ buffer ∈ device.calls) :
    buffer ∉ device.channel.pending := by
  intro hPending
  have hOwner := hInv.owners buffer
  have hCount := List.count_pos_iff.mpr hPending
  rw [List.count_append, List.count_append] at hOwner
  rcases hMem with hFree | hCall
  · have := List.count_pos_iff.mpr hFree
    split at hOwner <;> omega
  · have := List.count_pos_iff.mpr hCall
    split at hOwner <;> omega

theorem flush (hInv : BlockInv setup device) (completed : Bool) :
    BlockInv setup (device.flush completed) := by
  have hChannel := freeBuffers_eq device.channel
  constructor
  case owners =>
    intro buffer
    rw [← hInv.owners buffer]
    simp only [BlockDevice.flush, hChannel, BlockChannel.pending, List.count_append,
      List.count_reverse, Option.toList_none, List.count_nil]
    omega
  case fits =>
    intro buffer hMem
    apply hInv.fits buffer
    simp only [BlockDevice.flush, hChannel, BlockChannel.pending, Option.toList_none,
      List.append_nil, List.nil_append] at hMem
    exact List.mem_append_right _ hMem
  case words => simp [BlockDevice.flush, hChannel, BlockDevice.pendingWords, BlockChannel.pending]
  case queued => simp [BlockDevice.flush, hChannel]
  case placed => simp [BlockDevice.flush, hChannel]
  case inOrder => simp [BlockDevice.flush, hChannel]
  case before =>
    intro epoch hMem
    rcases List.mem_append.mp hMem with hOld | hNew
    · exact hInv.before epoch hOld
    · obtain rfl := List.mem_singleton.mp hNew
      exact ⟨_, hInv.inOrder.symm⟩

theorem take (hInv : BlockInv setup device) {buffer : Nat} {free : List Nat}
    (hFree : device.channel.free = buffer :: free) {length : Nat} (more : Bool)
    (hFits : length * 4 ≤ setup.blockSize) :
    BlockInv setup { device with
      channel := { device.channel with free := free }
      info := Function.update device.info buffer ⟨length, more⟩
      calls := buffer :: device.calls } := by
  have hMem : buffer ∈ device.channel.free := by
    rw [hFree]
    exact List.mem_cons_self
  have hPending := hInv.not_mem_pending (.inl hMem)
  have hOther : ∀ other ∈ device.channel.pending,
      Function.update device.info buffer ⟨length, more⟩ other = device.info other := by
    intro other hIn
    apply Function.update_of_ne
    rintro rfl
    exact hPending hIn
  constructor
  case owners =>
    intro other
    have hOwner := hInv.owners other
    rw [hFree] at hOwner
    rw [← hOwner]
    simp only [BlockChannel.pending, List.count_append, List.count_cons]
    omega
  case fits =>
    intro other hIn
    dsimp only at hIn ⊢
    by_cases hSame : other = buffer
    · rw [hSame, Function.update_self]
      exact hFits
    · rw [Function.update_of_ne hSame]
      apply hInv.fits other
      rcases List.mem_append.mp hIn with hPend | hCall
      · exact List.mem_append_left _ hPend
      · rcases List.mem_cons.mp hCall with hEq | hCall
        · exact absurd hEq hSame
        · exact List.mem_append_right _ hCall
  case words =>
    refine hInv.words.trans ?_
    unfold BlockDevice.pendingWords
    congr 1
    exact List.map_congr_left fun other hIn => by
      dsimp only
      rw [hOther other hIn]
  case queued => exact hInv.queued
  case placed => exact hInv.placed
  case inOrder =>
    refine hInv.inOrder.trans ?_
    congr 1
    refine List.map_congr_left fun other hIn => ?_
    have hPend : other ∈ device.channel.pending :=
      List.mem_append_left _ (List.mem_append_left _ (List.mem_reverse.mp hIn))
    simp only [block, hOther other hPend]
  case before => exact hInv.before

theorem sendStart (hInv : BlockInv setup device) (copied : Bool) {request : SendRequest}
    (hLength : request.length * 4 < 2 ^ setup.width) :
    BlockInv setup (device.sendStart setup copied request).1 := by
  unfold BlockDevice.sendStart
  split
  · exact hInv
  · split
    · exact hInv
    · next hShort =>
        rw [not_not, Nat.mod_eq_of_lt hLength] at hShort
        split
        · exact hInv.flush false
        · split
          · exact hInv
          · next hFree => exact hInv.take hFree request.more hShort

theorem giveBack (hInv : BlockInv setup device) {buffer : Nat} (hCall : buffer ∈ device.calls) :
    BlockInv setup { device with
      calls := device.calls.erase buffer
      channel := device.channel.freeBuffer buffer } := by
  constructor
  case owners =>
    intro other
    have hPos := List.count_pos_iff.mpr hCall
    rw [← hInv.owners other]
    simp only [BlockChannel.freeBuffer, BlockChannel.pending, List.count_append, List.count_cons,
      List.count_erase]
    by_cases hSame : buffer = other
    · subst hSame
      simp only [beq_self_eq_true, if_true]
      omega
    · simp only [beq_eq_false_iff_ne.mpr hSame, Bool.false_eq_true, if_false]
      omega
  case fits =>
    intro other hMem
    apply hInv.fits other
    rcases List.mem_append.mp hMem with hPend | hOther
    · exact List.mem_append_left _ hPend
    · exact List.mem_append_right _ (List.mem_of_mem_erase hOther)
  case words => exact hInv.words
  case queued => exact hInv.queued
  case placed => exact hInv.placed
  case inOrder => exact hInv.inOrder
  case before => exact hInv.before

/-- The places of a channel: both free, one taken, or both, and only then a queue. -/
theorem places (hInv : BlockInv setup device) :
    (device.channel.currentBuffer = none ∧ device.channel.nextBuffer = none ∧
        device.channel.queue = []) ∨
      (∃ current, device.channel.currentBuffer = some current ∧ device.channel.nextBuffer = none ∧
        device.channel.queue = []) ∨
      ∃ current next, device.channel.currentBuffer = some current ∧
        device.channel.nextBuffer = some next := by
  have hQueue : device.channel.nextBuffer = none → device.channel.queue = [] := by
    intro hNext
    by_contra hSome
    exact hInv.queued hSome hNext
  cases hNext : device.channel.nextBuffer with
  | none =>
      cases hCurrent : device.channel.currentBuffer with
      | none => exact .inl ⟨rfl, rfl, hQueue hNext⟩
      | some current => exact .inr (.inl ⟨current, rfl, rfl, hQueue hNext⟩)
  | some next =>
      cases hCurrent : device.channel.currentBuffer with
      | none => exact absurd hCurrent (hInv.placed (by rw [hNext]; exact Option.some_ne_none next))
      | some current => exact .inr (.inr ⟨current, next, rfl, rfl⟩)

theorem join (hInv : BlockInv setup device) {buffer : Nat} (hCall : buffer ∈ device.calls)
    {queue : List Nat} {current next : Option Nat} {handed : List HandedBlock}
    (hPending : ∀ other, (queue ++ next.toList ++ current.toList).count other =
      device.channel.pending.count other + [buffer].count other)
    (hQueued : queue ≠ [] → next ≠ none) (hPlaced : next ≠ none → current ≠ none)
    (hOrder : device.sent ++ [device.block buffer] = handed ++ queue.reverse.map device.block)
    (completed : Bool) :
    BlockInv setup { device with
      channel :=
        { free := device.channel.free
          queue := queue
          currentBuffer := current
          nextBuffer := next
          nwords := (device.channel.nwords + (device.info buffer).length) % 2 ^ setup.width
          completed := completed }
      calls := device.calls.erase buffer
      sent := device.sent ++ [device.block buffer]
      handed := handed } := by
  have hPerm : (queue ++ next.toList ++ current.toList).Perm (device.channel.pending ++ [buffer]) := by
    rw [List.perm_iff_count]
    intro other
    rw [hPending, List.count_append]
  constructor
  case owners =>
    intro other
    have hPos := List.count_pos_iff.mpr hCall
    have hMore := hPending other
    rw [← hInv.owners other]
    simp only [BlockChannel.pending, List.count_append, List.count_erase, List.count_singleton] at *
    by_cases hSame : buffer = other
    · subst hSame
      simp only [beq_self_eq_true, if_true] at *
      omega
    · simp only [beq_eq_false_iff_ne.mpr hSame, Bool.false_eq_true, if_false] at *
      omega
  case fits =>
    intro other hMem
    apply hInv.fits other
    rcases List.mem_append.mp hMem with hPend | hOther
    · rcases List.mem_append.mp (hPerm.subset hPend) with hOld | hNew
      · exact List.mem_append_left _ hOld
      · obtain rfl := List.mem_singleton.mp hNew
        exact List.mem_append_right _ hCall
    · exact List.mem_append_right _ (List.mem_of_mem_erase hOther)
  case words =>
    have hFits := hInv.pendingWords_lt [buffer] (List.singleton_sublist.mpr hCall)
    have hSum := (hPerm.map fun other => (device.info other).length).sum_eq
    have hWords := hInv.words
    unfold BlockDevice.pendingWords at hWords ⊢
    dsimp only [BlockChannel.pending] at hWords ⊢
    rw [hSum]
    rw [List.map_append, List.sum_append, List.map_singleton, List.sum_singleton] at hFits ⊢
    rw [hWords]
    exact Nat.mod_eq_of_lt hFits
  case queued => exact hQueued
  case placed => exact hPlaced
  case inOrder => exact hOrder
  case before => exact hInv.before

theorem sendFinish (hInv : BlockInv setup device) {buffer : Nat} (hCall : buffer ∈ device.calls) :
    BlockInv setup (device.sendFinish setup buffer true).1 := by
  unfold BlockDevice.sendFinish
  rw [if_neg (by simp)]
  split
  · exact hInv.giveBack hCall
  · have hOrder := hInv.inOrder
    rcases hInv.places with ⟨hCurrent, hNext, hQueue⟩ | ⟨current, hCurrent, hNext, hQueue⟩ |
      ⟨current, next, hCurrent, hNext⟩
    · rw [hQueue] at hOrder
      simp only [pushBuffer, hCurrent]
      apply hInv.join hCall
      · intro other
        simp [BlockChannel.pending, hCurrent, hNext, hQueue]
      · exact fun h => absurd hQueue h
      · exact fun _ => Option.some_ne_none buffer
      · rw [hOrder, hQueue]
        simp [block]
    · rw [hQueue] at hOrder
      simp only [pushBuffer, hCurrent, hNext]
      apply hInv.join hCall
      · intro other
        simp only [BlockChannel.pending, hCurrent, hNext, hQueue, Option.toList_some,
          Option.toList_none, List.count_append, List.count_nil]
        omega
      · exact fun h => absurd hQueue h
      · exact fun _ => Option.some_ne_none current
      · rw [hOrder, hQueue]
        simp [block]
    · simp only [pushBuffer, hCurrent, hNext]
      apply hInv.join hCall
      · intro other
        simp only [BlockChannel.pending, hCurrent, hNext, List.count_append, List.count_cons,
          List.count_nil]
        omega
      · exact fun _ => Option.some_ne_none next
      · exact fun _ => Option.some_ne_none current
      · rw [hOrder, List.reverse_cons, List.map_append, List.append_assoc]
        rfl

theorem release (hInv : BlockInv setup device) {buffer : Nat} {queue : List Nat}
    {current next : Option Nat} {handed : List HandedBlock}
    (hPending : ∀ other, device.channel.pending.count other =
      (queue ++ next.toList ++ current.toList).count other + [buffer].count other)
    (hQueued : queue ≠ [] → next ≠ none) (hPlaced : next ≠ none → current ≠ none)
    (hOrder : device.sent = handed ++ queue.reverse.map device.block) :
    BlockInv setup { device with
      channel :=
        { free := buffer :: device.channel.free
          queue := queue
          currentBuffer := current
          nextBuffer := next
          nwords := (device.channel.nwords + (2 ^ setup.width - (device.info buffer).length)) %
            2 ^ setup.width
          completed := device.channel.completed }
      handed := handed } := by
  have hPerm : device.channel.pending.Perm (queue ++ next.toList ++ current.toList ++ [buffer]) := by
    rw [List.perm_iff_count]
    intro other
    exact (hPending other).trans List.count_append.symm
  constructor
  case owners =>
    intro other
    have hMore := hPending other
    rw [← hInv.owners other]
    simp only [BlockChannel.pending, List.count_append, List.count_cons, List.count_nil] at *
    omega
  case fits =>
    intro other hMem
    apply hInv.fits other
    rcases List.mem_append.mp hMem with hPend | hOther
    · exact List.mem_append_left _ (hPerm.symm.subset (List.mem_append_left _ hPend))
    · exact List.mem_append_right _ hOther
  case words =>
    have hFits := hInv.pendingWords_lt [] (List.nil_sublist _)
    have hSum := (hPerm.map fun other => (device.info other).length).sum_eq
    have hWords := hInv.words
    have hSplit : ((queue ++ next.toList ++ current.toList ++ [buffer]).map fun other =>
          (device.info other).length).sum =
        ((queue ++ next.toList ++ current.toList).map fun other =>
          (device.info other).length).sum + (device.info buffer).length := by
      rw [List.map_append, List.sum_append, List.map_singleton, List.sum_singleton]
    rw [List.append_nil] at hFits
    unfold BlockDevice.pendingWords at hWords ⊢
    dsimp only [BlockChannel.pending] at hFits hSum hWords ⊢
    rw [hSplit] at hSum
    rw [hWords, hSum]
    rw [hSum] at hFits
    rw [show ∀ rest length : Nat, rest + length + (2 ^ setup.width - length) =
        rest + (length + (2 ^ setup.width - length)) from fun _ _ => Nat.add_assoc _ _ _,
      Nat.add_sub_cancel' (by omega), Nat.add_mod_right]
    exact Nat.mod_eq_of_lt (by omega)
  case queued => exact hQueued
  case placed => exact hPlaced
  case inOrder => exact hOrder
  case before => exact hInv.before

theorem ready (hInv : BlockInv setup device) :
    BlockInv setup (device.releaseCurrent setup).pushQueued := by
  have hIdle : device.channel.queue = [] → device.pushQueued = device := by
    intro hQueue
    rw [pushQueued, hQueue]
    rfl
  rcases hInv.places with ⟨hCurrent, hNext, hQueue⟩ | ⟨current, hCurrent, hNext, hQueue⟩ |
    ⟨current, next, hCurrent, hNext⟩
  · simp only [releaseCurrent, hCurrent]
    rwa [hIdle hQueue]
  · simp only [releaseCurrent, hCurrent, hNext]
    rwa [hIdle hQueue]
  · simp only [releaseCurrent, hCurrent, hNext]
    cases hLast : device.channel.queue.getLast? with
    | none =>
        have hQueue : device.channel.queue = [] := List.getLast?_eq_none_iff.mp hLast
        simp only [pushQueued, hLast]
        apply hInv.release
        · intro other
          simp only [BlockChannel.pending, hCurrent, hNext, Option.toList_some, Option.toList_none,
            List.count_append, List.count_nil]
          omega
        · exact fun h => absurd hQueue h
        · exact fun h => absurd rfl h
        · exact hInv.inOrder
    | some buffer =>
        obtain ⟨rest, hQueue⟩ := List.getLast?_eq_some_iff.mp hLast
        have hRest : device.channel.queue.dropLast = rest := by rw [hQueue, List.dropLast_concat]
        have hOrder := hInv.inOrder
        simp only [pushQueued, hLast, pushBuffer, Option.getD_some, hRest]
        apply hInv.release
        · intro other
          simp only [BlockChannel.pending, hCurrent, hNext, hQueue, Option.toList_some,
            List.count_append]
        · exact fun _ => Option.some_ne_none buffer
        · exact fun _ => Option.some_ne_none next
        · rw [hOrder, hQueue, List.reverse_append, List.map_append, ← List.append_assoc]
          rfl

end BlockInv

theorem BlockInv.start (info : Nat → BufferInfo) : BlockInv setup (setup.start info) where
  owners buffer := by
    simp [BlockSetup.start, BlockChannel.pending, List.count_range]
  fits buffer hMem := by simp [BlockSetup.start, BlockChannel.pending] at hMem
  words := by simp [BlockSetup.start, pendingWords, BlockChannel.pending]
  queued := by simp [BlockSetup.start]
  placed := by simp [BlockSetup.start]
  inOrder := by simp [BlockSetup.start]
  before := by simp [BlockSetup.start]

/-- The length of a request does not wrap when it is counted in bytes, and no request fails while
it copies its data. -/
def CopiesWhole (setup : BlockSetup) (_ : BlockDevice) : BlockEvent → Prop
  | .send _ request => request.length * 4 < 2 ^ setup.width
  | .finish _ copied => copied = true
  | .irq _ _ => True

instance CopiesWhole.decidable (setup : BlockSetup) (device : BlockDevice) :
    (event : BlockEvent) → Decidable (CopiesWhole setup device event)
  | .send _ request => inferInstanceAs (Decidable (request.length * 4 < 2 ^ setup.width))
  | .finish _ copied => inferInstanceAs (Decidable (copied = true))
  | .irq _ _ => isTrue trivial

theorem BlockInv.step {next : BlockDevice} {event : BlockEvent} (hInv : BlockInv setup device)
    (hCopies : CopiesWhole setup device event) (hStep : blockSystem setup device event = some next) :
    BlockInv setup next := by
  cases event with
  | send copied request =>
      obtain rfl := Option.some.inj hStep
      exact hInv.sendStart copied hCopies
  | finish buffer copied =>
      obtain rfl : copied = true := hCopies
      simp only [blockSystem] at hStep
      split at hStep
      · next hCall =>
          obtain rfl := Option.some.inj hStep
          exact hInv.sendFinish hCall
      · exact absurd hStep (by simp)
  | irq completed ready =>
      obtain rfl := Option.some.inj hStep
      rw [blockIsr]
      split
      · exact hInv.flush true
      · split
        · exact hInv.ready
        · exact hInv

end BlockDevice

open BlockDevice in
/-- In every run in which no request fails in its copy or has a length that wraps, the buffers of
the channel are conserved whenever no request is under way. -/
theorem table_buffers_conserved {setup : BlockSetup} {info : Nat → BufferInfo}
    {events : List BlockEvent} {device : BlockDevice}
    (hCopies : (blockSystem setup).Guarded (CopiesWhole setup) events (setup.start info))
    (hRun : (blockSystem setup).run events (setup.start info) = some device)
    (hCalls : device.calls = []) : Conserved setup device :=
  (Transition.System.run_invariant (BlockInv setup)
    (fun _ _ _ hInv hGuard hStep => hInv.step hGuard hStep) hCopies (BlockInv.start info)
    hRun).conserved hCalls

/-- Three buffers of a page. -/
def threeBuffers : BlockSetup where
  width := 32
  blockSize := 4096
  nbuffers := 3
  wide := by decide
  inMemory := by decide

def emptyInfo (_ : Nat) : BufferInfo := ⟨0, false⟩

/-- Three blocks are sent, the second and third while the interrupt of the first is on its way. -/
def threeSent : List BlockEvent :=
  [.send true ⟨8, true⟩, .finish 2 true, .send true ⟨4, true⟩, .send true ⟨6, true⟩, .finish 0 true,
    .irq false true, .finish 1 true, .irq false true]

theorem table_buffers_conserved_three :
    ∃ device, (blockSystem threeBuffers).run threeSent (threeBuffers.start emptyInfo) = some device ∧
      BlockDevice.Conserved threeBuffers device ∧ device.channel.nwords = 4 := by
  have hCopies : (blockSystem threeBuffers).Guarded (BlockDevice.CopiesWhole threeBuffers) threeSent
      (threeBuffers.start emptyInfo) := by
    decide
  exact ⟨_, rfl, table_buffers_conserved hCopies rfl rfl, rfl⟩

/-- A copy that fails takes its buffer with it. -/
theorem failed_copy_loses_buffer :
    ∃ device, (blockSystem threeBuffers).run [.send true ⟨1, true⟩, .finish 2 false]
        (threeBuffers.start emptyInfo) = some device ∧
      device.calls = [] ∧ ¬ BlockDevice.Conserved threeBuffers device := by
  refine ⟨_, rfl, rfl, fun h => ?_⟩
  exact absurd h.owners.length_eq (by decide)

end Driver
