import Mathlib.Data.List.Count
import PandaBridge.Driver.PandaBlock
import PandaBridge.Resource.Log

/-! Who uses which table channel. A file is configured for a channel once, with its registers and
its buffers, and gives the channel back when it is closed. -/
namespace Driver

open Resource

/-- `BLOCK_CHANNEL_COUNT`. -/
def blockChannelCount : Nat := 16

def pageShift : Nat := 12

/-- `panda_block`. -/
structure BlockRequest where
  order : UInt32
  blockBase : UInt32
  blockLength : UInt32
  dmaChannel : UInt32
  nbuffers : UInt32
  deriving DecidableEq

/-- `block_channel` with its registers and its user. -/
structure UsedChannel extends BlockChannel where
  addrReg : Nat
  lengthReg : Nat
  hasUser : Bool
  deriving DecidableEq

/-- What is obtained for a buffer. -/
inductive BufferResource
  | info (buffer : Nat)
  | pages (buffer : Nat)
  | mapping (buffer : Nat)
  deriving DecidableEq

/-- `panda_pcap`: the registers and the channels, with the registers that a reset has cleared and
all that was obtained and given back for buffers. -/
structure PandaPcap where
  regBase : Nat
  length : UInt32
  blockChannels : Fin blockChannelCount → UsedChannel
  cleared : List Nat
  log : List (Action BufferResource)

/-- `block_open`. -/
structure BlockOpen where
  block : BlockRequest
  blockSize : Nat
  channel : Option (Fin blockChannelCount)
  configured : Bool

inductive ConfigError
  | busy
  | fault
  | invalid
  | noMemory
  deriving DecidableEq

/-- What the kernel answers for each buffer: its structure, whether there are pages for it, and
whether these can be mapped. -/
structure BufferResults where
  kmalloc : Nat → Option Nat
  getFreePages : Nat → Bool
  dmaMapSingle : Nat → Bool

/-- The resources of a buffer, in the order in which they are given back. -/
def bufferResources (buffer : Nat) : List BufferResource :=
  [.mapping buffer, .pages buffer, .info buffer]

/-- The loop that gives back a list of buffers. -/
def releaseBuffers (buffers : List Nat) : List (Action BufferResource) :=
  (buffers.flatMap bufferResources).map .release

/-- The loop of `allocate_channel_buffers`, for so many buffers from this one on. -/
def allocateBuffersFrom (results : BufferResults) :
    (count i : Nat) → (freeList : List Nat) → List (Action BufferResource) × Option (List Nat)
  | 0, _, freeList => ([], some freeList)
  | count + 1, i, freeList =>
      match results.kmalloc i with
      | none => (releaseBuffers freeList, none)
      | some buffer =>
          if ¬ results.getFreePages i then
            (.acquire (.info buffer) :: .release (.info buffer) :: releaseBuffers freeList, none)
          else if ¬ results.dmaMapSingle i then
            (.acquire (.info buffer) :: .acquire (.pages buffer) :: .release (.pages buffer) ::
              .release (.info buffer) :: releaseBuffers freeList, none)
          else
            let rest := allocateBuffersFrom results count (i + 1) (buffer :: freeList)
            (.acquire (.info buffer) :: .acquire (.pages buffer) :: .acquire (.mapping buffer) ::
              rest.1, rest.2)

/-- `allocate_channel_buffers` until it gives its buffers to the channel. -/
def allocateChannelBuffers (nbuffers : Nat) (results : BufferResults) :
    List (Action BufferResource) × Option (List Nat) :=
  allocateBuffersFrom results nbuffers 0 []

/-- `reset_dma_locked`, without the write to the register. -/
def UsedChannel.resetDma (channel : UsedChannel) : UsedChannel :=
  { channel with toBlockChannel := { channel.toBlockChannel.freeBuffers with completed := false } }

namespace PandaPcap

variable (pcap : PandaPcap)

def setChannel (index : Fin blockChannelCount) (channel : UsedChannel) : PandaPcap :=
  { pcap with blockChannels := Function.update pcap.blockChannels index channel }

/-- `config_block`; on a fault the request is what was copied of it. -/
def configBlock (file : BlockOpen) (copied : Bool) (request : BlockRequest)
    (results : BufferResults) : PandaPcap × BlockOpen × Except ConfigError Nat :=
  if file.configured then (pcap, file, .error .busy)
  else
    let file := { file with block := request }
    if ¬ copied then (pcap, file, .error .fault)
    else if ¬ (request.blockBase ≤ pcap.length - 4 ∧ request.blockLength ≤ pcap.length - 4) then
      (pcap, file, .error .invalid)
    else if hChannel : request.dmaChannel.toNat < blockChannelCount then
      if ¬ 0 < request.nbuffers then (pcap, file, .error .invalid)
      else
        let index : Fin blockChannelCount := ⟨request.dmaChannel.toNat, hChannel⟩
        let blockSize := 2 ^ (request.order.toNat + pageShift)
        let file := { file with blockSize, channel := some index }
        let channel := { pcap.blockChannels index with
          addrReg := pcap.regBase + request.blockBase.toNat
          lengthReg := pcap.regBase + request.blockLength.toNat }
        if channel.hasUser then (pcap.setChannel index channel, file, .error .busy)
        else
          let channel := { channel.resetDma with hasUser := true }
          let allocated := allocateChannelBuffers request.nbuffers.toNat results
          let pcap := { pcap with
            cleared := pcap.cleared ++ [channel.lengthReg]
            log := pcap.log ++ allocated.1 }
          match allocated.2 with
          | none => (pcap.setChannel index channel, file, .error .noMemory)
          | some buffers =>
              (pcap.setChannel index { channel with free := buffers ++ channel.free },
                { file with configured := true }, .ok blockSize)
    else (pcap, file, .error .invalid)

/-- `panda_block_release`. -/
def pandaBlockRelease (file : BlockOpen) : PandaPcap :=
  match file.configured, file.channel with
  | true, some index =>
      let channel := (pcap.blockChannels index).resetDma
      { pcap.setChannel index { channel with hasUser := false, free := [] } with
        cleared := pcap.cleared ++ [channel.lengthReg]
        log := pcap.log ++ releaseBuffers channel.free }
  | _, _ => pcap

end PandaPcap

/-- What a refused or failed request should leave as it was. -/
structure UsedChannel.Kept (before after : UsedChannel) : Prop where
  addrReg : after.addrReg = before.addrReg
  lengthReg : after.lengthReg = before.lengthReg
  free : after.free = before.free
  queue : after.queue = before.queue
  currentBuffer : after.currentBuffer = before.currentBuffer
  nextBuffer : after.nextBuffer = before.nextBuffer
  completed : after.completed = before.completed
  hasUser : after.hasUser = before.hasUser

/-- The request passes all tests that come before the channel is touched. -/
structure BlockRequest.Reaches (pcap : PandaPcap) (file : BlockOpen) (copied : Bool)
    (request : BlockRequest) (index : Fin blockChannelCount) : Prop where
  notConfigured : file.configured = false
  copied : copied = true
  base : request.blockBase ≤ pcap.length - 4
  length : request.blockLength ≤ pcap.length - 4
  dmaChannel : request.dmaChannel.toNat = index
  nbuffers : 0 < request.nbuffers

/-- The request gives the channel the registers that it has. -/
def BlockRequest.SameRegisters (request : BlockRequest) (pcap : PandaPcap)
    (channel : UsedChannel) : Prop :=
  pcap.regBase + request.blockBase.toNat = channel.addrReg ∧
    pcap.regBase + request.blockLength.toNat = channel.lengthReg

/-- No step fails for so many buffers. -/
def BufferResults.Succeed (results : BufferResults) (nbuffers : Nat) : Prop :=
  ∀ i < nbuffers, (results.kmalloc i).isSome = true ∧ results.getFreePages i = true ∧
    results.dmaMapSingle i = true

/-! ### The buffers -/

theorem allocateBuffersFrom_isSome (results : BufferResults) (count i : Nat)
    (freeList : List Nat) :
    (allocateBuffersFrom results count i freeList).2.isSome = true ↔ ∀ other, i ≤ other →
      other < i + count → (results.kmalloc other).isSome = true ∧
        results.getFreePages other = true ∧ results.dmaMapSingle other = true := by
  induction count generalizing i freeList with
  | zero =>
      refine iff_of_true rfl fun other hFrom hTo => ?_
      omega
  | succ count ih =>
      have hFirst : i < i + (count + 1) := by omega
      unfold allocateBuffersFrom
      split
      · rename_i hKmalloc
        refine iff_of_false (by simp) fun hAll => ?_
        have hSome := (hAll i (Nat.le_refl i) hFirst).1
        rw [hKmalloc] at hSome
        exact absurd hSome (by decide)
      · rename_i buffer hKmalloc
        split
        · rename_i hPages
          exact iff_of_false (by simp) fun hAll => hPages (hAll i (Nat.le_refl i) hFirst).2.1
        · split
          · rename_i hMap
            exact iff_of_false (by simp) fun hAll => hMap (hAll i (Nat.le_refl i) hFirst).2.2
          · rename_i hPages hMap
            rw [ih]
            constructor
            · intro hAll other hFrom hTo
              rcases Nat.lt_or_eq_of_le hFrom with hAfter | rfl
              · exact hAll other hAfter (by omega)
              · exact ⟨Option.isSome_of_eq_some hKmalloc, by simpa using hPages,
                  by simpa using hMap⟩
            · exact fun hAll other hFrom hTo => hAll other (by omega) (by omega)

theorem allocateChannelBuffers_isSome (results : BufferResults) (nbuffers : Nat) :
    (allocateChannelBuffers nbuffers results).2.isSome = true ↔ results.Succeed nbuffers := by
  rw [allocateChannelBuffers, allocateBuffersFrom_isSome, Nat.zero_add]
  exact ⟨fun hAll i hLess => hAll i (Nat.zero_le i) hLess, fun hAll i _ hLess => hAll i hLess⟩

/-- An allocation has obtained each resource as often as it has given it back, but for those of the
buffers that it ends with. -/
theorem count_allocateBuffersFrom (results : BufferResults) (resource : BufferResource)
    (count i : Nat) (freeList : List Nat) :
    let allocated := allocateBuffersFrom results count i freeList
    allocated.1.count (.acquire resource) + (freeList.flatMap bufferResources).count resource =
      allocated.1.count (.release resource) +
        ((allocated.2.getD []).flatMap bufferResources).count resource := by
  have hAcquired : ∀ buffers, (releaseBuffers buffers).count (.acquire resource) = 0 :=
    fun buffers => List.count_eq_zero.mpr (by simp [releaseBuffers])
  have hReleased : ∀ buffers, (releaseBuffers buffers).count (.release resource) =
      (buffers.flatMap bufferResources).count resource :=
    fun buffers => List.count_map_of_injective _ _ (fun _ _ h => Action.release.inj h) _
  induction count generalizing i freeList with
  | zero => rfl
  | succ count ih =>
      unfold allocateBuffersFrom
      split
      · simp [hAcquired, hReleased]
      · rename_i buffer hKmalloc
        split_ifs
        · have hRest := ih (i + 1) (buffer :: freeList)
          simp [bufferResources, List.count_cons] at hRest ⊢
          omega
        · simp [hAcquired, hReleased, List.count_cons]
          omega
        · simp [hAcquired, hReleased, List.count_cons]
          omega

/-! ### One request -/

namespace PandaPcap

variable {pcap : PandaPcap} {file : BlockOpen} {copied : Bool} {request : BlockRequest}
  {results : BufferResults} {index : Fin blockChannelCount}

/-- What a request does with its channel, once it reaches it. -/
def configured (pcap : PandaPcap) (request : BlockRequest) (results : BufferResults)
    (index : Fin blockChannelCount) : UsedChannel :=
  let channel := { pcap.blockChannels index with
    addrReg := pcap.regBase + request.blockBase.toNat
    lengthReg := pcap.regBase + request.blockLength.toNat }
  if channel.hasUser then channel
  else
    let buffers := (allocateChannelBuffers request.nbuffers.toNat results).2.getD []
    { channel.resetDma with hasUser := true, free := buffers ++ channel.resetDma.free }

/-- A request that does not reach a channel changes none, nor what the file is configured for. -/
theorem configBlock_refused (hRefused : ∀ index, ¬ request.Reaches pcap file copied index) :
    (pcap.configBlock file copied request results).1 = pcap ∧
      (pcap.configBlock file copied request results).2.1.channel = file.channel ∧
      (pcap.configBlock file copied request results).2.1.configured = file.configured := by
  unfold configBlock
  split
  · exact ⟨rfl, rfl, rfl⟩
  · rename_i hConfigured
    simp only
    split
    · exact ⟨rfl, rfl, rfl⟩
    · rename_i hCopied
      split
      · exact ⟨rfl, rfl, rfl⟩
      · rename_i hRegisters
        split
        · rename_i hChannel
          split
          · exact ⟨rfl, rfl, rfl⟩
          · rename_i hNbuffers
            rw [not_not] at hCopied hRegisters hNbuffers
            exact absurd ⟨Bool.eq_false_iff.mpr hConfigured, hCopied, hRegisters.1, hRegisters.2,
              rfl, hNbuffers⟩ (hRefused ⟨request.dmaChannel.toNat, hChannel⟩)
        · exact ⟨rfl, rfl, rfl⟩

theorem configBlock_reaches (hReaches : request.Reaches pcap file copied index) :
    (pcap.configBlock file copied request results).1.blockChannels =
        Function.update pcap.blockChannels index (pcap.configured request results index) ∧
      (pcap.configBlock file copied request results).2.2 =
        (if (pcap.blockChannels index).hasUser then .error .busy
          else if (allocateChannelBuffers request.nbuffers.toNat results).2.isSome then
            .ok (2 ^ (request.order.toNat + pageShift))
          else .error .noMemory) ∧
      (pcap.configBlock file copied request results).2.1.channel = some index ∧
      (pcap.configBlock file copied request results).2.1.configured =
        (!(pcap.blockChannels index).hasUser &&
          (allocateChannelBuffers request.nbuffers.toNat results).2.isSome) ∧
      (pcap.configBlock file copied request results).1.log =
        if (pcap.blockChannels index).hasUser then pcap.log
        else pcap.log ++ (allocateChannelBuffers request.nbuffers.toNat results).1 := by
  obtain ⟨hConfigured, hCopied, hBase, hLength, hChannel, hNbuffers⟩ := hReaches
  have hLess : request.dmaChannel.toNat < blockChannelCount := hChannel ▸ index.isLt
  have hIndex : (⟨request.dmaChannel.toNat, hLess⟩ : Fin blockChannelCount) = index :=
    Fin.ext hChannel
  unfold configBlock configured
  rw [if_neg (by simp [hConfigured])]
  simp only
  rw [if_neg (by simp [hCopied]), if_neg (by simp [hBase, hLength]), dif_pos hLess,
    if_neg (not_not.mpr hNbuffers)]
  simp only [hIndex]
  cases hUser : (pcap.blockChannels index).hasUser with
  | true => exact ⟨rfl, rfl, rfl, by simp [hConfigured], rfl⟩
  | false =>
      simp only [Bool.false_eq_true, if_false]
      cases (allocateChannelBuffers request.nbuffers.toNat results).2 with
      | none => exact ⟨rfl, rfl, rfl, by simp [hConfigured], rfl⟩
      | some buffers => exact ⟨rfl, rfl, rfl, rfl, rfl⟩

/-- Whichever step fails, and for whichever buffer, a request that returns an error has given back
all that it has obtained. -/
theorem configBlock_gives_back :
    ∃ actions, (pcap.configBlock file copied request results).1.log = pcap.log ++ actions ∧
      ((∃ error, (pcap.configBlock file copied request results).2.2 = .error error) →
        ∀ resource, actions.count (.acquire resource) = actions.count (.release resource)) := by
  by_cases hRefused : ∀ index, ¬ request.Reaches pcap file copied index
  · rw [(configBlock_refused hRefused).1]
    exact ⟨[], (List.append_nil _).symm, fun _ _ => rfl⟩
  · obtain ⟨index, hReaches⟩ := not_forall_not.mp hRefused
    obtain ⟨-, hResult, -, -, hLog⟩ :=
      @configBlock_reaches pcap file copied request results index hReaches
    rw [hResult, hLog]
    split_ifs with hUser hSome
    · exact ⟨[], (List.append_nil _).symm, fun _ _ => rfl⟩
    · exact ⟨_, rfl, fun ⟨_, hError⟩ => by cases hError⟩
    · refine ⟨_, rfl, fun _ resource => ?_⟩
      have hCount := count_allocateBuffersFrom results resource request.nbuffers.toNat 0 []
      have hNone : (allocateBuffersFrom results request.nbuffers.toNat 0 []).2 = none :=
        Option.not_isSome_iff_eq_none.mp hSome
      simp only [hNone] at hCount
      exact hCount

end PandaPcap

theorem UsedChannel.Kept.refl (channel : UsedChannel) : channel.Kept channel :=
  ⟨rfl, rfl, rfl, rfl, rfl, rfl, rfl, rfl⟩

/-- A request that returns an error leaves every channel as it was exactly when it reaches none,
or reaches one in use with the registers that it has, or one that is not in use and finds memory
for all its buffers. -/
theorem config_error_keeps_iff (pcap : PandaPcap) (file : BlockOpen) (copied : Bool)
    (request : BlockRequest) (results : BufferResults) :
    ((∃ error, (pcap.configBlock file copied request results).2.2 = .error error) →
      ∀ index, (pcap.blockChannels index).Kept
        ((pcap.configBlock file copied request results).1.blockChannels index)) ↔
    ∀ index, request.Reaches pcap file copied index →
      if (pcap.blockChannels index).hasUser then
        request.SameRegisters pcap (pcap.blockChannels index)
      else results.Succeed request.nbuffers.toNat := by
  by_cases hRefused : ∀ index, ¬ request.Reaches pcap file copied index
  · refine iff_of_true (fun _ index => ?_) fun index hReaches => absurd hReaches (hRefused index)
    rw [(PandaPcap.configBlock_refused hRefused).1]
    exact .refl _
  · obtain ⟨index, hReaches⟩ := not_forall_not.mp hRefused
    obtain ⟨hChannels, hResult, _⟩ := @PandaPcap.configBlock_reaches pcap file copied request
      results index hReaches
    have hOnly : ∀ other, request.Reaches pcap file copied other → other = index :=
      fun other hOther => Fin.ext (hOther.dmaChannel.symm.trans hReaches.dmaChannel)
    rw [hChannels, hResult, ← allocateChannelBuffers_isSome]
    have hAt : (∀ other, request.Reaches pcap file copied other →
        if (pcap.blockChannels other).hasUser then
          request.SameRegisters pcap (pcap.blockChannels other)
        else (allocateChannelBuffers request.nbuffers.toNat results).2.isSome = true) ↔
        if (pcap.blockChannels index).hasUser then
          request.SameRegisters pcap (pcap.blockChannels index)
        else (allocateChannelBuffers request.nbuffers.toNat results).2.isSome = true :=
      ⟨fun hAll => hAll index hReaches, fun hOne other hOther => hOnly other hOther ▸ hOne⟩
    rw [hAt]
    cases hUser : (pcap.blockChannels index).hasUser with
    | true =>
        simp only [if_true]
        constructor
        · intro hKept
          have hSame := hKept ⟨_, rfl⟩ index
          rw [Function.update_self, PandaPcap.configured, hUser, if_pos rfl] at hSame
          exact ⟨hSame.addrReg, hSame.lengthReg⟩
        · rintro ⟨hAddr, hLength⟩ _ other
          by_cases hOther : other = index
          · subst hOther
            rw [Function.update_self, PandaPcap.configured, hUser, if_pos rfl]
            exact ⟨hAddr, hLength, rfl, rfl, rfl, rfl, rfl, rfl⟩
          · rw [Function.update_of_ne hOther]
            exact .refl _
    | false =>
        simp only [Bool.false_eq_true, if_false]
        cases hBuffers : (allocateChannelBuffers request.nbuffers.toNat results).2 with
        | none =>
            refine iff_of_false (fun hKept => ?_) (by simp)
            have hSame := (hKept ⟨_, rfl⟩ index).hasUser
            rw [Function.update_self, PandaPcap.configured, hUser] at hSame
            exact absurd hSame (by simp)
        | some buffers =>
            exact iff_of_true (fun ⟨_, hError⟩ => by simp at hError) rfl

/-! ### All files -/

/-- The device with the files that are open. -/
structure BlockDriver where
  pcap : PandaPcap
  files : Nat → Option BlockOpen

/-- A file is opened, configured or closed, or a request or an interrupt moves the buffers of a
channel. -/
inductive DriverEvent
  | opened (file : Nat)
  | config (file : Nat) (copied : Bool) (request : BlockRequest) (results : BufferResults)
  | used (index : Fin blockChannelCount) (channel : BlockChannel)
  | released (file : Nat)

/-- `panda_block_open`. -/
def pandaBlockOpen : BlockOpen where
  block := ⟨0, 0, 0, 0, 0⟩
  blockSize := 0
  channel := none
  configured := false

def blockDriver : Transition.System BlockDriver DriverEvent := fun driver event =>
  match event with
  | .opened file =>
      match driver.files file with
      | none => some { driver with files := Function.update driver.files file (some pandaBlockOpen) }
      | some _ => none
  | .config file copied request results =>
      (driver.files file).map fun blockOpen =>
        let configured := driver.pcap.configBlock blockOpen copied request results
        { pcap := configured.1
          files := Function.update driver.files file (some configured.2.1) }
  | .used index channel =>
      some { driver with
        pcap := driver.pcap.setChannel index
          { driver.pcap.blockChannels index with toBlockChannel := channel } }
  | .released file =>
      (driver.files file).map fun blockOpen =>
        { pcap := driver.pcap.pandaBlockRelease blockOpen
          files := Function.update driver.files file none }

namespace BlockDriver

variable {driver next : BlockDriver} {index : Fin blockChannelCount}

/-- A file that is configured for a channel. -/
def Owns (driver : BlockDriver) (file : Nat) (index : Fin blockChannelCount) : Prop :=
  ∃ blockOpen, driver.files file = some blockOpen ∧ blockOpen.configured = true ∧
    blockOpen.channel = some index

/-- Whoever is configured for a channel is its only user. -/
structure Registered (driver : BlockDriver) : Prop where
  hasUser : ∀ file index, driver.Owns file index →
    (driver.pcap.blockChannels index).hasUser = true
  once : ∀ file other index, driver.Owns file index → driver.Owns other index → file = other

/-- A channel that is in use, by nobody. -/
structure Orphaned (driver : BlockDriver) (index : Fin blockChannelCount) : Prop where
  hasUser : (driver.pcap.blockChannels index).hasUser = true
  unowned : ∀ file, ¬ driver.Owns file index

/-- A request takes no user from any channel, and configures its file only for a channel that had
none. -/
theorem configBlock_user {pcap : PandaPcap} {blockOpen : BlockOpen} {copied : Bool}
    {request : BlockRequest} {results : BufferResults} (index : Fin blockChannelCount) :
    ((pcap.blockChannels index).hasUser = true →
      ((pcap.configBlock blockOpen copied request results).1.blockChannels index).hasUser =
        true) ∧
    ((pcap.configBlock blockOpen copied request results).2.1.configured = true →
      (pcap.configBlock blockOpen copied request results).2.1.channel = some index →
      (blockOpen.configured = true ∧ blockOpen.channel = some index) ∨
        ((pcap.blockChannels index).hasUser = false ∧
          ((pcap.configBlock blockOpen copied request results).1.blockChannels index).hasUser =
            true)) := by
  by_cases hRefused : ∀ index, ¬ request.Reaches pcap blockOpen copied index
  · obtain ⟨hPcap, hChannel, hConfigured⟩ :=
      @PandaPcap.configBlock_refused pcap blockOpen copied request results hRefused
    rw [hPcap, hChannel, hConfigured]
    exact ⟨fun hUser => hUser, fun hDone hIndex => .inl ⟨hDone, hIndex⟩⟩
  · obtain ⟨reached, hReaches⟩ := not_forall_not.mp hRefused
    obtain ⟨hChannels, _, hChannel, hConfigured, _⟩ :=
      @PandaPcap.configBlock_reaches pcap blockOpen copied request results reached hReaches
    have hUsed : (pcap.configured request results reached).hasUser = true := by
      unfold PandaPcap.configured
      simp only
      split
      · assumption
      · rfl
    rw [hChannels, hChannel, hConfigured]
    constructor
    · intro hUser
      by_cases hSame : index = reached
      · rw [hSame, Function.update_self]
        exact hUsed
      · rw [Function.update_of_ne hSame]
        exact hUser
    · intro hDone hIndex
      obtain rfl := Option.some.inj hIndex
      rw [Function.update_self]
      rw [Bool.and_eq_true, Bool.not_eq_true'] at hDone
      exact .inr ⟨hDone.1, hUsed⟩

/-- Only a file that owns a channel takes it with it. -/
theorem pandaBlockRelease_user {pcap : PandaPcap} {blockOpen : BlockOpen}
    (hOther : ¬ (blockOpen.configured = true ∧ blockOpen.channel = some index)) :
    ((pcap.pandaBlockRelease blockOpen).blockChannels index).hasUser =
      (pcap.blockChannels index).hasUser := by
  unfold PandaPcap.pandaBlockRelease
  split
  · rename_i other hConfigured hChannel
    have hNe : index ≠ other := by
      rintro rfl
      exact hOther ⟨hConfigured, hChannel⟩
    simp only [PandaPcap.setChannel]
    rw [Function.update_of_ne hNe]
  · rfl

theorem owns_update {pcap : PandaPcap} {file other : Nat} {value : Option BlockOpen}
    (hOther : other ≠ file) :
    Owns { pcap := pcap, files := Function.update driver.files file value } other index ↔
      driver.Owns other index := by
  unfold Owns
  simp only
  rw [Function.update_of_ne hOther]

theorem owns_updated {pcap : PandaPcap} {file : Nat} {value : Option BlockOpen} :
    Owns { pcap := pcap, files := Function.update driver.files file value } file index ↔
      ∃ blockOpen, value = some blockOpen ∧ blockOpen.configured = true ∧
        blockOpen.channel = some index := by
  unfold Owns
  simp only
  rw [Function.update_self]

/-- An event touches one file. The users of a channel stay, or the file comes to use a channel that
had no user, or the file that owns the channel is closed. -/
theorem step_user {event : DriverEvent} (hStep : blockDriver driver event = some next)
    (index : Fin blockChannelCount) :
    ∃ file, (∀ other, other ≠ file → (next.Owns other index ↔ driver.Owns other index)) ∧
      (((next.Owns file index → driver.Owns file index) ∧
          ((driver.pcap.blockChannels index).hasUser = true →
            (next.pcap.blockChannels index).hasUser = true)) ∨
        ((driver.pcap.blockChannels index).hasUser = false ∧
          (next.pcap.blockChannels index).hasUser = true) ∨
        (driver.Owns file index ∧ ¬ next.Owns file index)) := by
  cases event with
  | opened file =>
      simp only [blockDriver] at hStep
      split at hStep
      · obtain rfl := Option.some.inj hStep
        refine ⟨file, fun other hOther => owns_update hOther, .inl ⟨fun hOwns => ?_, fun h => h⟩⟩
        obtain ⟨blockOpen, hNew, hDone, _⟩ := owns_updated.mp hOwns
        obtain rfl := Option.some.inj hNew
        exact absurd hDone (by decide)
      · cases hStep
  | config file copied request results =>
      obtain ⟨blockOpen, hFile, rfl⟩ := Option.map_eq_some_iff.mp hStep
      obtain ⟨hKeeps, hGains⟩ :=
        @configBlock_user driver.pcap blockOpen copied request results index
      refine ⟨file, fun other hOther => owns_update hOther, ?_⟩
      by_cases hNew : (driver.pcap.blockChannels index).hasUser = false ∧
          ((driver.pcap.configBlock blockOpen copied request results).1.blockChannels
            index).hasUser = true
      · exact .inr (.inl hNew)
      · refine .inl ⟨fun hOwns => ?_, hKeeps⟩
        obtain ⟨configured, hValue, hDone, hIndex⟩ := owns_updated.mp hOwns
        obtain rfl := Option.some.inj hValue
        exact ⟨blockOpen, hFile, (hGains hDone hIndex).resolve_right hNew⟩
  | used other channel =>
      obtain rfl := Option.some.inj hStep
      refine ⟨0, fun _ _ => Iff.rfl, .inl ⟨fun hOwns => hOwns, fun hUser => ?_⟩⟩
      simp only [PandaPcap.setChannel]
      by_cases hSame : index = other
      · subst hSame
        rw [Function.update_self]
        exact hUser
      · rw [Function.update_of_ne hSame]
        exact hUser
  | released file =>
      obtain ⟨blockOpen, hFile, rfl⟩ := Option.map_eq_some_iff.mp hStep
      have hClosed : ∀ pcap, ¬ Owns { pcap := pcap, files := Function.update driver.files file none }
          file index := by
        intro pcap hOwns
        obtain ⟨_, hNone, _⟩ := owns_updated.mp hOwns
        cases hNone
      refine ⟨file, fun other hOther => owns_update hOther, ?_⟩
      by_cases hOwns : blockOpen.configured = true ∧ blockOpen.channel = some index
      · exact .inr (.inr ⟨⟨blockOpen, hFile, hOwns⟩, hClosed _⟩)
      · refine .inl ⟨fun hOwned => absurd hOwned (hClosed _), fun hUser => ?_⟩
        rw [pandaBlockRelease_user hOwns]
        exact hUser

theorem Registered.step {event : DriverEvent} (hRegistered : driver.Registered)
    (hStep : blockDriver driver event = some next) : next.Registered := by
  constructor
  case hasUser =>
    intro other index hOwns
    obtain ⟨file, hOthers, hKept | ⟨_, hUser⟩ | ⟨hOwned, hClosed⟩⟩ := step_user hStep index
    · apply hKept.2
      by_cases hSame : other = file
      · exact hRegistered.hasUser file index (hKept.1 (hSame ▸ hOwns))
      · exact hRegistered.hasUser other index ((hOthers other hSame).mp hOwns)
    · exact hUser
    · have hSame : other ≠ file := by
        rintro rfl
        exact hClosed hOwns
      exact absurd (hRegistered.once other file index ((hOthers other hSame).mp hOwns) hOwned) hSame
  case once =>
    intro first second index hFirst hSecond
    obtain ⟨file, hOthers, hKept | ⟨hUnused, _⟩ | ⟨_, hClosed⟩⟩ := step_user hStep index
    · have hBefore : ∀ other, next.Owns other index → driver.Owns other index := by
        intro other hOwns
        by_cases hSame : other = file
        · exact hSame ▸ hKept.1 (hSame ▸ hOwns)
        · exact (hOthers other hSame).mp hOwns
      exact hRegistered.once first second index (hBefore first hFirst) (hBefore second hSecond)
    · have hOnly : ∀ other, next.Owns other index → other = file := by
        intro other hOwns
        by_contra hSame
        have hUser := hRegistered.hasUser other index ((hOthers other hSame).mp hOwns)
        rw [hUnused] at hUser
        cases hUser
      exact (hOnly first hFirst).trans (hOnly second hSecond).symm
    · have hBefore : ∀ other, next.Owns other index → driver.Owns other index := by
        intro other hOwns
        have hSame : other ≠ file := by
          rintro rfl
          exact hClosed hOwns
        exact (hOthers other hSame).mp hOwns
      exact hRegistered.once first second index (hBefore first hFirst) (hBefore second hSecond)

theorem Orphaned.step {event : DriverEvent} (hOrphaned : driver.Orphaned index)
    (hStep : blockDriver driver event = some next) : next.Orphaned index := by
  obtain ⟨file, hOthers, hKept | ⟨hUnused, _⟩ | ⟨hOwned, _⟩⟩ := step_user hStep index
  · refine ⟨hKept.2 hOrphaned.hasUser, fun other hOwns => hOrphaned.unowned other ?_⟩
    by_cases hSame : other = file
    · exact hSame ▸ hKept.1 (hSame ▸ hOwns)
    · exact (hOthers other hSame).mp hOwns
  · rw [hOrphaned.hasUser] at hUnused
    cases hUnused
  · exact absurd hOwned (hOrphaned.unowned file)

/-- A request that finds no memory for its buffers leaves its channel to nobody. -/
theorem Registered.orphaned {file : Nat} {blockOpen : BlockOpen} {copied : Bool}
    {request : BlockRequest} {results : BufferResults} (hRegistered : driver.Registered)
    (hFile : driver.files file = some blockOpen)
    (hReaches : request.Reaches driver.pcap blockOpen copied index)
    (hFailed : (driver.pcap.configBlock blockOpen copied request results).2.2 = .error .noMemory)
    (hStep : blockDriver driver (.config file copied request results) = some next) :
    next.Orphaned index := by
  obtain ⟨hChannels, hResult, _, hConfigured, _⟩ :=
    @PandaPcap.configBlock_reaches driver.pcap blockOpen copied request results index hReaches
  have hUnused : (driver.pcap.blockChannels index).hasUser = false := by
    by_contra hUser
    rw [hResult, if_pos (by simpa using hUser)] at hFailed
    cases hFailed
  have hNone : (allocateChannelBuffers request.nbuffers.toNat results).2.isSome = false := by
    by_contra hSome
    rw [hResult, hUnused, if_neg (by decide), if_pos (Bool.not_eq_false _ ▸ hSome)] at hFailed
    cases hFailed
  obtain ⟨_, hSame, rfl⟩ := Option.map_eq_some_iff.mp hStep
  obtain rfl : blockOpen = _ := Option.some.inj (hFile.symm.trans hSame)
  constructor
  case hasUser =>
    simp only [hChannels]
    rw [Function.update_self, PandaPcap.configured, hUnused]
    rfl
  case unowned =>
    intro other hOwns
    by_cases hOther : other = file
    · subst hOther
      obtain ⟨_, hValue, hDone, _⟩ := owns_updated.mp hOwns
      obtain rfl := Option.some.inj hValue
      rw [hConfigured, hNone, Bool.and_false] at hDone
      cases hDone
    · have hUser := hRegistered.hasUser other index ((owns_update hOther).mp hOwns)
      rw [hUnused] at hUser
      cases hUser

/-- Once a request has found no memory for its buffers, whatever happens then, no request for its
channel ever succeeds. -/
theorem failed_config_blocks_channel {start last : BlockDriver} {before after : List DriverEvent}
    {file : Nat} {blockOpen : BlockOpen} {copied : Bool} {request : BlockRequest}
    {results : BufferResults} (hFiles : ∀ file, start.files file = none)
    (hBefore : blockDriver.run before start = some driver)
    (hFile : driver.files file = some blockOpen)
    (hReaches : request.Reaches driver.pcap blockOpen copied index)
    (hFailed : (driver.pcap.configBlock blockOpen copied request results).2.2 = .error .noMemory)
    (hAfter : blockDriver.run (.config file copied request results :: after) driver = some last)
    {laterOpen : BlockOpen} {later : BlockRequest} (laterResults : BufferResults)
    (hLater : later.Reaches last.pcap laterOpen true index) :
    (last.pcap.configBlock laterOpen true later laterResults).2.2 = .error .busy := by
  have hStart : start.Registered := by
    have hNone : ∀ file index, ¬ start.Owns file index := by
      rintro file index ⟨_, hSome, _⟩
      rw [hFiles] at hSome
      cases hSome
    exact ⟨fun file index hOwns => absurd hOwns (hNone file index),
      fun file _ index hOwns => absurd hOwns (hNone file index)⟩
  have hRegistered : driver.Registered :=
    Transition.System.Reachable.invariant Registered hStart
      (fun _ _ _ hInv hStep => hInv.step hStep) ⟨before, hBefore⟩
  obtain ⟨failed, hStep, hRest⟩ := Option.bind_eq_some_iff.mp hAfter
  have hOrphaned : last.Orphaned index :=
    Transition.System.Reachable.invariant (Orphaned · index)
      (hRegistered.orphaned hFile hReaches hFailed hStep)
      (fun _ _ _ hInv hStep => hInv.step hStep) ⟨after, hRest⟩
  rw [(PandaPcap.configBlock_reaches hLater).2.1, if_pos hOrphaned.hasUser]

end BlockDriver

/-! ### Two requests -/

def idleChannel : UsedChannel where
  free := []
  queue := []
  currentBuffer := none
  nextBuffer := none
  nwords := 0
  completed := false
  addrReg := 0
  lengthReg := 0
  hasUser := false

def firstChannel : Fin blockChannelCount := ⟨0, Nat.succ_pos 15⟩

def secondChannel : Fin blockChannelCount := ⟨1, Nat.succ_lt_succ (Nat.succ_pos 14)⟩

def idlePcap : PandaPcap where
  regBase := 4096
  length := 65536
  blockChannels := fun _ => idleChannel
  cleared := []
  log := []

/-- A file is configured for channel 0, and a request of another file for that channel is refused.
The channel then has the registers of the refused request; and a request for channel 1 that finds
no memory for its buffer leaves that channel in use. -/
theorem failed_config_changes_channel :
    let memory : BufferResults := ⟨some, fun _ => true, fun _ => true⟩
    let first := idlePcap.configBlock pandaBlockOpen true ⟨0, 16, 20, 0, 1⟩ memory
    let second := first.1.configBlock pandaBlockOpen true ⟨0, 32, 36, 0, 1⟩ memory
    let third := idlePcap.configBlock pandaBlockOpen true ⟨0, 16, 20, 1, 1⟩
      { memory with getFreePages := fun _ => false }
    first.2.2 = .ok 4096 ∧ second.2.2 = .error .busy ∧
      ¬ (first.1.blockChannels firstChannel).Kept (second.1.blockChannels firstChannel) ∧
      third.2.2 = .error .noMemory ∧
      ¬ (idlePcap.blockChannels secondChannel).Kept (third.1.blockChannels secondChannel) := by
  refine ⟨rfl, rfl, fun hKept => ?_, rfl, fun hKept => ?_⟩
  · exact absurd hKept.addrReg (by decide)
  · exact absurd hKept.hasUser (by decide)

/-- The file whose request found no memory, and which then finds its own channel in use. -/
theorem failed_config_blocks_second :
    let request : BlockRequest := ⟨0, 16, 20, 1, 1⟩
    let noPages : BufferResults := ⟨some, fun _ => false, fun _ => true⟩
    let failed := idlePcap.configBlock pandaBlockOpen true request noPages
    failed.2.2 = .error .noMemory ∧
      (failed.1.configBlock failed.2.1 true request ⟨some, fun _ => true, fun _ => true⟩).2.2 =
        .error .busy := by
  intro request noPages failed
  refine ⟨rfl, ?_⟩
  exact @BlockDriver.failed_config_blocks_channel
    ⟨idlePcap, Function.update (fun _ => none) 0 (some pandaBlockOpen)⟩ secondChannel
    ⟨idlePcap, fun _ => none⟩ ⟨failed.1, Function.update
      (Function.update (fun _ => none) 0 (some pandaBlockOpen)) 0 (some failed.2.1)⟩
    [.opened 0] [] 0 pandaBlockOpen true request noPages (fun _ => rfl) rfl rfl
    ⟨rfl, rfl, by decide, by decide, rfl, by decide⟩ rfl rfl failed.2.1 request _
    ⟨rfl, rfl, by decide, by decide, rfl, by decide⟩

end Driver
