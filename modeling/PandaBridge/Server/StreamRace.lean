import PandaBridge.Chunk.Pieces
import PandaBridge.Concurrent.Logic
import PandaBridge.Server.DataStream
import PandaBridge.Server.RingReader

/-! One client thread against the capture thread. The writer fills the block at its pointer
byte by byte, releases it, and starts over in the next slot without waiting for anybody; the
client copies bytes whenever it likes. -/
namespace Server

open Concurrent

/-- The ring with its memory. `blocks` records what the released blocks held. -/
structure StreamShared where
  ring : CaptureBuffer
  memory : Nat → Nat → UInt8
  blocks : List (List UInt8)

/-- What the writer does next, and how the socket answers. -/
inductive StreamChoice
  | fill (offset : Nat) (byte : UInt8)
  | release (length : Nat)
  | endWrite
  | socket (ok : Bool)

/-- A step of the writer; it only moves while the capture is active. -/
def StreamShared.write (blockCount : Nat) (shared : StreamShared) : StreamChoice → StreamShared
  | .fill offset byte =>
      { shared with
        memory := Function.update shared.memory shared.ring.inPtr
          (Function.update (shared.memory shared.ring.inPtr) offset byte) }
  | .release length =>
      { shared with
        ring := shared.ring.releaseWriteBlock blockCount length
        blocks := shared.blocks ++ [(List.range length).map (shared.memory shared.ring.inPtr)] }
  | .endWrite => { shared with ring := shared.ring.endWrite }
  | .socket _ => shared

def streamWorld (blockCount : Nat) :
    World StreamShared StreamChoice StreamRequest StreamAnswer where
  idle choice shared :=
    if shared.ring.state = .active then shared.write blockCount choice else shared
  serve
    | .lock, _, shared => (shared.ring, shared)
    | .measure slot, _, shared => (shared.ring.written slot, shared)
    | .load _ slot offset, _, shared => (shared.memory slot offset, shared)
    | .socket, choice, shared => (match choice with | .socket ok => ok | _ => false, shared)

/-- A byte that is kept is not loaded while the writer fills the slot of its block, and
whenever the reader looks at the ring the writer is less than `2 ^ 32` cycles ahead. -/
def streamGuard (blockCount : Nat) : Guard StreamShared StreamState StreamChoice StreamRequest
  | shared, state, .serve (.load true _ _) _ => shared.blocks.length + 1 ≠ state.index + blockCount
  | shared, state, .serve .lock _ =>
      WithinCycles blockCount shared.blocks.length (state.index - 1)
  | _, _, _ => True

instance streamGuard.decidable (blockCount : Nat) (shared : StreamShared) (state : StreamState) :
    (label : Label StreamChoice StreamRequest) → Decidable (streamGuard blockCount shared state label)
  | .serve (.load true _ _) _ =>
      inferInstanceAs (Decidable (shared.blocks.length + 1 ≠ state.index + blockCount))
  | .serve .lock _ =>
      inferInstanceAs (Decidable (shared.blocks.length / blockCount <
        (state.index - 1) / blockCount + 2 ^ 32))
  | .serve (.load false _ _) _ => isTrue trivial
  | .serve (.measure _) _ => isTrue trivial
  | .serve .socket _ => isTrue trivial
  | .idle _ => isTrue trivial
  | .finished => isTrue trivial

/-- The ring and its memory hold the blocks that were released last. -/
structure Captured (blockCount : Nat) (shared : StreamShared) : Prop where
  holds : Holds blockCount shared.ring (shared.blocks.map List.length)
  contents : ∀ b bytes, shared.blocks[b]? = some bytes → shared.blocks.length < b + blockCount →
    ∀ offset, offset < bytes.length → shared.memory (b % blockCount) offset = bytes.getD offset 0

section Writer

variable {blockCount : Nat} (hCount : 0 < blockCount) {shared : StreamShared}

theorem Captured.startWrite (ring : CaptureBuffer) (memory : Nat → Nat → UInt8) :
    Captured blockCount { ring := ring.startWrite, memory := memory, blocks := [] } :=
  ⟨Holds.startWrite ring, by simp⟩

theorem Captured.fill (h : Captured blockCount shared) (offset : Nat) (byte : UInt8) :
    Captured blockCount (shared.write blockCount (.fill offset byte)) := by
  refine ⟨h.holds, ?_⟩
  intro b bytes hBlock hNear position hPosition
  have hLess : b < shared.blocks.length := (List.getElem?_eq_some_iff.mp hBlock).1
  have hSlot : b % blockCount ≠ shared.ring.inPtr := by
    rw [h.holds.inPtr, List.length_map]
    exact Ring.slot_ne hLess hNear
  simp only [StreamShared.write]
  rw [Function.update_of_ne hSlot]
  exact h.contents b bytes hBlock hNear position hPosition

include hCount

theorem Captured.release (h : Captured blockCount shared) (length : Nat) :
    Captured blockCount (shared.write blockCount (.release length)) := by
  constructor
  · have hHolds := h.holds.release hCount length
    simpa [StreamShared.write] using hHolds
  · intro b bytes hBlock hNear position hPosition
    simp only [StreamShared.write, List.length_append, List.length_singleton] at hBlock hNear ⊢
    rcases Nat.lt_or_ge b shared.blocks.length with hOld | hNew
    · rw [List.getElem?_append_left hOld] at hBlock
      exact h.contents b bytes hBlock (by omega) position hPosition
    · have hLast : b = shared.blocks.length := by
        have := (List.getElem?_eq_some_iff.mp hBlock).1
        rw [List.length_append, List.length_singleton] at this
        omega
      subst hLast
      have hBytes : (List.range length).map (shared.memory shared.ring.inPtr) = bytes := by
        simpa using hBlock
      have hSlot : shared.blocks.length % blockCount = shared.ring.inPtr := by
        rw [h.holds.inPtr, List.length_map]
      rw [hSlot, List.getD_eq_getElem?_getD, List.getElem?_eq_getElem hPosition, Option.getD_some]
      subst hBytes
      simp

/-- Whatever the writer does, it only adds blocks. -/
theorem Captured.idle (h : Captured blockCount shared) (choice : StreamChoice) :
    Captured blockCount ((streamWorld blockCount).idle choice shared) ∧
      ∃ more, ((streamWorld blockCount).idle choice shared).blocks = shared.blocks ++ more := by
  simp only [streamWorld]
  split_ifs with hActive
  · cases choice with
    | fill offset byte => exact ⟨h.fill offset byte, [], (List.append_nil _).symm⟩
    | release length => exact ⟨h.release hCount length, _, rfl⟩
    | endWrite =>
        refine ⟨⟨?_, h.contents⟩, [], (List.append_nil _).symm⟩
        simp only [StreamShared.write, CaptureBuffer.endWrite]
        split_ifs <;> exact ⟨h.holds.inPtr, h.holds.cycle, h.holds.written⟩
    | socket ok => exact ⟨h, [], (List.append_nil _).symm⟩
  · exact ⟨h, [], (List.append_nil _).symm⟩

end Writer

/-- A writer that is not active does nothing. -/
theorem idle_of_inactive {blockCount : Nat} {shared : StreamShared}
    (h : shared.ring.state ≠ .active) (choice : StreamChoice) :
    (streamWorld blockCount).idle choice shared = shared := if_neg h

/-! ### What is sent -/

/-- The stream of a reader that was opened at block `start` and drops `skip` bytes. -/
structure StreamStart where
  start : Nat
  skip : Nat

namespace StreamStart

variable (origin : StreamStart)

/-- The captured bytes from the reader's start offset on. -/
def stream (blocks : List (List UInt8)) : List UInt8 :=
  (blocks.drop origin.start).flatten.drop origin.skip

/-- The part of it in the blocks before `index`. -/
def used (blocks : List (List UInt8)) (index : Nat) : List UInt8 :=
  ((blocks.take index).drop origin.start).flatten.drop origin.skip

/-- The bytes still to be skipped at block `index`. -/
def left (blocks : List (List UInt8)) (index : Nat) : Nat :=
  origin.skip - ((blocks.take index).drop origin.start).flatten.length

variable {origin} {blocks : List (List UInt8)} {index : Nat}

theorem used_append (hIndex : index ≤ blocks.length) (more : List (List UInt8)) :
    origin.used (blocks ++ more) index = origin.used blocks index := by
  rw [used, used, List.take_append_of_le_length hIndex]

theorem left_append (hIndex : index ≤ blocks.length) (more : List (List UInt8)) :
    origin.left (blocks ++ more) index = origin.left blocks index := by
  rw [left, left, List.take_append_of_le_length hIndex]

theorem consumed_succ (hStart : origin.start ≤ index) {bytes : List UInt8}
    (hBlock : blocks[index]? = some bytes) :
    ((blocks.take (index + 1)).drop origin.start).flatten =
      ((blocks.take index).drop origin.start).flatten ++ bytes := by
  have hTake : blocks.take (index + 1) = blocks.take index ++ [bytes] := by
    rw [List.take_add_one, hBlock]
    rfl
  have hLength : origin.start ≤ (blocks.take index).length := by
    rw [List.length_take]
    have := (List.getElem?_eq_some_iff.mp hBlock).1
    omega
  rw [hTake, List.drop_append_of_le_length hLength, List.flatten_append, List.flatten_singleton]

theorem used_succ (hStart : origin.start ≤ index) {bytes : List UInt8}
    (hBlock : blocks[index]? = some bytes) :
    origin.used blocks (index + 1) =
      origin.used blocks index ++ bytes.drop (origin.left blocks index) := by
  rw [used, consumed_succ hStart hBlock, List.drop_append]
  rfl

theorem left_succ (hStart : origin.start ≤ index) {bytes : List UInt8}
    (hBlock : blocks[index]? = some bytes) :
    origin.left blocks (index + 1) =
      origin.left blocks index - min (origin.left blocks index) bytes.length := by
  rw [left, left, consumed_succ hStart hBlock, List.length_append]
  omega

theorem used_prefix (hStart : origin.start ≤ index) (hIndex : index ≤ blocks.length) :
    origin.used blocks index <+: origin.stream blocks := by
  have hSplit : blocks.drop origin.start =
      (blocks.take index).drop origin.start ++ blocks.drop index := by
    conv_lhs => rw [← List.take_append_drop index blocks]
    rw [List.drop_append_of_le_length]
    rw [List.length_take]
    omega
  rw [used, stream, hSplit, List.flatten_append, List.drop_append]
  exact List.prefix_append _ _

theorem used_all (hIndex : index = blocks.length) :
    origin.used blocks index = origin.stream blocks := by
  rw [used, stream, hIndex, List.take_length]

theorem stream_prefix (more : List (List UInt8)) (hStart : origin.start ≤ blocks.length) :
    origin.stream blocks <+: origin.stream (blocks ++ more) := by
  rw [← used_all rfl, ← used_append (Nat.le_refl _) more]
  exact used_prefix hStart (by rw [List.length_append]; omega)

end StreamStart

/-- What was transmitted is the converted first samples of the stream. -/
structure SentRight (config : StreamConfig) (origin : StreamStart) (state : StreamState)
    (blocks : List (List UInt8)) : Prop where
  started : origin.start ≤ blocks.length
  whole : config.raw * state.sentSamples ≤ (origin.stream blocks).length
  payload : state.payload =
    (Chunk.pieces config.raw state.sentSamples (origin.stream blocks)).flatMap config.convert

theorem SentRight.append {config : StreamConfig} {origin : StreamStart} {state : StreamState}
    {blocks : List (List UInt8)} (h : SentRight config origin state blocks)
    (more : List (List UInt8)) : SentRight config origin state (blocks ++ more) := by
  obtain ⟨rest, hRest⟩ := StreamStart.stream_prefix more h.started
  refine ⟨?_, ?_, ?_⟩
  · rw [List.length_append]
    exact h.started.trans (Nat.le_add_right _ _)
  · rw [← hRest, List.length_append]
    exact h.whole.trans (Nat.le_add_right _ _)
  · rw [← hRest, Chunk.pieces_append h.whole]
    exact h.payload

theorem SentRight.send {config : StreamConfig} {origin : StreamStart} {state next : StreamState}
    {blocks : List (List UInt8)} (h : SentRight config origin state blocks) {known : List UInt8}
    {samples : Nat} (hKnown : known <+: origin.stream blocks)
    (hWhole : config.raw * (state.sentSamples + samples) ≤ known.length)
    (hPayload : next.payload = state.payload ++
      (Chunk.pieces config.raw samples (known.drop (config.raw * state.sentSamples))).flatMap
        config.convert)
    (hSent : next.sentSamples = state.sentSamples + samples) :
    SentRight config origin next blocks := by
  obtain ⟨rest, hRest⟩ := hKnown
  have hMul := Nat.mul_add config.raw state.sentSamples samples
  have hDrop : (origin.stream blocks).drop (config.raw * state.sentSamples) =
      known.drop (config.raw * state.sentSamples) ++ rest := by
    rw [← hRest, List.drop_append_of_le_length (by omega)]
  have hInside : config.raw * samples ≤
      (known.drop (config.raw * state.sentSamples)).length := by
    rw [List.length_drop]
    omega
  refine ⟨h.started, ?_, ?_⟩
  · rw [hSent, ← hRest, List.length_append]
    omega
  · rw [hPayload, hSent, Chunk.pieces_add, List.flatMap_append, ← h.payload, hDrop,
      Chunk.pieces_append hInside]

end Server
