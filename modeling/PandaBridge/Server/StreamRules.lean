import PandaBridge.Server.StreamRace

/-! Rules for the client thread. An assertion is about the thread's exact state and the
blocks released so far; as blocks are only added, it survives the writer if it survives
further blocks. -/
namespace Server

open Concurrent

variable {Result NextResult : Type}

/-- Kept by further blocks. -/
def Grows (known : List (List UInt8) → Prop) : Prop :=
  ∀ blocks more, known blocks → known (blocks ++ more)

section Rules

variable (config : StreamConfig) (origin : StreamStart)

/-- What holds in every state of a run: the samples sent are right, and once everything is
read all whole samples of the capture have been sent. -/
def StreamInv (shared : StreamShared) (state : StreamState) : Prop :=
  Captured config.blockCount shared ∧ SentRight config origin state shared.blocks ∧
    (state.reader.status = .allRead → shared.ring.state ≠ .active ∧
      state.sentSamples = (origin.stream shared.blocks).length / config.raw)

def Known (known : List (List UInt8) → Prop) (shared : StreamShared) : Prop :=
  Captured config.blockCount shared ∧ known shared.blocks

/-- The thread may make an access here. -/
structure Rest (state : StreamState) (known : List (List UInt8) → Prop) : Prop where
  grows : Grows known
  sent : ∀ blocks, known blocks → SentRight config origin state blocks
  status : state.reader.status ≠ .allRead

/-- The code runs safely from this state, and ends with `post`. -/
def Runs (state : StreamState) (known : List (List UInt8) → Prop) (code : StreamCode Result)
    (post : Result → StreamState → StreamShared → Prop) : Prop :=
  ∀ shared, Known config known shared →
    Safe (streamWorld config.blockCount) (streamGuard config.blockCount) (StreamInv config origin)
      post (code state) shared

variable {config origin} {state : StreamState} {known : List (List UInt8) → Prop}
variable {post : NextResult → StreamState → StreamShared → Prop}

theorem Runs.pure {result : NextResult}
    (h : ∀ shared, Known config known shared → post result state shared) :
    Runs config origin state known (Pure.pure result) post := h

theorem Runs.bind {first : StreamCode Result} {next : Result → StreamCode NextResult}
    {middle : Result → StreamState → List (List UInt8) → Prop}
    (hFirst : Runs config origin state known first fun result after =>
      Known config (middle result after))
    (hNext : ∀ result after, Runs config origin after (middle result after) (next result) post) :
    Runs config origin state known (first >>= next) post := fun shared hShared =>
  (hFirst shared hShared).bind hNext

theorem Runs.getBind {next : StreamState → StreamCode NextResult}
    (hNext : Runs config origin state known (next state) post) :
    Runs config origin state known (Code.get >>= next) post := hNext

theorem Runs.modifyBind {change : StreamState → StreamState} {next : Unit → StreamCode NextResult}
    (hNext : Runs config origin (change state) known (next ()) post) :
    Runs config origin state known (Code.modify change >>= next) post := hNext

theorem Runs.doneBind {first : StreamCode Result} {next : Result → StreamCode NextResult}
    {after : StreamState} {result : Result} (hFirst : first state = .done after result)
    (hNext : Runs config origin after known (next result) post) :
    Runs config origin state known (first >>= next) post := by
  intro shared hShared
  rw [Code.bind_apply, hFirst]
  exact hNext shared hShared

theorem Runs.weaken {weaker : List (List UInt8) → Prop} {code : StreamCode NextResult}
    (hCode : Runs config origin state weaker code post)
    (hKnown : ∀ blocks, known blocks → weaker blocks) :
    Runs config origin state known code post := fun shared hShared =>
  hCode shared ⟨hShared.1, hKnown _ hShared.2⟩

theorem Runs.choose {Value : Type} {each : Value → List (List UInt8) → Prop}
    {code : StreamCode NextResult}
    (hCode : ∀ value, Runs config origin state (each value) code post) :
    Runs config origin state (fun blocks => ∃ value, each value blocks) code post := by
  rintro shared ⟨hCaptured, value, hEach⟩
  exact hCode value shared ⟨hCaptured, hEach⟩

theorem Runs.assume {fact : Prop} {code : StreamCode NextResult}
    (hCode : fact → Runs config origin state known code post) :
    Runs config origin state (fun blocks => fact ∧ known blocks) code post := by
  rintro shared ⟨hCaptured, hFact, hKnown⟩
  exact hCode hFact shared ⟨hCaptured, hKnown⟩

theorem Runs.split {first second : List (List UInt8) → Prop} {code : StreamCode NextResult}
    (hFirst : Runs config origin state first code post)
    (hSecond : Runs config origin state second code post) :
    Runs config origin state (fun blocks => first blocks ∨ second blocks) code post := by
  rintro shared ⟨hCaptured, hLeft | hRight⟩
  · exact hFirst shared ⟨hCaptured, hLeft⟩
  · exact hSecond shared ⟨hCaptured, hRight⟩

theorem Runs.mono {stronger : NextResult → StreamState → StreamShared → Prop}
    {code : StreamCode NextResult} (hCode : Runs config origin state known code stronger)
    (hPost : ∀ result after shared, stronger result after shared → post result after shared) :
    Runs config origin state known code post := fun shared hShared =>
  (hCode shared hShared).weaken hPost

/-- A loop whose body leaves the state alone and learns one fact for each item. -/
theorem Runs.forEach {Item : Type} {body : Item → StreamCode Result}
    {fact : Item → Result → List (List UInt8) → Prop} (hGrows : ∀ item result, Grows (fact item result))
    (items : List Item) (hRest : Rest config origin state known)
    (hBody : ∀ item ∈ items, ∀ more : List (List UInt8) → Prop, Rest config origin state more →
      (∀ blocks, more blocks → known blocks) →
      Runs config origin state more (body item) fun result after =>
        Known config fun blocks => after = state ∧ more blocks ∧ fact item result blocks) :
    Runs config origin state known (Code.forEach body items) fun results after =>
      Known config fun blocks => after = state ∧ known blocks ∧
        List.Forall₂ (fun item result => fact item result blocks) items results := by
  induction items generalizing known with
  | nil => exact Runs.pure fun shared h => ⟨h.1, rfl, h.2, .nil⟩
  | cons item rest ih =>
      refine Runs.bind (hBody item List.mem_cons_self known hRest fun _ h => h) ?_
      intro first after
      by_cases hAfter : after = state
      · subst hAfter
        have hNext : Rest config origin after (fun blocks => known blocks ∧ fact item first blocks) :=
          ⟨fun blocks more h => ⟨hRest.grows blocks more h.1, hGrows item first blocks more h.2⟩,
            fun blocks h => hRest.sent blocks h.1, hRest.status⟩
        refine Runs.bind ((ih hNext fun other hOther more hMore hKnown =>
          hBody other (List.mem_cons_of_mem item hOther) more hMore fun blocks h =>
            (hKnown blocks h).1).weaken fun blocks h => h.2) ?_
        intro others last
        exact Runs.pure fun shared h =>
          ⟨h.1, h.2.1, h.2.2.1.1, List.Forall₂.cons h.2.2.1.2 h.2.2.2⟩
      · exact fun shared hShared => absurd hShared.2.1 hAfter

variable (hCount : 0 < config.blockCount)

include hCount

/-- One access, at a place where the thread may rest. The world answers and does not move. -/
theorem Runs.askSafe {request : StreamRequest} {next : StreamAnswer request → StreamCode NextResult}
    (hRest : Rest config origin state known)
    (hNext : ∀ shared choice, Known config known shared →
      streamGuard config.blockCount shared state (.serve request choice) →
      Safe (streamWorld config.blockCount) (streamGuard config.blockCount) (StreamInv config origin)
        post (next ((streamWorld config.blockCount).serve request choice shared).1 state) shared) :
    Runs config origin state known (Code.ask request >>= next) post := by
  intro shared hShared
  refine Safe.access (Known config known) hShared ?_ ?_ ?_
  · intro s choice hKnown _
    obtain ⟨hCaptured, more, hMore⟩ := hKnown.1.idle hCount choice
    refine ⟨hCaptured, ?_⟩
    rw [hMore]
    exact hRest.grows s.blocks more hKnown.2
  · intro s hKnown
    exact ⟨hKnown.1, hRest.sent s.blocks hKnown.2, fun h => absurd h hRest.status⟩
  · intro s choice hKnown hGuard
    have hStill : ((streamWorld config.blockCount).serve request choice s).2 = s := by
      cases request <;> rfl
    rw [hStill]
    exact hNext s choice hKnown hGuard

/-- The same, when it is enough what the answer says about the blocks. -/
theorem Runs.askBind {request : StreamRequest} {next : StreamAnswer request → StreamCode NextResult}
    (answered : StreamAnswer request → List (List UInt8) → Prop)
    (hRest : Rest config origin state known)
    (hServe : ∀ shared choice, Known config known shared →
      streamGuard config.blockCount shared state (.serve request choice) →
      answered ((streamWorld config.blockCount).serve request choice shared).1 shared.blocks)
    (hNext : ∀ answer, Runs config origin state
      (fun blocks => known blocks ∧ answered answer blocks) (next answer) post) :
    Runs config origin state known (Code.ask request >>= next) post :=
  Runs.askSafe hCount hRest fun shared choice hKnown hGuard =>
    hNext _ shared ⟨hKnown.1, hKnown.2, hServe shared choice hKnown hGuard⟩

theorem Runs.socketBind {next : Bool → StreamCode NextResult}
    (hRest : Rest config origin state known)
    (hNext : ∀ ok, Runs config origin state known (next ok) post) :
    Runs config origin state known (askSocket >>= next) post :=
  Runs.askBind hCount (fun _ _ => True) hRest (fun _ _ _ _ => trivial) fun ok =>
    (hNext ok).weaken fun _ h => h.1

/-! ### Loading -/

/-- The writer cannot have touched block `b` before it has released this many blocks, or, for
a byte that is kept, without the reader noticing at its next block. -/
def loadLimit (config : StreamConfig) (kept : Bool) (b : Nat) : Nat :=
  if kept then b + 1 + config.blockCount else b + config.blockCount

/-- A byte of the reader's block: right, as long as the writer is behind the limit. -/
theorem Runs.load {b : Nat} {bytes : List UInt8} (hIndex : state.index = b + 1)
    (hBlock : ∀ blocks, known blocks → blocks[b]? = some bytes) (kept : Bool) (offset : Nat)
    (hRest : Rest config origin state known) :
    Runs config origin state known (loadByte kept (b % config.blockCount) offset)
      fun byte after => Known config fun blocks => after = state ∧ known blocks ∧
        (blocks.length < loadLimit config kept b → offset < bytes.length →
          byte = bytes.getD offset 0) := by
  refine Runs.askBind hCount (fun byte blocks => blocks.length < loadLimit config kept b →
    offset < bytes.length → byte = bytes.getD offset 0) hRest ?_
    fun byte => Runs.pure fun shared h => ⟨h.1, rfl, h.2⟩
  intro shared choice hKnown hGuard hLimit hOffset
  refine hKnown.1.contents b bytes (hBlock _ hKnown.2) ?_ offset hOffset
  cases kept with
  | false => exact hLimit
  | true =>
      have hFilling : shared.blocks.length + 1 ≠ state.index + config.blockCount := hGuard
      have hBehind : shared.blocks.length < b + 1 + config.blockCount := hLimit
      omega

omit hCount in
theorem grows_of_limit {limit : Nat} {fact : Prop} :
    Grows fun blocks => blocks.length < limit → fact := by
  intro blocks more h hLimit
  rw [List.length_append] at hLimit
  exact h (by omega)

omit hCount in
theorem eq_map_of_forall₂ {Item Value : Type} {sure : Item → Prop} {value : Item → Value}
    {items : List Item} {results : List Value}
    (h : List.Forall₂ (fun item result => sure item → result = value item) items results)
    (hSure : ∀ item ∈ items, sure item) : results = items.map value := by
  induction h with
  | nil => rfl
  | cons hHead _ ih =>
      rw [List.map_cons, hHead (hSure _ List.mem_cons_self),
        ih fun item hItem => hSure item (List.mem_cons_of_mem _ hItem)]

theorem Runs.copy {b : Nat} {bytes : List UInt8} (hIndex : state.index = b + 1)
    (hBlock : ∀ blocks, known blocks → blocks[b]? = some bytes) (kept : Bool) (offset count : Nat)
    (hRest : Rest config origin state known) :
    Runs config origin state known (copyBytes kept (b % config.blockCount) offset count)
      fun copied after => Known config fun blocks => after = state ∧ known blocks ∧
        copied.length = count ∧
        (blocks.length < loadLimit config kept b → offset + count ≤ bytes.length →
          copied = (bytes.drop offset).take count) := by
  refine Runs.mono (Runs.forEach (fun i byte => grows_of_limit) (List.range count) hRest
    fun i _ more hMore hKnown => Runs.load hCount hIndex (fun blocks h => hBlock blocks (hKnown _ h))
      kept (offset + i) hMore) ?_
  rintro copied after shared ⟨hCaptured, hAfter, hKnown, hBytes⟩
  refine ⟨hCaptured, hAfter, hKnown, ?_, ?_⟩
  · rw [← hBytes.length_eq, List.length_range]
  · intro hLimit hInside
    have hCopied := eq_map_of_forall₂ (hBytes.imp fun i byte h => h hLimit) fun i hi => by
      have := List.mem_range.mp hi
      omega
    rw [hCopied, Chunk.map_range_getD hInside]

theorem Runs.convertSample {b : Nat} {bytes : List UInt8} (hIndex : state.index = b + 1)
    (hBlock : ∀ blocks, known blocks → blocks[b]? = some bytes) (offset i : Nat)
    (hRest : Rest config origin state known) :
    Runs config origin state known
      (convertSample config (fun i => loadByte false (b % config.blockCount) (offset + i))
        (config.raw * i))
      fun converted after => Known config fun blocks => after = state ∧ known blocks ∧
        (blocks.length < b + config.blockCount →
          offset + config.raw * (i + 1) ≤ bytes.length →
          converted =
            config.convert (((bytes.drop offset).drop (config.raw * i)).take config.raw)) := by
  refine Runs.bind (Runs.forEach (fun position byte => grows_of_limit) config.loads hRest
    fun position _ more hMore hKnown => Runs.load hCount hIndex
      (fun blocks h => hBlock blocks (hKnown _ h)) false (offset + (config.raw * i + position))
      hMore) ?_
  intro loaded after
  refine Runs.pure ?_
  rintro shared ⟨hCaptured, hAfter, hKnown, hBytes⟩
  refine ⟨hCaptured, hAfter, hKnown, ?_⟩
  intro hLimit hInside
  have hLoaded := eq_map_of_forall₂ (hBytes.imp fun position byte h => h hLimit)
    fun position hPosition => by
      have := config.loads_inside position hPosition
      rw [Nat.mul_succ] at hInside
      omega
  rw [hLoaded, ← config.convert_piece]
  congr 2
  funext position
  rw [List.getD_eq_getElem?_getD, List.getD_eq_getElem?_getD, List.getElem?_drop]

theorem Runs.processSamples {b : Nat} {bytes : List UInt8} (hIndex : state.index = b + 1)
    (hBlock : ∀ blocks, known blocks → blocks[b]? = some bytes) (offset length : Nat)
    (hRest : Rest config origin state known) :
    Runs config origin state known
      (processSamples config (fun i => loadByte false (b % config.blockCount) (offset + i)) length)
      fun count after => Known config fun blocks => ∃ converted,
        (count = config.batch state.outputBuffer length ∧
          after = { state with outputBuffer := state.outputBuffer ++ converted }) ∧
        known blocks ∧
        (blocks.length < b + config.blockCount → offset + length ≤ bytes.length →
          converted =
            (Chunk.pieces config.raw count (bytes.drop offset)).flatMap config.convert) := by
  refine Runs.getBind ?_
  refine Runs.bind (Runs.forEach (fun i converted => grows_of_limit)
    (List.range (config.batch state.outputBuffer length)) hRest
    fun i _ more hMore hKnown => Runs.convertSample hCount hIndex
      (fun blocks h => hBlock blocks (hKnown _ h)) offset i hMore) ?_
  intro converted after
  refine Runs.modifyBind (Runs.pure ?_)
  rintro shared ⟨hCaptured, rfl, hKnown, hSamples⟩
  refine ⟨hCaptured, converted.flatten, ⟨rfl, rfl⟩, hKnown, ?_⟩
  intro hLimit hInside
  have hConverted := eq_map_of_forall₂ (hSamples.imp fun i sample h => h hLimit) fun i hi => by
    have hMul : config.raw * (i + 1) ≤ config.raw * config.batch after.outputBuffer length :=
      Nat.mul_le_mul_left _ (List.mem_range.mp hi)
    have := config.raw_mul_batch after.outputBuffer length
    omega
  rw [hConverted, Chunk.pieces, List.flatMap_def, List.map_map]
  rfl

/-! ### Looking at the ring -/

/-- A check of block `b`. When it succeeds, the writer is less than a ring ahead at that
moment. -/
theorem Runs.lookAtRing {b : Nat} (hIndex : state.index = b + 1)
    {check : ReaderState → CaptureBuffer → ReaderState × Bool}
    (hCheck : ∀ ring, ∃ cycle outPtr, Points config.blockCount cycle outPtr b ∧
      check state.reader ring = state.reader.checkBlockStatus ring cycle outPtr)
    (hBlock : ∀ blocks, known blocks → b < blocks.length)
    (hRest : Rest config origin state known) :
    Runs config origin state known (lookAtRing check)
      fun ok after => Known config fun blocks =>
        (ok = true ∧ after = state) ∧ known blocks ∧ blocks.length < b + config.blockCount ∨
        (ok = false ∧ after = { state with reader := { state.reader with status := .overrun } }) ∧
          known blocks := by
  refine Runs.askBind hCount (fun ring blocks => check state.reader ring = (state.reader, true) ∧
      blocks.length < b + config.blockCount ∨
    check state.reader ring = ({ state.reader with status := .overrun }, false)) hRest ?_ ?_
  · intro shared choice hKnown hGuard
    obtain ⟨cycle, outPtr, hPoints, hStatus⟩ := hCheck shared.ring
    have hCycles : WithinCycles config.blockCount shared.blocks.length (state.index - 1) := hGuard
    rw [hIndex, Nat.add_sub_cancel, ← List.length_map List.length] at hCycles
    have hLess : b < (shared.blocks.map List.length).length := by
      rw [List.length_map]
      exact hBlock _ hKnown.2
    have hOk := checkOverrunOk_iff hCount hKnown.1.holds hCycles hPoints hLess
    rw [List.length_map] at hOk
    change check state.reader shared.ring = _ ∧ _ ∨ check state.reader shared.ring = _
    rw [hStatus, ReaderState.checkBlockStatus]
    split_ifs with hCheckOk
    · exact .inl ⟨rfl, hOk.mp hCheckOk⟩
    · exact .inr rfl
  · intro ring
    refine Runs.getBind (Runs.modifyBind (Runs.pure ?_))
    rintro shared ⟨hCaptured, hKnown, hOutcome⟩
    refine ⟨hCaptured, ?_⟩
    rcases hOutcome with ⟨hOk, hNear⟩ | hFailed
    · rw [hOk]
      exact .inl ⟨⟨rfl, rfl⟩, hKnown, hNear⟩
    · rw [hFailed]
      exact .inr ⟨⟨rfl, rfl⟩, hKnown⟩

end Rules

end Server
