import PandaBridge.Concurrent.Optimistic
import PandaBridge.Lqr.StateWindow

/-! The seqlock reader of the bridge, as its single word loads in program order.
`toFloat` is the scaling of a raw word. The reader is verified in any world that
has a window in it, so that the same triple serves the reader alone and the
whole bridge. -/
namespace Lqr

open Concurrent

/-- A snapshot as the optimiser sees it. -/
structure OperatingPoint (axes : Nat) (Value : Type) where
  stamp : Word
  pos : Fin axes → Value
  vel : Fin axes → Value
  setP : Fin axes → Value
  setV : Fin axes → Value

instance {axes : Nat} {Value : Type} [DecidableEq Value] :
    DecidableEq (OperatingPoint axes Value) := fun one other =>
  decidable_of_iff (one.stamp = other.stamp ∧ one.pos = other.pos ∧ one.vel = other.vel ∧
    one.setP = other.setP ∧ one.setV = other.setV) (by
      cases one
      cases other
      simp)

/-- The scratch arrays that the returned spans view. -/
structure SeqlockStateSource (axes : Nat) (Value : Type) where
  pos : Fin axes → Value
  vel : Fin axes → Value
  setp : Fin axes → Value
  setv : Fin axes → Value

abbrev SourceCode (axes : Nat) (Value : Type) := BridgeCode (SeqlockStateSource axes Value)

namespace SeqlockStateSource

variable {axes : Nat} {Value : Type} (toFloat : Word → Value)

def word {Fields : Type} (index : Nat) : BridgeCode Fields Word := Code.ask (Access.word index)

/-- Load a word and assign its scaled value to an element of the scratch arrays. -/
def assign (index : Nat)
    (put : Value → SeqlockStateSource axes Value → SeqlockStateSource axes Value) :
    SourceCode axes Value Unit := do
  let raw ← word index
  Code.modify (put (toFloat raw))

def decodeAxis (k : Fin axes) : SourceCode axes Value Unit := do
  assign toFloat (StateAbi.axisWord k StateAbi.posOff) fun value self =>
    { self with pos := Function.update self.pos k value }
  assign toFloat (StateAbi.axisWord k StateAbi.velOff) fun value self =>
    { self with vel := Function.update self.vel k value }
  assign toFloat (StateAbi.axisWord k StateAbi.setpOff) fun value self =>
    { self with setp := Function.update self.setp k value }
  assign toFloat (StateAbi.axisWord k StateAbi.setvOff) fun value self =>
    { self with setv := Function.update self.setv k value }

def decode : SourceCode axes Value Unit := do
  let _ ← Code.forEach (decodeAxis toFloat) (List.finRange axes)

def kMaxReadAttempts : Nat := 8

/-- The loop of `read` with the attempts that are left. -/
def attempt : Nat → SourceCode axes Value (Option (OperatingPoint axes Value))
  | 0 => pure none
  | left + 1 => do
      let s1 ← word StateAbi.seqWord
      if s1 &&& 1 ≠ 0 then attempt left
      else do
        let stamp ← word StateAbi.stampWord
        decode toFloat
        let s2 ← word StateAbi.seqWord
        if s2 = s1 then do
          let self ← Code.get
          pure (some ⟨stamp, self.pos, self.vel, self.setp, self.setv⟩)
        else attempt left

def read : SourceCode axes Value (Option (OperatingPoint axes Value)) :=
  attempt toFloat kMaxReadAttempts

/-- One aligned load of the stamp, without the seqlock. -/
def peekStamp {Fields : Type} : BridgeCode Fields Word := word StateAbi.stampWord

end SeqlockStateSource

/-- What the optimiser should see of an export. -/
def Export.operatingPoint {axes : Nat} {Value : Type} (toFloat : Word → Value)
    (sent : Export axes) : OperatingPoint axes Value where
  stamp := sent.stamp
  pos k := toFloat (sent.snapshot.pos k)
  vel k := toFloat (sent.snapshot.vel k)
  setP k := toFloat (sent.snapshot.setp k)
  setV k := toFloat (sent.snapshot.setv k)

section Reader

variable {cfg : ExportConfig} {Value Shared Choice : Type} {toFloat : Word → Value}

/-- A world that holds a window, as a reader needs it: while `frame` holds the
window is sound and only moves forward, and fewer than `2 ^ 31` exports complete
after the first `start` of them. A load leaves the window alone. -/
structure WindowView (world : World Shared Choice Access Access.Answer)
    (guard : Guard Shared (SeqlockStateSource cfg.axes Value) Choice Access)
    (view : Shared → WindowSystem cfg) (frame : Shared → Prop) (start : Nat) : Prop where
  word : ∀ index choice shared,
    (world.serve (.word index) choice shared).1 = (view shared).word index
  word_view : ∀ index choice shared,
    view (world.serve (.word index) choice shared).2 = view shared
  word_frame : ∀ index choice shared, frame shared →
    frame (world.serve (.word index) choice shared).2
  stable : ∀ source, Stable world guard source frame
  grows : ∀ source shared choice, frame shared → guard shared source (.idle choice) →
    WindowLe (view shared) (view (world.idle choice shared))
  inv : ∀ shared, frame shared → WindowInv (view shared)
  stamped : ∀ shared, frame shared → (view shared).clobbered = true → (view shared).stamped = 0
  start_le : ∀ shared, frame shared → start ≤ (view shared).completed
  budget : ∀ source shared index choice, frame shared →
    guard shared source (.serve (.word index) choice) → (view shared).completed < start + 2 ^ 31

/-- The frame of an attempt: the export that the noted version numbers is known. -/
def AttemptFrame (view : Shared → WindowSystem cfg) (frame : Shared → Prop) (index : Nat)
    (sent : Export cfg.axes) (shared : Shared) : Prop :=
  frame shared ∧ (view shared).bus.frozen[index]? = some sent

/-- The axes in the four lists have been decoded. -/
structure Decoded (toFloat : Word → Value) (sent : Export cfg.axes)
    (pos vel setp setv : List (Fin cfg.axes)) (source : SeqlockStateSource cfg.axes Value) :
    Prop where
  pos_eq : ∀ k ∈ pos, source.pos k = toFloat (sent.snapshot.pos k)
  vel_eq : ∀ k ∈ vel, source.vel k = toFloat (sent.snapshot.vel k)
  setp_eq : ∀ k ∈ setp, source.setp k = toFloat (sent.snapshot.setp k)
  setv_eq : ∀ k ∈ setv, source.setv k = toFloat (sent.snapshot.setv k)

variable {world : World Shared Choice Access Access.Answer}
  {guard : Guard Shared (SeqlockStateSource cfg.axes Value) Choice Access}
  {inv : Shared → SeqlockStateSource cfg.axes Value → Prop}
  {view : Shared → WindowSystem cfg} {frame : Shared → Prop} {start index : Nat}
  {sent : Export cfg.axes}

theorem WindowView.forward (h : WindowView world guard view frame start) (index : Nat)
    (sent : Export cfg.axes) :
    Forward world guard (fun shared => (view shared).version)
      (AttemptFrame view frame index sent) := by
  refine ⟨?_, ?_⟩
  · rintro source shared choice ⟨hFrame, hSent⟩ hGuard
    refine ⟨h.stable source shared choice hFrame hGuard, ?_⟩
    obtain ⟨more, hMore⟩ := (h.grows source shared choice hFrame hGuard).frozen
    rw [← hMore, List.getElem?_append_left (List.getElem?_eq_some_iff.mp hSent).1]
    exact hSent
  · rintro source shared choice ⟨hFrame, _⟩ hGuard
    exact (h.grows source shared choice hFrame hGuard).version

theorem WindowView.decode_eq (h : WindowView world guard view frame start) {shared : Shared}
    (hFrame : AttemptFrame view frame index sent shared)
    (hVersion : (view shared).version = 2 * (index + 1)) :
    decodeWords cfg.axes cfg.baseAddr (view shared).mem = sent := by
  obtain ⟨hStamped, _, shown, hShown, hStamp, hSnapshot⟩ :=
    (h.inv shared hFrame.1).snapshot hVersion
  obtain rfl : shown = sent := by
    rw [hFrame.2] at hShown
    exact (Option.some.inj hShown).symm
  have hFresh : (view shared).clobbered = false := by
    by_contra hClobbered
    have := h.stamped shared hFrame.1 (by simpa using hClobbered)
    omega
  ext1
  · rw [hStamp, ← hStamped]
    exact (h.inv shared hFrame.1).stamp hFresh
  · exact hSnapshot

private theorem word_triple (h : WindowView world guard view frame start)
    (hInv : ∀ shared source, frame shared → inv shared source) (i : Nat) (value : Word)
    (P : SeqlockStateSource cfg.axes Value → Prop)
    (hValue : ∀ mem : Memory, decodeWords cfg.axes cfg.baseAddr mem = sent →
      mem.window cfg.baseAddr i = value) :
    Triple world guard inv
      (fun source => AtVersion (fun shared => (view shared).version)
        (AttemptFrame view frame index sent) (2 * (index + 1)) (P source))
      (SeqlockStateSource.word i)
      (fun answer source => AtVersion (fun shared => (view shared).version)
        (AttemptFrame view frame index sent) (2 * (index + 1)) (P source ∧ answer = value)) := by
  refine Triple.load (h.forward index sent) ?_ ?_ ?_ ?_
  · intro shared source hFrame
    exact hInv shared source hFrame.1
  · rintro choice shared ⟨hFrame, hSent⟩
    refine ⟨h.word_frame i choice shared hFrame, ?_⟩
    rw [h.word_view]
    exact hSent
  · intro choice shared
    rw [h.word_view]
  · intro choice shared hFrame hVersion
    rw [h.word]
    exact hValue _ (h.decode_eq hFrame hVersion)

/-- What an attempt knows of its source while the version stays. -/
private abbrev Noted (view : Shared → WindowSystem cfg) (frame : Shared → Prop) (index : Nat)
    (sent : Export cfg.axes) (P : SeqlockStateSource cfg.axes Value → Prop)
    (source : SeqlockStateSource cfg.axes Value) (shared : Shared) : Prop :=
  AtVersion (fun shared => (view shared).version) (AttemptFrame view frame index sent)
    (2 * (index + 1)) (P source) shared

private theorem assign_triple (h : WindowView world guard view frame start)
    (hInv : ∀ shared source, frame shared → inv shared source) {i : Nat} {v : Word}
    {put : Value → SeqlockStateSource cfg.axes Value → SeqlockStateSource cfg.axes Value}
    {P Q : SeqlockStateSource cfg.axes Value → Prop}
    (hValue : ∀ mem : Memory, decodeWords cfg.axes cfg.baseAddr mem = sent →
      mem.window cfg.baseAddr i = v)
    (hPut : ∀ source, P source → Q (put (toFloat v) source)) :
    Triple world guard inv (Noted view frame index sent P)
      (SeqlockStateSource.assign toFloat i put) (fun _ => Noted view frame index sent Q) := by
  refine Triple.bind (word_triple h hInv i v P hValue) fun raw => ?_
  refine Triple.modify fun source shared hKnown => hKnown.mono ?_
  rintro ⟨hP, rfl⟩
  exact hPut source hP

private theorem update_mem {finished : List (Fin cfg.axes)} {k : Fin cfg.axes}
    {array : Fin cfg.axes → Value} {wanted : Fin cfg.axes → Value}
    (hOld : ∀ i ∈ finished, array i = wanted i) :
    ∀ i ∈ finished ++ [k], Function.update array k (wanted k) i = wanted i := by
  intro i hi
  by_cases hSame : i = k
  · subst hSame
    simp
  · rw [Function.update_of_ne hSame]
    refine hOld i ?_
    simpa [hSame] using hi

private theorem decodeAxis_triple (h : WindowView world guard view frame start)
    (hInv : ∀ shared source, frame shared → inv shared source) (K : Prop)
    (finished : List (Fin cfg.axes)) (k : Fin cfg.axes) :
    Triple world guard inv
      (Noted view frame index sent fun source =>
        K ∧ Decoded toFloat sent finished finished finished finished source)
      (SeqlockStateSource.decodeAxis toFloat k)
      (fun _ => Noted view frame index sent fun source =>
        K ∧ Decoded toFloat sent (finished ++ [k]) (finished ++ [k]) (finished ++ [k])
          (finished ++ [k]) source) := by
  refine Triple.bind (Q := fun _ => Noted view frame index sent fun source =>
    K ∧ Decoded toFloat sent (finished ++ [k]) finished finished finished source)
    (assign_triple h hInv (v := sent.snapshot.pos k) ?_ ?_) fun _ => ?_
  · rintro mem rfl
    rfl
  · rintro source ⟨hK, hDecoded⟩
    exact ⟨hK, update_mem hDecoded.pos_eq, hDecoded.vel_eq, hDecoded.setp_eq, hDecoded.setv_eq⟩
  refine Triple.bind (Q := fun _ => Noted view frame index sent fun source =>
    K ∧ Decoded toFloat sent (finished ++ [k]) (finished ++ [k]) finished finished source)
    (assign_triple h hInv (v := sent.snapshot.vel k) ?_ ?_) fun _ => ?_
  · rintro mem rfl
    rfl
  · rintro source ⟨hK, hDecoded⟩
    exact ⟨hK, hDecoded.pos_eq, update_mem hDecoded.vel_eq, hDecoded.setp_eq, hDecoded.setv_eq⟩
  refine Triple.bind (Q := fun _ => Noted view frame index sent fun source =>
    K ∧ Decoded toFloat sent (finished ++ [k]) (finished ++ [k]) (finished ++ [k]) finished source)
    (assign_triple h hInv (v := sent.snapshot.setp k) ?_ ?_) fun _ => ?_
  · rintro mem rfl
    rfl
  · rintro source ⟨hK, hDecoded⟩
    exact ⟨hK, hDecoded.pos_eq, hDecoded.vel_eq, update_mem hDecoded.setp_eq, hDecoded.setv_eq⟩
  refine assign_triple h hInv (v := sent.snapshot.setv k) ?_ ?_
  · rintro mem rfl
    rfl
  · rintro source ⟨hK, hDecoded⟩
    exact ⟨hK, hDecoded.pos_eq, hDecoded.vel_eq, hDecoded.setp_eq, update_mem hDecoded.setv_eq⟩

private theorem decode_triple (h : WindowView world guard view frame start)
    (hInv : ∀ shared source, frame shared → inv shared source) (K : Prop) :
    Triple world guard inv (Noted view frame index sent fun _ => K)
      (SeqlockStateSource.decode toFloat)
      (fun _ => Noted view frame index sent fun source =>
        K ∧ Decoded toFloat sent (List.finRange cfg.axes) (List.finRange cfg.axes)
          (List.finRange cfg.axes) (List.finRange cfg.axes) source) := by
  have hBody : ∀ (finished : List (Fin cfg.axes × Unit)) (k : Fin cfg.axes)
      (rest : List (Fin cfg.axes)), List.finRange cfg.axes = finished.map Prod.fst ++ k :: rest →
      Triple world guard inv
        (Noted view frame index sent fun source => K ∧ Decoded toFloat sent
          (finished.map Prod.fst) (finished.map Prod.fst) (finished.map Prod.fst)
          (finished.map Prod.fst) source)
        (SeqlockStateSource.decodeAxis toFloat k)
        (fun result => Noted view frame index sent fun source => K ∧ Decoded toFloat sent
          ((finished ++ [(k, result)]).map Prod.fst) ((finished ++ [(k, result)]).map Prod.fst)
          ((finished ++ [(k, result)]).map Prod.fst) ((finished ++ [(k, result)]).map Prod.fst)
          source) := by
    intro finished k rest _
    simpa using decodeAxis_triple h hInv K (finished.map Prod.fst) k
  refine Triple.bind (Triple.consequence (Triple.forEach (L := fun finished =>
    Noted view frame index sent fun source => K ∧ Decoded toFloat sent (finished.map Prod.fst)
      (finished.map Prod.fst) (finished.map Prod.fst) (finished.map Prod.fst) source) hBody)
    ?_ fun _ _ _ hAfter => hAfter) fun results => ?_
  · intro source shared hKnown
    exact hKnown.mono fun hK => ⟨hK, by simp, by simp, by simp, by simp⟩
  · refine Triple.pure fun source shared hAfter => ?_
    obtain ⟨hLength, hKnown⟩ := hAfter
    rwa [List.map_fst_zip (by omega)] at hKnown

/-- What `read` establishes: a returned operating point is the snapshot of the
export that the version numbers in the moment of the last load. -/
def ReadPost (view : Shared → WindowSystem cfg) (frame : Shared → Prop)
    (toFloat : Word → Value) (result : Option (OperatingPoint cfg.axes Value))
    (shared : Shared) : Prop :=
  frame shared ∧ ∀ point, result = some point → ∃ index sent,
    (view shared).version = 2 * (index + 1) ∧ (view shared).bus.frozen[index]? = some sent ∧
      point = sent.operatingPoint toFloat

private theorem version_of_even {system : WindowSystem cfg} (h : WindowInv system)
    (hEven : system.word StateAbi.seqWord &&& 1 = 0) :
    ∃ index, system.version = 2 * (index + 1) ∧
      system.word StateAbi.seqWord = BitVec.ofNat 32 (2 * (index + 1)) := by
  have hParity : ∀ value : Word, (value &&& 1).toNat = value.toNat % 2 := by
    intro value
    rw [BitVec.toNat_and]
    exact Nat.and_one_is_mod _
  cases hMasked : system.masked with
  | true =>
      have hOdd := h.masked hMasked
      have hZero := hParity (system.word StateAbi.seqWord)
      rw [BitVec.getLsbD, Nat.testBit_zero, decide_eq_true_eq] at hOdd
      rw [hEven, hOdd] at hZero
      exact absurd hZero (by decide)
  | false =>
      obtain ⟨hPos, hWord⟩ := h.unmasked hMasked
      have hZero := hParity (system.word StateAbi.seqWord)
      rw [hEven, hWord, BitVec.toNat_ofNat] at hZero
      have hHalf : system.version % 2 = 0 := by
        rw [show (0 : Word).toNat = 0 from rfl] at hZero
        omega
      refine ⟨system.version / 2 - 1, by omega, ?_⟩
      rw [hWord]
      congr 1
      omega

/-- The second look at the sequence word: it still reads as noted, so that the
version has not moved. Only a full turn of the 32-bit counter could hide a move. -/
private theorem version_eq_noted (h : WindowView world guard view frame start) {shared : Shared}
    {source : SeqlockStateSource cfg.axes Value} {choice : Choice}
    (hFrame : frame shared) (hNoted : 2 * (index + 1) ≤ (view shared).version)
    (hStart : start ≤ index + 1)
    (hGuard : guard shared source (.serve (.word StateAbi.seqWord) choice))
    (hSame : (view shared).word StateAbi.seqWord = BitVec.ofNat 32 (2 * (index + 1))) :
    (view shared).version = 2 * (index + 1) := by
  have hInv := h.inv shared hFrame
  have hEven : (view shared).word StateAbi.seqWord &&& 1 = 0 := by
    rw [hSame]
    apply BitVec.eq_of_toNat_eq
    rw [BitVec.toNat_and, BitVec.toNat_ofNat]
    show 2 * (index + 1) % 2 ^ 32 &&& 1 = 0
    rw [Nat.and_one_is_mod]
    omega
  obtain ⟨later, hVersion, hWord⟩ := version_of_even hInv hEven
  have hBudget := h.budget source shared StateAbi.seqWord choice hFrame hGuard
  have hLe := hInv.version_le
  have hTurn := congrArg BitVec.toNat (hWord.symm.trans hSame)
  rw [BitVec.toNat_ofNat, BitVec.toNat_ofNat] at hTurn
  omega

/-- The rest of an attempt after an even sequence word. -/
private theorem body_triple (h : WindowView world guard view frame start)
    (hInv : ∀ shared source, frame shared → inv shared source) (left : Nat)
    (hStart : start ≤ index + 1)
    (hLeft : Triple world guard inv (fun _ shared => frame shared)
      (SeqlockStateSource.attempt toFloat left)
      (fun result _ => ReadPost view frame toFloat result)) :
    Triple world guard inv (Noted view frame index sent fun _ => True)
      (do
        let stamp ← SeqlockStateSource.word StateAbi.stampWord
        SeqlockStateSource.decode toFloat
        let s2 ← SeqlockStateSource.word StateAbi.seqWord
        if s2 = BitVec.ofNat 32 (2 * (index + 1)) then do
          let self ← Code.get
          pure (some ⟨stamp, self.pos, self.vel, self.setp, self.setv⟩)
        else SeqlockStateSource.attempt toFloat left)
      (fun result _ => ReadPost view frame toFloat result) := by
  refine Triple.bind (word_triple h hInv StateAbi.stampWord sent.stamp (fun _ => True) ?_)
    fun stamp => ?_
  · rintro mem rfl
    rfl
  refine Triple.bind (decode_triple h hInv (True ∧ stamp = sent.stamp)) fun _ => ?_
  intro source shared hKnown
  refine Safe.access _ hKnown (AtVersion.stable (h.forward index sent) source _ _)
    (fun s hs => hInv s source hs.frame.1) ?_
  intro s choice hs hGuard
  have hFrame := h.word_frame StateAbi.seqWord choice s hs.frame.1
  simp only [Thread.bind_done]
  rw [h.word]
  by_cases hSame : (view s).word StateAbi.seqWord = BitVec.ofNat 32 (2 * (index + 1))
  · rw [if_pos hSame]
    have hVersion := version_eq_noted h hs.frame.1 hs.noted_le hStart hGuard hSame
    obtain ⟨⟨_, hStamp⟩, hDecoded⟩ := hs.fact hVersion
    refine ⟨hFrame, ?_⟩
    intro point hPoint
    refine ⟨index, sent, ?_, ?_, ?_⟩
    · rw [h.word_view]
      exact hVersion
    · rw [h.word_view]
      exact hs.frame.2
    obtain rfl := Option.some.inj hPoint
    simp only [Export.operatingPoint, OperatingPoint.mk.injEq]
    refine ⟨hStamp, ?_, ?_, ?_, ?_⟩
    · funext k
      exact hDecoded.pos_eq k (List.mem_finRange k)
    · funext k
      exact hDecoded.vel_eq k (List.mem_finRange k)
    · funext k
      exact hDecoded.setp_eq k (List.mem_finRange k)
    · funext k
      exact hDecoded.setv_eq k (List.mem_finRange k)
  · rw [if_neg hSame]
    exact hLeft source _ hFrame

/-- `read` returns nothing, or the snapshot of one export. The proof is by
induction on the attempts that are left. -/
theorem read_triple (h : WindowView world guard view frame start)
    (hInv : ∀ shared source, frame shared → inv shared source) :
    Triple world guard inv (fun _ shared => frame shared) (SeqlockStateSource.read toFloat)
      (fun result _ => ReadPost view frame toFloat result) := by
  suffices hAttempts : ∀ left, Triple world guard inv (fun _ shared => frame shared)
      (SeqlockStateSource.attempt toFloat left)
      (fun result _ => ReadPost view frame toFloat result) from hAttempts _
  intro left
  induction left with
  | zero =>
      refine Triple.pure fun source shared hFrame => ⟨hFrame, ?_⟩
      intro point hPoint
      simp at hPoint
  | succ left ih =>
      intro source shared hFrame
      refine Safe.access frame hFrame (h.stable source) (fun s hs => hInv s source hs) ?_
      intro s choice hs hGuard
      have hKept := h.word_frame StateAbi.seqWord choice s hs
      simp only [Thread.bind_done]
      rw [h.word]
      by_cases hOdd : (view s).word StateAbi.seqWord &&& 1 ≠ 0
      · rw [if_pos hOdd]
        exact ih source _ hKept
      · rw [if_neg hOdd]
        obtain ⟨index, hVersion, hWord⟩ := version_of_even (h.inv s hs) (by simpa using hOdd)
        obtain ⟨_, hCompleted, sent, hSent, _⟩ := (h.inv s hs).snapshot hVersion
        have hStart := h.start_le s hs
        rw [hCompleted] at hStart
        rw [hWord]
        have hView := h.word_view StateAbi.seqWord choice s
        have hNoted : Noted view frame index sent (fun _ => True) source
            (world.serve (.word StateAbi.seqWord) choice s).2 := by
          refine ⟨⟨hKept, ?_⟩, ?_, fun _ => trivial⟩
          · rw [hView]
            exact hSent
          · rw [hView]
            exact le_of_eq hVersion.symm
        exact body_triple h hInv left hStart ih source _ hNoted

end Reader

namespace WindowSystem

variable {cfg : ExportConfig}

/-- Every response is `OKAY`, and no beat is lost. -/
def Okay (_ : WindowSystem cfg) : WindowStep cfg.axes → Prop
  | .clock input => input.bvalid = true → input.bresp = 0
  | .land lost => lost = false

instance (system : WindowSystem cfg) : (step : WindowStep cfg.axes) → Decidable (system.Okay step)
  | .clock _ => inferInstanceAs (Decidable (_ → _))
  | .land _ => inferInstanceAs (Decidable (_ = _))

theorem Okay.harmless {system : WindowSystem cfg} {step : WindowStep cfg.axes}
    (h : system.Okay step) : system.Harmless step := by
  intro hLost
  cases step with
  | clock input => simp at hLost
  | land lost => simp [show lost = false from h] at hLost

end WindowSystem

section Runs

variable {cfg : ExportConfig} {Value : Type} {toFloat : Word → Value}

/-- The window moves fairly and by `rule`, and fewer than `2 ^ 31` exports complete
between the first `start` of them and any load. -/
def ReadGuard (start : Nat) (rule : WindowSystem cfg → WindowStep cfg.axes → Prop) :
    Guard (WindowSystem cfg) (SeqlockStateSource cfg.axes Value) (WindowChoice cfg.axes) Access :=
  fun system _ label => match label with
    | .idle choice => system.Fair choice.step ∧ rule system choice.step
    | .serve _ _ => system.completed < start + 2 ^ 31
    | .finished => True

instance (start : Nat) (rule : WindowSystem cfg → WindowStep cfg.axes → Prop)
    [∀ system step, Decidable (rule system step)] (system : WindowSystem cfg)
    (source : SeqlockStateSource cfg.axes Value) :
    (label : Label (WindowChoice cfg.axes) Access) →
      Decidable (ReadGuard start rule system source label)
  | .idle _ => inferInstanceAs (Decidable (_ ∧ _))
  | .serve _ _ => inferInstanceAs (Decidable (_ < _))
  | .finished => isTrue trivial

/-- What a reader relies on: the bridge has not overwritten a stamp that counts. -/
structure ReadFrame (start : Nat) (system : WindowSystem cfg) : Prop where
  inv : WindowInv system
  clobbered : system.clobbered = true → system.stamped = 0
  start_le : start ≤ system.completed

theorem ReadFrame.step {start : Nat} {system : WindowSystem cfg} {step : WindowStep cfg.axes}
    (h : ReadFrame start system) (hFair : system.Fair step) (hHarmless : system.Harmless step) :
    ReadFrame start (system.step step) := by
  obtain ⟨hInv, hLe⟩ := h.inv.step hFair hHarmless
  refine ⟨hInv, ?_, le_trans h.start_le hLe.completed⟩
  intro hClobbered
  obtain ⟨hBefore, hSame⟩ := WindowSystem.clobbered_step step hClobbered
  rw [hSame, h.clobbered hBefore]

theorem ReadFrame.run {rule : WindowSystem cfg → WindowStep cfg.axes → Prop}
    (hRule : ∀ system step, rule system step → system.Harmless step)
    {steps : List (WindowStep cfg.axes)} {system : WindowSystem cfg} (h : ReadFrame 0 system)
    (hFair : WindowSystem.FairRun rule steps system) :
    ReadFrame 0 (WindowSystem.run steps system) := by
  induction steps generalizing system with
  | nil => exact h
  | cons step rest ih => exact ih (h.step hFair.1.1 (hRule _ _ hFair.1.2)) hFair.2

theorem windowWorld_view (start : Nat) {rule : WindowSystem cfg → WindowStep cfg.axes → Prop}
    (hRule : ∀ system step, rule system step → system.Harmless step) :
    WindowView (windowWorld cfg)
      (ReadGuard start rule :
        Guard _ (SeqlockStateSource cfg.axes Value) (WindowChoice cfg.axes) Access)
      id (ReadFrame start) start where
  word _ _ _ := rfl
  word_view _ _ _ := rfl
  word_frame _ _ _ h := h
  stable _ _ _ h hGuard := h.step hGuard.1 (hRule _ _ hGuard.2)
  grows _ _ _ h hGuard := (h.inv.step hGuard.1 (hRule _ _ hGuard.2)).2
  inv _ h := h.inv
  stamped _ h := h.clobbered
  start_le _ h := h.start_le
  budget _ _ _ _ _ hGuard := hGuard

/-- A call of `read` on a window that has run for a while. -/
def readConfig (toFloat : Word → Value) (latched : Snapshot cfg.axes) (mem : Memory)
    (before : List (WindowStep cfg.axes)) (source : SeqlockStateSource cfg.axes Value) :
    Config (WindowSystem cfg) (SeqlockStateSource cfg.axes Value) Access Access.Answer
      (Option (OperatingPoint cfg.axes Value)) :=
  ⟨WindowSystem.run before (WindowSystem.powerUp latched mem),
    SeqlockStateSource.read toFloat source⟩

private theorem read_run {rule : WindowSystem cfg → WindowStep cfg.axes → Prop}
    (hRule : ∀ system step, rule system step → system.Harmless step)
    {latched : Snapshot cfg.axes} {mem : Memory} {before : List (WindowStep cfg.axes)}
    {source : SeqlockStateSource cfg.axes Value}
    {schedule : List (Move (WindowChoice cfg.axes))} {point : OperatingPoint cfg.axes Value}
    (hMarked : (mem.window cfg.baseAddr StateAbi.seqWord).getLsbD 0 = true)
    (hBefore : WindowSystem.FairRun rule before (WindowSystem.powerUp latched mem))
    (hGuarded : (windowWorld cfg).Guarded
      (ReadGuard (WindowSystem.run before (WindowSystem.powerUp latched mem)).completed rule)
      schedule (readConfig toFloat latched mem before source))
    (hResult : ((windowWorld cfg).run schedule
      (readConfig toFloat latched mem before source)).thread.result? = some (some point)) :
    ∃ sent ∈ ((windowWorld cfg).run schedule
        (readConfig toFloat latched mem before source)).shared.bus.frozen,
      point = sent.operatingPoint toFloat := by
  have hStart : ReadFrame (WindowSystem.run before (WindowSystem.powerUp latched mem)).completed
      (WindowSystem.run before (WindowSystem.powerUp latched mem)) := by
    have hPower : ReadFrame 0 (WindowSystem.powerUp latched mem) :=
      ⟨WindowInv.powerUp latched mem hMarked, fun _ => rfl, le_refl _⟩
    have hRun := hPower.run hRule hBefore
    exact ⟨hRun.inv, hRun.clobbered, le_refl _⟩
  have hRead : Triple (windowWorld cfg)
      (ReadGuard (WindowSystem.run before (WindowSystem.powerUp latched mem)).completed rule)
      (fun system _ =>
        ReadFrame (WindowSystem.run before (WindowSystem.powerUp latched mem)).completed system)
      (fun _ system =>
        ReadFrame (WindowSystem.run before (WindowSystem.powerUp latched mem)).completed system)
      (SeqlockStateSource.read toFloat)
      (fun result _ system =>
        ReadFrame (WindowSystem.run before (WindowSystem.powerUp latched mem)).completed system ∧
          ∀ point, result = some point →
            ∃ sent ∈ system.bus.frozen, point = sent.operatingPoint toFloat) := by
    refine Triple.consequence (read_triple (windowWorld_view _ hRule) fun _ _ h => h)
      (fun _ _ h => h) ?_
    rintro result source system ⟨hFrame, hPoint⟩
    refine ⟨hFrame, fun point hSome => ?_⟩
    obtain ⟨index, sent, _, hSent, hEq⟩ := hPoint point hSome
    exact ⟨sent, List.mem_of_getElem? hSent, hEq⟩
  refine ((Triple.run ?_ hRead ?_ hStart hGuarded).2 _ hResult).2 point rfl
  · rintro result source system choice ⟨hFrame, hPoint⟩ hGuard
    refine ⟨hFrame.step hGuard.1 (hRule _ _ hGuard.2), fun point hSome => ?_⟩
    obtain ⟨sent, hSent, hEq⟩ := hPoint point hSome
    have hLe := (hFrame.inv.step hGuard.1 (hRule _ _ hGuard.2)).2
    exact ⟨sent, hLe.frozen.subset hSent, hEq⟩
  · rintro result source system ⟨hFrame, _⟩
    exact hFrame

/-- With every response `OKAY` and no beat lost, a returned operating point is the
snapshot of one export, stamp and all, whatever the order of loads and beats. -/
theorem read_consistent (cfg : ExportConfig) (toFloat : Word → Value)
    (latched : Snapshot cfg.axes) (mem : Memory) (before : List (WindowStep cfg.axes))
    (source : SeqlockStateSource cfg.axes Value)
    (schedule : List (Move (WindowChoice cfg.axes))) (point : OperatingPoint cfg.axes Value)
    (hMarked : (mem.window cfg.baseAddr StateAbi.seqWord).getLsbD 0 = true)
    (hBefore : WindowSystem.FairRun WindowSystem.Okay before (WindowSystem.powerUp latched mem))
    (hGuarded : (windowWorld cfg).Guarded
      (ReadGuard (WindowSystem.run before (WindowSystem.powerUp latched mem)).completed
        WindowSystem.Okay)
      schedule (readConfig toFloat latched mem before source))
    (hResult : ((windowWorld cfg).run schedule
      (readConfig toFloat latched mem before source)).thread.result? = some (some point)) :
    ∃ sent ∈ ((windowWorld cfg).run schedule
        (readConfig toFloat latched mem before source)).shared.bus.frozen,
      point = sent.operatingPoint toFloat :=
  read_run (fun _ _ h => h.harmless) hMarked hBefore hGuarded hResult

def emptySource : SeqlockStateSource oneAxis.axes Word :=
  ⟨fun _ => 0, fun _ => 0, fun _ => 0, fun _ => 0⟩

/-- One burst of four beats: accepted, then landed or lost beat by beat, then
answered. -/
def burstSteps (losses : List Bool) (bresp : BitVec 2) : List (WindowStep oneAxis.axes) :=
  List.replicate 5 (.clock (readyInput false false)) ++ losses.map .land ++
    [.clock { readyInput false true with bresp := bresp }]

/-- One export of the words from `word` on, with the given fate of its payload. -/
def exportSteps (word : Word) (losses : List Bool) (bresp : BitVec 2) :
    List (WindowStep oneAxis.axes) :=
  .clock { readyInput true false with snapshot := oneAxisSnapshot word } ::
    burstSteps [false, false, false, false] 0 ++ burstSteps losses bresp ++
    burstSteps [false, false, false, false] 0

/-- The seven loads of an undisturbed attempt. -/
def sevenLoads : List (Move (WindowChoice oneAxis.axes)) :=
  List.replicate 7 (.serve ⟨.land false, 0⟩)

theorem read_consistent_one_export :
    ∃ sent ∈ ((windowWorld oneAxis).run sevenLoads
        (readConfig id (oneAxisSnapshot 0) (fun _ => 1)
          (exportSteps 7 [false, false, false, false] 0) emptySource)).shared.bus.frozen,
      (⟨1, fun _ => 7, fun _ => 8, fun _ => 9, fun _ => 10⟩ : OperatingPoint oneAxis.axes Word) =
        sent.operatingPoint id :=
  read_consistent oneAxis id (oneAxisSnapshot 0) (fun _ => 1)
    (exportSteps 7 [false, false, false, false] 0) emptySource sevenLoads
    ⟨1, fun _ => 7, fun _ => 8, fun _ => 9, fun _ => 10⟩ (by decide +kernel) (by decide +kernel)
    (by decide +kernel) (by decide +kernel)

/-- A window of zeros that nobody has marked is read as an export, and there was none. -/
theorem unmarked_window_read :
    (windowWorld oneAxis).Guarded (ReadGuard 0 WindowSystem.Okay) sevenLoads
        (readConfig id (oneAxisSnapshot 0) (fun _ => 0) [] emptySource) ∧
      ((windowWorld oneAxis).run sevenLoads
        (readConfig id (oneAxisSnapshot 0) (fun _ => 0) [] emptySource)).thread.result? =
        some (some ⟨0, fun _ => 0, fun _ => 0, fun _ => 0, fun _ => 0⟩) ∧
      ((windowWorld oneAxis).run sevenLoads
        (readConfig id (oneAxisSnapshot 0) (fun _ => 0) [] emptySource)).shared.bus.frozen = [] := by
  decide +kernel

/-- A loss is harmless if it meets the closing burst or padding: then a returned
operating point is still the snapshot of one export. -/
theorem read_consistent_of_harmless (cfg : ExportConfig) (toFloat : Word → Value)
    (latched : Snapshot cfg.axes) (mem : Memory) (before : List (WindowStep cfg.axes))
    (source : SeqlockStateSource cfg.axes Value)
    (schedule : List (Move (WindowChoice cfg.axes))) (point : OperatingPoint cfg.axes Value)
    (hMarked : (mem.window cfg.baseAddr StateAbi.seqWord).getLsbD 0 = true)
    (hBefore : WindowSystem.FairRun WindowSystem.Harmless before
      (WindowSystem.powerUp latched mem))
    (hGuarded : (windowWorld cfg).Guarded
      (ReadGuard (WindowSystem.run before (WindowSystem.powerUp latched mem)).completed
        WindowSystem.Harmless)
      schedule (readConfig toFloat latched mem before source))
    (hResult : ((windowWorld cfg).run schedule
      (readConfig toFloat latched mem before source)).thread.result? = some (some point)) :
    ∃ sent ∈ ((windowWorld cfg).run schedule
        (readConfig toFloat latched mem before source)).shared.bus.frozen,
      point = sent.operatingPoint toFloat :=
  read_run (fun _ _ h => h) hMarked hBefore hGuarded hResult

theorem read_consistent_of_harmless_padding :
    ∃ sent ∈ ((windowWorld oneAxis).run sevenLoads
        (readConfig id (oneAxisSnapshot 0) (fun _ => 1)
          (exportSteps 7 [false, false, false, true] 2) emptySource)).shared.bus.frozen,
      (⟨1, fun _ => 7, fun _ => 8, fun _ => 9, fun _ => 10⟩ : OperatingPoint oneAxis.axes Word) =
        sent.operatingPoint id :=
  read_consistent_of_harmless oneAxis id (oneAxisSnapshot 0) (fun _ => 1)
    (exportSteps 7 [false, false, false, true] 2) emptySource sevenLoads
    ⟨1, fun _ => 7, fun _ => 8, fun _ => 9, fun _ => 10⟩ (by decide +kernel) (by decide +kernel)
    (by decide +kernel) (by decide +kernel)

/-- The exporter closes an export whose payload burst failed: the reader returns
the new stamp with the position and velocity of the export before. -/
theorem failed_burst_read_as_consistent :
    WindowSystem.FairRun (fun _ _ => True)
        (exportSteps 7 [false, false, false, false] 0 ++
          exportSteps 20 [false, true, false, false] 2)
        (WindowSystem.powerUp (oneAxisSnapshot 0) fun _ => 1) ∧
      (windowWorld oneAxis).Guarded (ReadGuard 2 fun _ _ => True) sevenLoads
        (readConfig id (oneAxisSnapshot 0) (fun _ => 1)
          (exportSteps 7 [false, false, false, false] 0 ++
            exportSteps 20 [false, true, false, false] 2) emptySource) ∧
      ((windowWorld oneAxis).run sevenLoads
        (readConfig id (oneAxisSnapshot 0) (fun _ => 1)
          (exportSteps 7 [false, false, false, false] 0 ++
            exportSteps 20 [false, true, false, false] 2) emptySource)).thread.result? =
        some (some ⟨2, fun _ => 7, fun _ => 8, fun _ => 22, fun _ => 23⟩) ∧
      ∀ sent ∈ ((windowWorld oneAxis).run sevenLoads
        (readConfig id (oneAxisSnapshot 0) (fun _ => 1)
          (exportSteps 7 [false, false, false, false] 0 ++
            exportSteps 20 [false, true, false, false] 2) emptySource)).shared.bus.frozen,
        (⟨2, fun _ => 7, fun _ => 8, fun _ => 22, fun _ => 23⟩ :
          OperatingPoint oneAxis.axes Word) ≠ sent.operatingPoint id := by
  decide +kernel

end Runs

end Lqr
