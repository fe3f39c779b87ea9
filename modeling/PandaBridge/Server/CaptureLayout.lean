import PandaBridge.Chunk.Uniform
import PandaBridge.Server.Capture

/-! The capture list, the converted data and the header describe the same sample. All of
it follows from one description of the capture list, which holds as long as its words fit
into the array they are gathered in. -/
namespace Server

variable {Double : Type}

def CaptureInfo.scaling (info : CaptureInfo Double) : Scaling Double :=
  { scale := info.scale, offset := info.offset }

theorem CaptureInfo.length_indices (info : CaptureInfo Double) {count : Nat} (hCount : count ≤ 5) :
    (info.indices count).length = count := by
  simp [indices, hCount]

theorem CaptureInfo.getElem?_indices (info : CaptureInfo Double) {count : Nat} (k : Fin 5)
    (hk : k.val < count) : (info.indices count)[k.val]? = some (info.captureIndex k) := by
  rw [indices, List.getElem?_take_of_lt hk, List.getElem?_ofFn, dif_pos k.isLt]

namespace CapturedFields

variable (fields : CapturedFields Double)

/-- Some field needs the sample count. -/
def averages : Prop := 0 < fields.averaged.length ∨ 0 < fields.stdDev.length

instance : Decidable fields.averages := inferInstanceAs (Decidable (_ ∨ _))

/-- The place of the sample count among the captured fields. -/
def samplePlace : Option Nat :=
  fields.scaled32.findIdx? fun field =>
    field.captureIndex 0 == fields.sampleCount.captureIndex 0

/-- The sample count is needed and not captured by itself. -/
def anonymous : Bool := fields.averages ∧ fields.samplePlace = none

/-- The words in front of the groups. -/
def hidden : List Nat := if fields.anonymous then fields.sampleCount.indices 1 else []

/-- The capture list: the hidden word, then the groups. -/
def captureList : List Nat :=
  fields.hidden ++ fields.unscaled.flatMap (·.indices 1) ++ fields.scaled32.flatMap (·.indices 1) ++
    fields.scaled64.flatMap (·.indices 2) ++ fields.averaged.flatMap (·.indices 2) ++
    fields.stdDev.flatMap (·.indices 5)

/-- The number of words of a raw sample. -/
def words : Nat :=
  fields.anonymous.toNat + fields.unscaled.length + fields.scaled32.length +
    2 * fields.scaled64.length + 2 * fields.averaged.length + 5 * fields.stdDev.length

theorem length_hidden : fields.hidden.length = fields.anonymous.toNat := by
  unfold hidden
  cases fields.anonymous <;> simp [CaptureInfo.length_indices]

theorem length_group (group : List (CaptureInfo Double)) {count : Nat} (hCount : count ≤ 5) :
    (group.flatMap (·.indices count)).length = count * group.length :=
  Chunk.length_flatMap (fun info => info.length_indices hCount) group

theorem length_captureList : fields.captureList.length = fields.words := by
  simp only [captureList, List.length_append, length_hidden, words,
    length_group _ (show 1 ≤ 5 by decide), length_group _ (show 2 ≤ 5 by decide),
    length_group _ (show 5 ≤ 5 by decide), Nat.one_mul]

end CapturedFields

/-! ### Gathering -/

section Gathering

variable {gather : Gather Double} {indexCount : Nat} {scaled : Bool}

/-- The scaling entries never outnumber the captured words. -/
def Gather.Bounded (gather : Gather Double) : Prop :=
  gather.scaling.length ≤ gather.captureArray.length

/-- What a group adds. -/
def Gather.add (gather : Gather Double) (group : List (CaptureInfo Double)) (indexCount : Nat)
    (scaled : Bool) : Gather Double where
  captureArray := gather.captureArray ++ group.flatMap (·.indices indexCount)
  scaling := gather.scaling ++ if scaled then group.map CaptureInfo.scaling else []

theorem emitCapture_eq (field : CaptureInfo Double) (hBounded : gather.Bounded)
    (hPos : 0 < indexCount)
    (hFit : gather.captureArray.length + indexCount ≤ maxCaptureCount) :
    emitCapture gather field indexCount scaled = some (gather.add [field] indexCount scaled) := by
  unfold Gather.Bounded at hBounded
  rw [emitCapture, if_neg (by omega), if_neg (by omega)]
  cases scaled <;> simp [Gather.add, CaptureInfo.scaling]

theorem emitCapture_some {field : CaptureInfo Double} {last : Gather Double}
    (h : emitCapture gather field indexCount scaled = some last) :
    gather.captureArray.length + indexCount ≤ maxCaptureCount ∧
      last.captureArray = gather.captureArray ++ field.indices indexCount := by
  unfold emitCapture at h
  split_ifs at h with hOver hScaling hScaled <;>
    (obtain rfl := (Option.some.inj h).symm
     exact ⟨by omega, rfl⟩)

theorem Gather.add_cons (gather : Gather Double) (field : CaptureInfo Double)
    (rest : List (CaptureInfo Double)) (indexCount : Nat) (scaled : Bool) :
    (gather.add [field] indexCount scaled).add rest indexCount scaled =
      gather.add (field :: rest) indexCount scaled := by
  cases scaled <;> simp [Gather.add]

theorem Gather.Bounded.add (hBounded : gather.Bounded) (hPos : 0 < indexCount)
    (hCount : indexCount ≤ 5) (group : List (CaptureInfo Double)) (scaled : Bool) :
    (gather.add group indexCount scaled).Bounded := by
  unfold Gather.Bounded Gather.add at *
  have hGroup : group.length ≤ indexCount * group.length := Nat.le_mul_of_pos_left _ hPos
  rw [List.length_append, List.length_append, CapturedFields.length_group group hCount]
  cases scaled
  · simp only [Bool.false_eq_true, if_false, List.length_nil]
    omega
  · simp only [if_true, List.length_map]
    omega

theorem Gather.length_add (gather : Gather Double) (group : List (CaptureInfo Double))
    (hCount : indexCount ≤ 5) (scaled : Bool) :
    (gather.add group indexCount scaled).captureArray.length =
      gather.captureArray.length + indexCount * group.length := by
  rw [Gather.add, List.length_append, CapturedFields.length_group group hCount]

theorem emitGroup_eq (group : List (CaptureInfo Double)) (hBounded : gather.Bounded)
    (hPos : 0 < indexCount) (hCount : indexCount ≤ 5)
    (hFit : gather.captureArray.length + indexCount * group.length ≤ maxCaptureCount) :
    emitGroup indexCount scaled group gather = some (gather.add group indexCount scaled) := by
  induction group generalizing gather with
  | nil => simp [emitGroup, Gather.add]
  | cons field rest ih =>
      rw [List.length_cons, Nat.mul_succ] at hFit
      rw [emitGroup, emitCapture_eq field hBounded hPos (by omega), Option.bind_some, ih,
        Gather.add_cons]
      · exact hBounded.add hPos hCount [field] scaled
      · rw [Gather.length_add _ _ hCount, List.length_singleton]
        omega

theorem emitGroup_fits (group : List (CaptureInfo Double)) (hCount : indexCount ≤ 5)
    (hSoFar : gather.captureArray.length ≤ maxCaptureCount) {last : Gather Double}
    (h : emitGroup indexCount scaled group gather = some last) :
    last.captureArray.length = gather.captureArray.length + indexCount * group.length ∧
      last.captureArray.length ≤ maxCaptureCount := by
  induction group generalizing gather with
  | nil =>
      obtain rfl : gather = last := by simpa [emitGroup] using h
      exact ⟨by simp, hSoFar⟩
  | cons field rest ih =>
      rw [emitGroup, Option.bind_eq_some_iff] at h
      obtain ⟨next, hNext, hRest⟩ := h
      obtain ⟨hFit, hArray⟩ := emitCapture_some hNext
      have hLength : next.captureArray.length = gather.captureArray.length + indexCount := by
        rw [hArray, List.length_append, field.length_indices hCount]
      obtain ⟨hLast, hBound⟩ := ih (by omega) hRest
      refine ⟨?_, hBound⟩
      rw [hLast, hLength, List.length_cons, Nat.mul_succ]
      omega

theorem prepareOutputGroup_eq (group : List (CaptureInfo Double)) (hBounded : gather.Bounded)
    (hPos : 0 < indexCount) (hCount : indexCount ≤ 5)
    (hFit : gather.captureArray.length + indexCount * group.length ≤ maxCaptureCount) :
    prepareOutputGroup gather group indexCount scaled =
      some (gather.add group indexCount scaled,
        { index := gather.captureArray.length
          count := group.length
          scaling := gather.scaling.length }) := by
  rw [prepareOutputGroup, emitGroup_eq group hBounded hPos hCount hFit, Option.map_some]

theorem prepareOutputGroup_fits (group : List (CaptureInfo Double)) (hCount : indexCount ≤ 5)
    (hSoFar : gather.captureArray.length ≤ maxCaptureCount) {last : Gather Double × FieldGroup}
    (h : prepareOutputGroup gather group indexCount scaled = some last) :
    last.1.captureArray.length = gather.captureArray.length + indexCount * group.length ∧
      last.1.captureArray.length ≤ maxCaptureCount := by
  rw [prepareOutputGroup, Option.map_eq_some_iff] at h
  obtain ⟨emitted, hEmitted, rfl⟩ := h
  exact emitGroup_fits group hCount hSoFar hEmitted

end Gathering

/-! ### The gathered capture -/

section Layout

variable (fields : CapturedFields Double)

namespace CapturedFields

/-- What is gathered before each of the groups, and in the end. -/
def beforeUnscaled : Gather Double := { captureArray := fields.hidden, scaling := [] }

def beforeScaled32 : Gather Double := fields.beforeUnscaled.add fields.unscaled 1 false

def beforeScaled64 : Gather Double := fields.beforeScaled32.add fields.scaled32 1 true

def beforeAveraged : Gather Double := fields.beforeScaled64.add fields.scaled64 2 true

def beforeStdDev : Gather Double := fields.beforeAveraged.add fields.averaged 2 true

def gathered : Gather Double := fields.beforeStdDev.add fields.stdDev 5 true

end CapturedFields

/-- The description of a group that starts where `before` ends. -/
def groupAfter (before : Gather Double) (group : List (CaptureInfo Double)) : FieldGroup where
  index := before.captureArray.length
  count := group.length
  scaling := before.scaling.length

/-- The capture description for these fields. -/
def CapturedFields.dataCapture (staleIndex : Nat) : DataCapture Double where
  rawSampleWords := fields.gathered.captureArray.length
  sampleCountIndex :=
    if fields.averages then (fields.samplePlace.map (fields.unscaled.length + ·)).getD 0
    else staleIndex
  sampleCountAnonymous := fields.anonymous
  unscaled := groupAfter fields.beforeUnscaled fields.unscaled
  scaled32 := groupAfter fields.beforeScaled32 fields.scaled32
  scaled64 := groupAfter fields.beforeScaled64 fields.scaled64
  averaged := groupAfter fields.beforeAveraged fields.averaged
  stdDev := groupAfter fields.beforeStdDev fields.stdDev
  stdDevMean := fields.stdDev.map CaptureInfo.captureMean
  stdDevMeanCount := fields.stdDev.countP CaptureInfo.captureMean
  scaling := fields.gathered.scaling

theorem gatherSampleCount_eq (staleIndex : Nat) :
    gatherSampleCount staleIndex fields =
      some (fields.beforeUnscaled, (fields.dataCapture staleIndex).sampleCountIndex,
        fields.anonymous) := by
  unfold gatherSampleCount CapturedFields.beforeUnscaled CapturedFields.dataCapture CapturedFields.hidden
    CapturedFields.anonymous
  by_cases hAverages : fields.averages
  · have hNeeded : 0 < fields.averaged.length ∨ 0 < fields.stdDev.length := hAverages
    rw [if_pos hNeeded, ensureSampleCount]
    rw [show (fields.scaled32.findIdx? fun field =>
      field.captureIndex 0 == fields.sampleCount.captureIndex 0) = fields.samplePlace from rfl]
    simp only [hAverages, if_true, true_and]
    cases fields.samplePlace with
    | some i => rfl
    | none =>
        have hEmit : emitCapture { captureArray := [], scaling := [] } fields.sampleCount 1 false =
            some _ :=
          emitCapture_eq fields.sampleCount (Nat.le_refl 0) Nat.one_pos (Nat.le_of_ble_eq_true rfl)
        rw [hEmit]
        simp [Gather.add]
  · have hUnneeded : ¬(0 < fields.averaged.length ∨ 0 < fields.stdDev.length) := hAverages
    rw [if_neg hUnneeded]
    simp [hAverages]

/-- The lengths and bounds along the groups. -/
structure Gathered : Prop where
  unscaled : fields.beforeUnscaled.Bounded
  scaled32 : fields.beforeScaled32.Bounded
  scaled64 : fields.beforeScaled64.Bounded
  averaged : fields.beforeAveraged.Bounded
  stdDev : fields.beforeStdDev.Bounded

theorem CapturedFields.bounded : Gathered fields := by
  have hUnscaled : fields.beforeUnscaled.Bounded := Nat.zero_le _
  have hScaled32 : fields.beforeScaled32.Bounded :=
    hUnscaled.add Nat.one_pos (by decide) fields.unscaled false
  have hScaled64 : fields.beforeScaled64.Bounded :=
    hScaled32.add Nat.one_pos (by decide) fields.scaled32 true
  have hAveraged : fields.beforeAveraged.Bounded :=
    hScaled64.add Nat.two_pos (by decide) fields.scaled64 true
  exact ⟨hUnscaled, hScaled32, hScaled64, hAveraged,
    hAveraged.add Nat.two_pos (by decide) fields.averaged true⟩

theorem gatherDataCapture_eq (staleIndex : Nat) (hFit : fields.words ≤ maxCaptureCount) :
    gatherDataCapture staleIndex fields =
      some (fields.dataCapture staleIndex, fields.captureList) := by
  obtain ⟨hUnscaled, hScaled32, hScaled64, hAveraged, hStdDev⟩ := fields.bounded
  have hHidden : fields.beforeUnscaled.captureArray.length = fields.anonymous.toNat :=
    fields.length_hidden
  have hLength32 : fields.beforeScaled32.captureArray.length = _ :=
    Gather.length_add _ fields.unscaled (show 1 ≤ 5 by decide) false
  have hLength64 : fields.beforeScaled64.captureArray.length = _ :=
    Gather.length_add _ fields.scaled32 (show 1 ≤ 5 by decide) true
  have hLengthAveraged : fields.beforeAveraged.captureArray.length = _ :=
    Gather.length_add _ fields.scaled64 (show 2 ≤ 5 by decide) true
  have hLengthStdDev : fields.beforeStdDev.captureArray.length = _ :=
    Gather.length_add _ fields.averaged (show 2 ≤ 5 by decide) true
  unfold CapturedFields.words at hFit
  have hStepUnscaled : prepareOutputGroup fields.beforeUnscaled fields.unscaled 1 false =
      some (fields.beforeScaled32, groupAfter fields.beforeUnscaled fields.unscaled) :=
    prepareOutputGroup_eq fields.unscaled hUnscaled Nat.one_pos (by decide) (by omega)
  have hStep32 : prepareOutputGroup fields.beforeScaled32 fields.scaled32 1 true =
      some (fields.beforeScaled64, groupAfter fields.beforeScaled32 fields.scaled32) :=
    prepareOutputGroup_eq fields.scaled32 hScaled32 Nat.one_pos (by decide) (by omega)
  have hStep64 : prepareOutputGroup fields.beforeScaled64 fields.scaled64 2 true =
      some (fields.beforeAveraged, groupAfter fields.beforeScaled64 fields.scaled64) :=
    prepareOutputGroup_eq fields.scaled64 hScaled64 Nat.two_pos (by decide) (by omega)
  have hStepAveraged : prepareOutputGroup fields.beforeAveraged fields.averaged 2 true =
      some (fields.beforeStdDev, groupAfter fields.beforeAveraged fields.averaged) :=
    prepareOutputGroup_eq fields.averaged hAveraged Nat.two_pos (by decide) (by omega)
  have hStepStdDev : prepareOutputGroup fields.beforeStdDev fields.stdDev 5 true =
      some (fields.gathered, groupAfter fields.beforeStdDev fields.stdDev) :=
    prepareOutputGroup_eq fields.stdDev hStdDev (by decide) (by decide) (by omega)
  simp only [gatherDataCapture, gatherSampleCount_eq, hStepUnscaled, hStep32, hStep64,
    hStepAveraged, hStepStdDev, Option.bind_eq_bind, Option.bind_some]
  rfl

theorem gatherDataCapture_fits {staleIndex : Nat} {result : DataCapture Double × List Nat}
    (h : gatherDataCapture staleIndex fields = some result) : fields.words ≤ maxCaptureCount := by
  have hHidden : fields.beforeUnscaled.captureArray.length = fields.anonymous.toNat :=
    fields.length_hidden
  have hOne : fields.anonymous.toNat ≤ maxCaptureCount :=
    (Bool.toNat_le _).trans (Nat.le_of_ble_eq_true rfl)
  unfold gatherDataCapture at h
  simp only [gatherSampleCount_eq, Option.bind_eq_bind, Option.bind_some,
    Option.bind_eq_some_iff] at h
  obtain ⟨unscaled, hUnscaled, scaled32, hScaled32, scaled64, hScaled64, averaged, hAveraged,
    stdDev, hStdDev, _⟩ := h
  obtain ⟨hLength, hFit⟩ := prepareOutputGroup_fits _ (by decide) (by omega) hUnscaled
  obtain ⟨hLength32, hFit32⟩ := prepareOutputGroup_fits _ (by decide) hFit hScaled32
  obtain ⟨hLength64, hFit64⟩ := prepareOutputGroup_fits _ (by decide) hFit32 hScaled64
  obtain ⟨hLengthAveraged, hFitAveraged⟩ := prepareOutputGroup_fits _ (by decide) hFit64 hAveraged
  obtain ⟨hLengthStdDev, hFitStdDev⟩ := prepareOutputGroup_fits _ (by decide) hFitAveraged hStdDev
  unfold CapturedFields.words
  omega

end Layout

end Server
