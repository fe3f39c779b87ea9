import PandaBridge.Server.CaptureLayout

/-! The agreement of the capture list, the converted sample and the header. The hardware
is a function from capture indices to words: a raw sample is its values along the capture
array, and what a header line stands for is said in terms of the same function. -/
namespace Server

variable {Double : Type}

/-- The fields of a group stand in the capture array, and in the scaling array, where the
description of the group says. -/
structure Placed (array : List Nat) (scaling : List (Scaling Double)) (description : FieldGroup)
    (group : List (CaptureInfo Double)) (size : Nat) (scaled : Bool) : Prop where
  count : description.count = group.length
  indices : ∀ i info, group[i]? = some info → ∀ k : Fin 5, k.val < size →
    array[description.index + (size * i + k.val)]? = some (info.captureIndex k)
  scaling : scaled → ∀ i info, group[i]? = some info →
    scaling[description.scaling + i]? = some info.scaling

/-- The words of a raw sample that a reported field stands for. -/
def rawWords (sample : Nat → CaptureWord) (info : CaptureInfo Double) : List CaptureWord :=
  match info.captureMode with
  | .unscaled => [sample (info.captureIndex 0)]
  | .scaled32 => [sample (info.captureIndex 0)]
  | .scaled64 => [sample (info.captureIndex 0), sample (info.captureIndex 1)]
  | .average => [sample (info.captureIndex 0), sample (info.captureIndex 1)]
  | .stdDev =>
      [sample (info.captureIndex 2), sample (info.captureIndex 3), sample (info.captureIndex 4)]

/-- The 64-bit sum behind a field. -/
def sumOf (sample : Nat → CaptureWord) (info : CaptureInfo Double) : BitVec 64 :=
  sample (info.captureIndex 1) ++ sample (info.captureIndex 0)

/-- The 96-bit sum of squares behind a standard deviation field. -/
def sumSquaresOf (sample : Nat → CaptureWord) (info : CaptureInfo Double) : BitVec 96 :=
  (sample (info.captureIndex 4) ++ sample (info.captureIndex 3) : BitVec 64) ++
    sample (info.captureIndex 2)

/-- The value in a converted sample that a reported field stands for. -/
def scaledItem (arith : Arithmetic Double) (samples : CaptureWord) (sample : Nat → CaptureWord)
    (info : CaptureInfo Double) : OutputItem Double :=
  match info.captureMode with
  | .unscaled => .uint32 (sample (info.captureIndex 0))
  | .scaled32 => .double (arith.scaled info.scaling (sample (info.captureIndex 0)).toInt)
  | .scaled64 => .double (arith.scaled info.scaling (sumOf sample info).toInt)
  | .average => .double (computeMean arith samples info.scaling (sumOf sample info))
  | .stdDev =>
      .double (arith.mul info.scale
        (arith.computeStandardDeviation samples (sumOf sample info) (sumSquaresOf sample info)))

/-- The number of words of a value of this type. -/
def FieldType.words : FieldType → Nat
  | .int32 => 1
  | .uint32 => 1
  | .int64 => 2
  | .double => 2
  | .int96 => 3

def OutputItem.type : OutputItem Double → FieldType
  | .uint32 _ => .uint32
  | .double _ => .double

theorem rawWords_length (sample : Nat → CaptureWord) (info : CaptureInfo Double) :
    (rawWords sample info).length = (fieldTypeName .raw info.captureMode).words := by
  unfold rawWords
  cases info.captureMode <;> rfl

theorem scaledItem_type (arith : Arithmetic Double) (samples : CaptureWord) (sample : Nat → CaptureWord)
    (info : CaptureInfo Double) :
    (scaledItem arith samples sample info).type = fieldTypeName .scaled info.captureMode := by
  unfold scaledItem
  cases info.captureMode <;> rfl

/-- The capture list, the conversions and the header agree. -/
structure HeaderAgrees (arith : Arithmetic Double) (fields : CapturedFields Double)
    (capture : DataCapture Double) (array : List Nat) : Prop where
  rawSampleWords : capture.rawSampleWords = array.length
  unscaled : Placed array capture.scaling capture.unscaled fields.unscaled 1 false
  scaled32 : Placed array capture.scaling capture.scaled32 fields.scaled32 1 true
  scaled64 : Placed array capture.scaling capture.scaled64 fields.scaled64 2 true
  averaged : Placed array capture.scaling capture.averaged fields.averaged 2 true
  stdDev : Placed array capture.scaling capture.stdDev fields.stdDev 5 true
  sampleCount : 0 < fields.averaged.length ∨ 0 < fields.stdDev.length →
    array[capture.sampleCountIndex]? = some (fields.sampleCount.captureIndex 0)
  lengths : ∀ process, (getBinarySampleLength capture process).isSome ↔ 0 < array.length
  rawLength : ∀ length ∈ getBinarySampleLength capture .raw, length = 4 * array.length
  scaledLength : ∀ length ∈ getBinarySampleLength capture .scaled, ∀ sampleCount input,
    ((convertScaledData arith capture sampleCount input).map OutputItem.bytes).sum =
      sampleCount * length
  rawData : ∀ sample : Nat → CaptureWord,
    array.map sample = (reportedFields .raw fields capture).flatMap (rawWords sample)
  rawHeader : ∀ sample : Nat → CaptureWord, List.Forall₂
    (fun line info => line = sendFieldInfo .raw info ∧
      line.type.words = (rawWords sample info).length)
    (sendDataHeader .raw fields capture) (reportedFields .raw fields capture)
  scaledData : ∀ samples : List (Nat → CaptureWord),
    convertScaledData arith capture samples.length (samples.flatMap fun sample => array.map sample) =
      samples.flatMap fun sample =>
        (reportedFields .scaled fields capture).map
          (scaledItem arith (sample (fields.sampleCount.captureIndex 0)) sample)
  scaledHeader : ∀ (samples : CaptureWord) (sample : Nat → CaptureWord), List.Forall₂
    (fun line info => line = sendFieldInfo .scaled info ∧
      line.type = (scaledItem arith samples sample info).type)
    (sendDataHeader .scaled fields capture) (reportedFields .scaled fields capture)

/-! ### Where the groups are -/

/-- What is gathered stays where it is. -/
structure Gather.Extends (before last : Gather Double) : Prop where
  captureArray : before.captureArray <+: last.captureArray
  scaling : before.scaling <+: last.scaling

theorem Gather.Extends.add (before : Gather Double) (group : List (CaptureInfo Double))
    (size : Nat) (scaled : Bool) : before.Extends (before.add group size scaled) :=
  ⟨List.prefix_append _ _, List.prefix_append _ _⟩

theorem Gather.Extends.trans {first second third : Gather Double} (h : first.Extends second)
    (h' : second.Extends third) : first.Extends third :=
  ⟨h.captureArray.trans h'.captureArray, h.scaling.trans h'.scaling⟩

theorem Placed.of_gather (last before : Gather Double) {group : List (CaptureInfo Double)}
    {size : Nat} {scaled : Bool} (hSize : size ≤ 5)
    (hExtends : (before.add group size scaled).Extends last) :
    Placed last.captureArray last.scaling (groupAfter before group) group size scaled := by
  obtain ⟨⟨after, hArray⟩, ⟨afterScaling, hScaling⟩⟩ := hExtends
  refine ⟨rfl, ?_, ?_⟩
  · intro i info hInfo k hk
    rw [← hArray, Gather.add, groupAfter,
      Chunk.getElem?_append_flatMap (fun info => info.length_indices hSize) _ _ hInfo hk]
    exact info.getElem?_indices k hk
  · intro hScaled i info hInfo
    have hIndex : i < group.length := (List.getElem?_eq_some_iff.mp hInfo).1
    rw [← hScaling, Gather.add, groupAfter, if_pos hScaled, List.append_assoc,
      List.getElem?_append_right (Nat.le_add_right _ _), Nat.add_sub_cancel_left,
      List.getElem?_append_left (by rw [List.length_map]; exact hIndex), List.getElem?_map, hInfo]
    rfl

section Groups

variable (fields : CapturedFields Double)

theorem stdDev_placed : Placed fields.captureList fields.gathered.scaling
    (groupAfter fields.beforeStdDev fields.stdDev) fields.stdDev 5 true :=
  .of_gather fields.gathered fields.beforeStdDev (by decide) ⟨List.prefix_rfl, List.prefix_rfl⟩

theorem beforeStdDev_extends : fields.beforeStdDev.Extends fields.gathered := .add _ _ _ _

theorem averaged_placed : Placed fields.captureList fields.gathered.scaling
    (groupAfter fields.beforeAveraged fields.averaged) fields.averaged 2 true :=
  .of_gather fields.gathered fields.beforeAveraged (by decide) (beforeStdDev_extends fields)

theorem beforeAveraged_extends : fields.beforeAveraged.Extends fields.gathered :=
  (Gather.Extends.add _ _ _ _).trans (beforeStdDev_extends fields)

theorem scaled64_placed : Placed fields.captureList fields.gathered.scaling
    (groupAfter fields.beforeScaled64 fields.scaled64) fields.scaled64 2 true :=
  .of_gather fields.gathered fields.beforeScaled64 (by decide) (beforeAveraged_extends fields)

theorem beforeScaled64_extends : fields.beforeScaled64.Extends fields.gathered :=
  (Gather.Extends.add _ _ _ _).trans (beforeAveraged_extends fields)

theorem scaled32_placed : Placed fields.captureList fields.gathered.scaling
    (groupAfter fields.beforeScaled32 fields.scaled32) fields.scaled32 1 true :=
  .of_gather fields.gathered fields.beforeScaled32 (by decide) (beforeScaled64_extends fields)

theorem unscaled_placed : Placed fields.captureList fields.gathered.scaling
    (groupAfter fields.beforeUnscaled fields.unscaled) fields.unscaled 1 false :=
  .of_gather fields.gathered fields.beforeUnscaled (by decide)
    ((Gather.Extends.add _ _ _ _).trans (beforeScaled64_extends fields))

theorem sampleCount_placed (staleIndex : Nat) (hAverages : fields.averages) :
    fields.captureList[(fields.dataCapture staleIndex).sampleCountIndex]? =
      some (fields.sampleCount.captureIndex 0) := by
  have hIndex : (fields.dataCapture staleIndex).sampleCountIndex =
      (fields.samplePlace.map (fields.unscaled.length + ·)).getD 0 := if_pos hAverages
  rw [hIndex]
  cases hPlace : fields.samplePlace with
  | some i =>
      have hHidden : fields.hidden = [] := by
        simp [CapturedFields.hidden, CapturedFields.anonymous, hPlace]
      obtain ⟨hInside, hMatch, _⟩ := List.findIdx?_eq_some_iff_getElem.mp hPlace
      have hField := (scaled32_placed fields).indices i _ (List.getElem?_eq_getElem hInside) 0
        (by decide)
      have hStart : (groupAfter fields.beforeScaled32 fields.scaled32).index =
          fields.unscaled.length := by
        have hLength := Gather.length_add fields.beforeUnscaled fields.unscaled
          (show 1 ≤ 5 by decide) false
        rw [Nat.one_mul] at hLength
        exact hLength.trans (by simp [CapturedFields.beforeUnscaled, hHidden])
      rw [hStart] at hField
      simp only [Nat.one_mul, Fin.val_zero, Nat.add_zero] at hField
      rw [Option.map_some, Option.getD_some, hField, beq_iff_eq.mp hMatch]
  | none =>
      have hHidden : fields.hidden = [fields.sampleCount.captureIndex 0] := by
        simp [CapturedFields.hidden, CapturedFields.anonymous, hPlace, hAverages,
          CaptureInfo.indices]
      simp [CapturedFields.captureList, hHidden]

end Groups

/-! ### The converted sample -/

section Converted

variable (arith : Arithmetic Double) (sample : Nat → CaptureWord) (rest : List CaptureWord)

/-- The input of a conversion: one raw sample and whatever follows it. -/
def inputOf (array : List Nat) : List CaptureWord := array.map sample ++ rest

theorem wordAt_inputOf {array : List Nat} {i index : Nat} (h : array[i]? = some index) :
    wordAt (inputOf sample rest array) i = sample index := by
  have hInside : i < array.length := (List.getElem?_eq_some_iff.mp h).1
  have hMap : (array.map sample)[i]? = some (sample index) := by
    rw [List.getElem?_map, h, Option.map_some]
  rw [wordAt, inputOf, List.getD_eq_getElem?_getD,
    List.getElem?_append_left (by rw [List.length_map]; exact hInside), hMap, Option.getD_some]

section Group

variable {array : List Nat} {scaling : List (Scaling Double)} {description : FieldGroup}
variable {group : List (CaptureInfo Double)} {size : Nat} {scaled : Bool}
variable (hPlaced : Placed array scaling description group size scaled)
variable {i : Nat} {info : CaptureInfo Double} (hInfo : group[i]? = some info)

include hPlaced hInfo

theorem Placed.word (k : Fin 5) (hk : k.val < size) :
    wordAt (inputOf sample rest array) (description.index + size * i + k.val) =
      sample (info.captureIndex k) := by
  rw [Nat.add_assoc]
  exact wordAt_inputOf sample rest (hPlaced.indices i info hInfo k hk)

theorem Placed.int64 (hSize : 2 ≤ size) :
    int64At (inputOf sample rest array) (description.index + size * i) = sumOf sample info := by
  have hLow := hPlaced.word sample rest hInfo 0 (by rw [Fin.val_zero]; omega)
  have hHigh := hPlaced.word sample rest hInfo 1 (by rw [Fin.val_one]; omega)
  rw [Fin.val_zero, Nat.add_zero] at hLow
  rw [Fin.val_one] at hHigh
  rw [int64At, hLow, hHigh, sumOf]

theorem Placed.uint96 (hSize : 5 ≤ size) :
    uint96At (inputOf sample rest array) (description.index + size * i + 2) =
      sumSquaresOf sample info := by
  have hLow := hPlaced.word sample rest hInfo 2 (by omega)
  have hMid := hPlaced.word sample rest hInfo 3 (by omega)
  have hHigh := hPlaced.word sample rest hInfo 4 (by omega)
  rw [uint96At, sumSquaresOf, ← hLow, ← hMid, ← hHigh]
  rfl

theorem Placed.groupScaling (capture : DataCapture Double) (hScaling : capture.scaling = scaling)
    (hScaled : scaled) : groupScaling arith capture description i = info.scaling := by
  rw [Server.groupScaling, hScaling, List.getD_eq_getElem?_getD,
    hPlaced.scaling hScaled i info hInfo, Option.getD_some]

end Group

variable (fields : CapturedFields Double) (staleIndex : Nat)

theorem copyUnscaledFields_eq (samples : CaptureWord) :
    copyUnscaledFields (fields.dataCapture staleIndex).unscaled
        (inputOf sample rest fields.captureList) =
      fields.unscaled.map (scaledItem arith samples sample) := by
  refine Chunk.range_map fun i info hInfo => ?_
  have hWord := (unscaled_placed fields).word sample rest hInfo 0 (by decide)
  rw [Nat.one_mul, Fin.val_zero, Nat.add_zero] at hWord
  simp only [scaledItem, fields.unscaled_mode info (List.mem_of_getElem? hInfo)]
  rw [← hWord]
  rfl

theorem convertScaled32_eq (samples : CaptureWord) :
    convertScaled32 arith (fields.dataCapture staleIndex)
        (inputOf sample rest fields.captureList) =
      fields.scaled32.map (scaledItem arith samples sample) := by
  refine Chunk.range_map fun i info hInfo => ?_
  have hPlaced := scaled32_placed fields
  have hWord := hPlaced.word sample rest hInfo 0 (by decide)
  rw [Nat.one_mul, Fin.val_zero, Nat.add_zero] at hWord
  simp only [scaledItem, fields.scaled32_mode info (List.mem_of_getElem? hInfo)]
  rw [← hWord,
    ← hPlaced.groupScaling arith hInfo (fields.dataCapture staleIndex) rfl rfl]
  rfl

theorem convertScaled64_eq (samples : CaptureWord) :
    convertScaled64 arith (fields.dataCapture staleIndex)
        (inputOf sample rest fields.captureList) =
      fields.scaled64.map (scaledItem arith samples sample) := by
  refine Chunk.range_map fun i info hInfo => ?_
  have hPlaced := scaled64_placed fields
  simp only [scaledItem, fields.scaled64_mode info (List.mem_of_getElem? hInfo)]
  rw [← hPlaced.int64 sample rest hInfo (Nat.le_refl 2),
    ← hPlaced.groupScaling arith hInfo (fields.dataCapture staleIndex) rfl rfl]
  rfl

theorem sampleCount_word (hAverages : fields.averages) :
    wordAt (inputOf sample rest fields.captureList)
        (fields.dataCapture staleIndex).sampleCountIndex =
      sample (fields.sampleCount.captureIndex 0) :=
  wordAt_inputOf sample rest (sampleCount_placed fields staleIndex hAverages)

theorem averageScaledData_eq :
    averageScaledData arith (fields.dataCapture staleIndex)
        (inputOf sample rest fields.captureList) =
      fields.averaged.map
        (scaledItem arith (sample (fields.sampleCount.captureIndex 0)) sample) := by
  refine Chunk.range_map fun i info hInfo => ?_
  have hPlaced := averaged_placed fields
  have hAverages : fields.averages := .inl (List.length_pos_of_mem (List.mem_of_getElem? hInfo))
  simp only [scaledItem, fields.averaged_mode info (List.mem_of_getElem? hInfo)]
  rw [← sampleCount_word sample rest fields staleIndex hAverages,
    ← hPlaced.int64 sample rest hInfo (Nat.le_refl 2),
    ← hPlaced.groupScaling arith hInfo (fields.dataCapture staleIndex) rfl rfl]
  rfl

theorem stdDevMean_getD {i : Nat} {info : CaptureInfo Double}
    (hInfo : fields.stdDev[i]? = some info) :
    (fields.dataCapture staleIndex).stdDevMean.getD i false = info.captureMean := by
  rw [List.getD_eq_getElem?_getD, CapturedFields.dataCapture, List.getElem?_map, hInfo,
    Option.map_some, Option.getD_some]

theorem convertStandardDeviation_eq :
    convertStandardDeviation arith (fields.dataCapture staleIndex)
        (inputOf sample rest fields.captureList) =
      (stdDevGroupInfo .scaled fields.stdDev).map
        (scaledItem arith (sample (fields.sampleCount.captureIndex 0)) sample) := by
  rw [stdDevGroupInfo, List.map_flatMap]
  refine Chunk.range_flatMap fun i info hInfo => ?_
  have hPlaced := stdDev_placed fields
  have hMember := List.mem_of_getElem? hInfo
  have hAverages : fields.averages := .inr (List.length_pos_of_mem hMember)
  have hMean := stdDevMean_getD fields staleIndex hInfo
  have hSum := hPlaced.int64 sample rest hInfo (by decide)
  have hSquares := hPlaced.uint96 sample rest hInfo (Nat.le_refl 5)
  have hScaling : groupScaling arith (fields.dataCapture staleIndex)
      (fields.dataCapture staleIndex).stdDev i = info.scaling :=
    hPlaced.groupScaling arith hInfo (fields.dataCapture staleIndex) rfl rfl
  have hStart : (fields.dataCapture staleIndex).stdDev.index =
      (groupAfter fields.beforeStdDev fields.stdDev).index := rfl
  simp only [hMean, hScaling, hStart, hSum, hSquares,
    sampleCount_word sample rest fields staleIndex hAverages]
  cases hCaptureMean : info.captureMean with
  | false =>
      simp [scaledItem, fields.stdDev_mode info hMember, CaptureInfo.scaling]
  | true =>
      simp [scaledItem, fields.stdDev_mode info hMember, CaptureInfo.scaling, CaptureInfo.meanInfo,
        sumOf]

theorem convertScaledSample_eq :
    convertScaledSample arith (fields.dataCapture staleIndex)
        (inputOf sample rest fields.captureList) =
      (reportedFields .scaled fields (fields.dataCapture staleIndex)).map
        (scaledItem arith (sample (fields.sampleCount.captureIndex 0)) sample) := by
  let samples := sample (fields.sampleCount.captureIndex 0)
  rw [convertScaledSample, copyUnscaledFields_eq arith sample rest fields staleIndex samples,
    convertScaled32_eq arith sample rest fields staleIndex samples,
    convertScaled64_eq arith sample rest fields staleIndex samples,
    averageScaledData_eq, convertStandardDeviation_eq]
  simp [reportedFields, samples]

theorem convertScaledData_eq (samples : List (Nat → CaptureWord)) :
    convertScaledData arith (fields.dataCapture staleIndex) samples.length
        (samples.flatMap fun sample => fields.captureList.map sample) =
      samples.flatMap fun sample =>
        (reportedFields .scaled fields (fields.dataCapture staleIndex)).map
          (scaledItem arith (sample (fields.sampleCount.captureIndex 0)) sample) := by
  induction samples with
  | nil => rfl
  | cons sample rest ih =>
      have hSample := convertScaledSample_eq arith sample
        (rest.flatMap fun sample => fields.captureList.map sample) fields staleIndex
      have hWords : (fields.dataCapture staleIndex).rawSampleWords =
          (fields.captureList.map sample).length := by
        rw [List.length_map]
        rfl
      rw [List.flatMap_cons, List.flatMap_cons, List.length_cons, convertScaledData, ← ih, hWords,
        List.drop_left]
      exact congrArg (· ++ _) hSample

end Converted

/-! ### Lengths -/

section Lengths

variable (arith : Arithmetic Double) (fields : CapturedFields Double) (staleIndex : Nat)

/-- A loop that writes one item of a size for each field. -/
theorem bytes_map_range {count size : Nat} {item : Nat → OutputItem Double}
    (h : ∀ i, (item i).bytes = size) :
    (((List.range count).map item).map OutputItem.bytes).sum = count * size := by
  have hSizes : ((List.range count).map item).map OutputItem.bytes = List.replicate count size := by
    rw [List.map_map, List.eq_replicate_iff]
    exact ⟨by simp, by simp [h]⟩
  rw [hSizes, List.sum_replicate_nat]

theorem convertStandardDeviation_bytes (input : List CaptureWord) :
    ((convertStandardDeviation arith (fields.dataCapture staleIndex) input).map
        OutputItem.bytes).sum =
      8 * (fields.stdDev.length + fields.stdDev.countP CaptureInfo.captureMean) := by
  have hSizes : (convertStandardDeviation arith (fields.dataCapture staleIndex) input).map
      OutputItem.bytes =
      fields.stdDev.flatMap fun info => if info.captureMean then [8, 8] else [8] := by
    rw [convertStandardDeviation, List.map_flatMap]
    refine Chunk.range_flatMap fun i info hInfo => ?_
    rw [stdDevMean_getD fields staleIndex hInfo]
    cases info.captureMean <;> rfl
  rw [hSizes]
  induction fields.stdDev with
  | nil => rfl
  | cons info rest ih =>
      rw [List.flatMap_cons, List.sum_append, ih, List.length_cons, List.countP_cons]
      cases info.captureMean
      · simp only [Bool.false_eq_true, if_false, List.sum_singleton]
        omega
      · simp only [if_true, List.sum_cons, List.sum_nil]
        omega

/-- The length of a converted sample. -/
def CapturedFields.scaledLength : Nat :=
  4 * fields.unscaled.length +
    8 * (fields.scaled32.length + fields.scaled64.length + fields.averaged.length +
      fields.stdDev.length + fields.stdDev.countP CaptureInfo.captureMean)

theorem convertScaledSample_bytes (input : List CaptureWord) :
    ((convertScaledSample arith (fields.dataCapture staleIndex) input).map OutputItem.bytes).sum =
      fields.scaledLength := by
  have hUnscaled : ((copyUnscaledFields (fields.dataCapture staleIndex).unscaled input :
      List (OutputItem Double)).map OutputItem.bytes).sum = fields.unscaled.length * 4 :=
    bytes_map_range fun i => rfl
  have hScaled32 : ((convertScaled32 arith (fields.dataCapture staleIndex) input).map
      OutputItem.bytes).sum = fields.scaled32.length * 8 := bytes_map_range fun i => rfl
  have hScaled64 : ((convertScaled64 arith (fields.dataCapture staleIndex) input).map
      OutputItem.bytes).sum = fields.scaled64.length * 8 := bytes_map_range fun i => rfl
  have hAveraged : ((averageScaledData arith (fields.dataCapture staleIndex) input).map
      OutputItem.bytes).sum = fields.averaged.length * 8 := bytes_map_range fun i => rfl
  simp only [convertScaledSample, List.map_append, List.sum_append, hUnscaled, hScaled32, hScaled64,
    hAveraged, convertStandardDeviation_bytes, CapturedFields.scaledLength]
  omega

theorem convertScaledData_bytes (sampleCount : Nat) (input : List CaptureWord) :
    ((convertScaledData arith (fields.dataCapture staleIndex) sampleCount input).map
        OutputItem.bytes).sum =
      sampleCount * fields.scaledLength := by
  induction sampleCount generalizing input with
  | zero => simp [convertScaledData]
  | succ sampleCount ih =>
      rw [convertScaledData, List.map_append, List.sum_append, convertScaledSample_bytes, ih,
        Nat.succ_mul, Nat.add_comm]

/-- A sample has bytes in one form exactly if it has in the other. -/
theorem scaledLength_pos : 0 < fields.scaledLength ↔ 0 < fields.words := by
  have hAnonymous : fields.anonymous = true → fields.averages := by
    intro h
    exact (of_decide_eq_true h).1
  have hMeans : fields.stdDev.countP CaptureInfo.captureMean ≤ fields.stdDev.length :=
    List.countP_le_length
  unfold CapturedFields.scaledLength CapturedFields.words CapturedFields.averages at *
  cases h : fields.anonymous with
  | false =>
      rw [Bool.toNat_false]
      omega
  | true =>
      have := hAnonymous h
      omega

end Lengths

/-! ### The raw sample -/

theorem rawGroup (group : List (CaptureInfo Double)) (count : Nat) (sample : Nat → CaptureWord)
    (h : ∀ info ∈ group, (info.indices count).map sample = rawWords sample info) :
    (group.flatMap (·.indices count)).map sample = group.flatMap (rawWords sample) := by
  rw [List.map_flatMap]
  induction group with
  | nil => rfl
  | cons info rest ih =>
      rw [List.flatMap_cons, List.flatMap_cons, h info List.mem_cons_self,
        ih fun other hOther => h other (List.mem_cons_of_mem info hOther)]

theorem rawStdDev {group : List (CaptureInfo Double)} (sample : Nat → CaptureWord)
    (h : ∀ info ∈ group, info.captureMode = .stdDev) :
    (group.flatMap (·.indices 5)).map sample =
      (stdDevGroupInfo .raw group).flatMap (rawWords sample) := by
  rw [stdDevGroupInfo, List.flatMap_assoc, List.map_flatMap]
  induction group with
  | nil => rfl
  | cons info rest ih =>
      rw [List.flatMap_cons, List.flatMap_cons,
        ih fun other hOther => h other (List.mem_cons_of_mem info hOther)]
      simp [rawWords, h info List.mem_cons_self, CaptureInfo.meanInfo, CaptureInfo.indices]

theorem captureList_raw (fields : CapturedFields Double) (staleIndex : Nat)
    (sample : Nat → CaptureWord) :
    fields.captureList.map sample =
      (reportedFields .raw fields (fields.dataCapture staleIndex)).flatMap (rawWords sample) := by
  have hHidden : fields.hidden.map sample =
      (if fields.anonymous then [fields.sampleCount] else []).flatMap (rawWords sample) := by
    unfold CapturedFields.hidden
    cases fields.anonymous with
    | false => rfl
    | true => simp [rawWords, fields.sampleCount_mode, CaptureInfo.indices]
  have hUnscaled := rawGroup fields.unscaled 1 sample fun info hInfo => by
    simp [rawWords, fields.unscaled_mode info hInfo, CaptureInfo.indices]
  have hScaled32 := rawGroup fields.scaled32 1 sample fun info hInfo => by
    simp [rawWords, fields.scaled32_mode info hInfo, CaptureInfo.indices]
  have hScaled64 := rawGroup fields.scaled64 2 sample fun info hInfo => by
    simp [rawWords, fields.scaled64_mode info hInfo, CaptureInfo.indices]
  have hAveraged := rawGroup fields.averaged 2 sample fun info hInfo => by
    simp [rawWords, fields.averaged_mode info hInfo, CaptureInfo.indices]
  have hStdDev := rawStdDev sample fields.stdDev_mode
  simp only [CapturedFields.captureList, List.map_append, hHidden, hUnscaled, hScaled32, hScaled64,
    hAveraged, hStdDev, reportedFields, List.flatMap_append, CapturedFields.dataCapture, true_and]

/-! ### The agreement -/

theorem rawHeader_forall₂ (fields : CapturedFields Double) (capture : DataCapture Double)
    (sample : Nat → CaptureWord) : List.Forall₂
      (fun line info => line = sendFieldInfo .raw info ∧
        line.type.words = (rawWords sample info).length)
      (sendDataHeader .raw fields capture) (reportedFields .raw fields capture) := by
  rw [sendDataHeader, List.forall₂_map_left_iff, List.forall₂_same]
  intro info _
  exact ⟨rfl, (rawWords_length sample info).symm⟩

theorem scaledHeader_forall₂ (arith : Arithmetic Double) (fields : CapturedFields Double)
    (capture : DataCapture Double) (samples : CaptureWord) (sample : Nat → CaptureWord) : List.Forall₂
      (fun line info => line = sendFieldInfo .scaled info ∧
        line.type = (scaledItem arith samples sample info).type)
      (sendDataHeader .scaled fields capture) (reportedFields .scaled fields capture) := by
  rw [sendDataHeader, List.forall₂_map_left_iff, List.forall₂_same]
  intro info _
  exact ⟨rfl, (scaledItem_type arith samples sample info).symm⟩

theorem getBinarySampleLength_raw (fields : CapturedFields Double) (staleIndex : Nat) :
    getBinarySampleLength (fields.dataCapture staleIndex) .raw =
      if 0 < fields.captureList.length then some (4 * fields.captureList.length) else none := rfl

theorem getBinarySampleLength_scaled (fields : CapturedFields Double) (staleIndex : Nat) :
    getBinarySampleLength (fields.dataCapture staleIndex) .scaled =
      if 0 < fields.scaledLength then some fields.scaledLength else none := rfl

theorem dataCapture_agrees (arith : Arithmetic Double) (fields : CapturedFields Double)
    (staleIndex : Nat) :
    HeaderAgrees arith fields (fields.dataCapture staleIndex) fields.captureList where
  rawSampleWords := rfl
  unscaled := unscaled_placed fields
  scaled32 := scaled32_placed fields
  scaled64 := scaled64_placed fields
  averaged := averaged_placed fields
  stdDev := stdDev_placed fields
  sampleCount := sampleCount_placed fields staleIndex
  lengths process := by
    cases process with
    | raw =>
        rw [getBinarySampleLength_raw]
        split_ifs with h <;> simp [h]
    | scaled =>
        rw [getBinarySampleLength_scaled, fields.length_captureList, ← scaledLength_pos]
        split_ifs with h <;> simp [h]
  rawLength length hLength := by
    rw [getBinarySampleLength_raw, Option.mem_def] at hLength
    split_ifs at hLength with h
    exact (Option.some.inj hLength).symm
  scaledLength length hLength sampleCount input := by
    rw [getBinarySampleLength_scaled, Option.mem_def] at hLength
    split_ifs at hLength with h
    rw [convertScaledData_bytes, Option.some.inj hLength]
  rawData := captureList_raw fields staleIndex
  rawHeader := rawHeader_forall₂ fields _
  scaledData := convertScaledData_eq arith fields staleIndex
  scaledHeader := scaledHeader_forall₂ arith fields _

/-- The capture is gathered inside its array, and everything agrees, exactly when the words
of a sample do not outnumber `MAX_CAPTURE_COUNT`. That constant counts captured values, of
which a standard deviation has five words. -/
theorem capture_agrees_iff (arith : Arithmetic Double) (fields : CapturedFields Double)
    (staleIndex : Nat) :
    (∃ capture array, gatherDataCapture staleIndex fields = some (capture, array) ∧
        HeaderAgrees arith fields capture array) ↔ fields.words ≤ maxCaptureCount := by
  constructor
  · rintro ⟨capture, array, hGather, _⟩
    exact gatherDataCapture_fits fields hGather
  · intro hFit
    exact ⟨_, _, gatherDataCapture_eq fields staleIndex hFit,
      dataCapture_agrees arith fields staleIndex⟩

/-- The arithmetic of a type with one value. -/
def unitArithmetic : Arithmetic Unit where
  ofInt _ := ()
  mul _ _ := ()
  add _ _ := ()
  div _ _ := ()
  nan := ()
  computeStandardDeviation _ _ _ := ()

/-- Twenty-four position outputs with every capture option set. -/
def fullCapture : CapturedFields Unit :=
  prepareCapturedFields (getSamplesCaptureInfo "PCAP.SAMPLES" 6 () ()) rfl
    ((List.range 24).flatMap fun index => getPosOutCaptureInfo
      { fieldName := "POS"
        scale := ()
        offset := ()
        units := ""
        captureIndex := index
        captureMask := fun _ => true })

/-- Their 265 words leave the capture array. -/
theorem full_capture_overflows :
    ¬∃ capture array, gatherDataCapture 0 fullCapture = some (capture, array) ∧
      HeaderAgrees unitArithmetic fullCapture capture array := by
  rintro ⟨capture, array, hGather, _⟩
  have hWords : fullCapture.words = 265 := by decide
  have hFit := gatherDataCapture_fits fullCapture hGather
  rw [hWords] at hFit
  exact absurd hFit (by decide)

end Server
