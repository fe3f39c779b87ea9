import Mathlib.Data.BitVec
import Mathlib.Data.List.Basic

/-! What is captured, in which order, how it is converted and how it is announced: the
hardware capture list of `gather_data_capture`, the conversions of one sample, and the
field list of the data header. The arithmetic of `double` is a parameter. -/
namespace Server

abbrev CaptureWord := BitVec 32

/-- A captured value has at most five words. -/
instance captureWords_neZero : NeZero 5 := ⟨by decide⟩

inductive CaptureMode
  | scaled32
  | scaled64
  | unscaled
  | average
  | stdDev
  deriving DecidableEq

/-- `capture_info`, with `CAPTURE_INDEX_SIZE` capture indices. -/
structure CaptureInfo (Double : Type) where
  captureIndex : Fin 5 → Nat
  captureMode : CaptureMode
  fieldName : String
  captureString : String
  scale : Double
  offset : Double
  units : String
  captureMean : Bool

variable {Double : Type}

/-- `captured_fields`: every group holds fields of its own mode. -/
structure CapturedFields (Double : Type) where
  sampleCount : CaptureInfo Double
  scaled32 : List (CaptureInfo Double)
  averaged : List (CaptureInfo Double)
  stdDev : List (CaptureInfo Double)
  scaled64 : List (CaptureInfo Double)
  unscaled : List (CaptureInfo Double)
  sampleCount_mode : sampleCount.captureMode = .scaled32
  scaled32_mode : ∀ info ∈ scaled32, info.captureMode = .scaled32
  averaged_mode : ∀ info ∈ averaged, info.captureMode = .average
  stdDev_mode : ∀ info ∈ stdDev, info.captureMode = .stdDev
  scaled64_mode : ∀ info ∈ scaled64, info.captureMode = .scaled64
  unscaled_mode : ∀ info ∈ unscaled, info.captureMode = .unscaled

/-- The fields of a mode, in the order in which they are walked. -/
def captureGroup (captured : List (CaptureInfo Double)) (mode : CaptureMode) :
    List (CaptureInfo Double) :=
  captured.filter fun info => info.captureMode = mode

theorem captureGroup_mode (captured : List (CaptureInfo Double)) (mode : CaptureMode) :
    ∀ info ∈ captureGroup captured mode, info.captureMode = mode := by
  intro info hInfo
  exact of_decide_eq_true (List.mem_filter.mp hInfo).2

/-- `prepare_captured_fields`, from the captured values and the samples field. -/
def prepareCapturedFields (sampleCount : CaptureInfo Double)
    (hSampleCount : sampleCount.captureMode = .scaled32) (captured : List (CaptureInfo Double)) :
    CapturedFields Double where
  sampleCount := sampleCount
  scaled32 := captureGroup captured .scaled32
  averaged := captureGroup captured .average
  stdDev := captureGroup captured .stdDev
  scaled64 := captureGroup captured .scaled64
  unscaled := captureGroup captured .unscaled
  sampleCount_mode := hSampleCount
  scaled32_mode := captureGroup_mode captured .scaled32
  averaged_mode := captureGroup_mode captured .average
  stdDev_mode := captureGroup_mode captured .stdDev
  scaled64_mode := captureGroup_mode captured .scaled64
  unscaled_mode := captureGroup_mode captured .unscaled

/-! ### The captured values -/

/-- The capture options of a position output, in the order of their mask bits. -/
inductive PosOption
  | value
  | diff
  | sum
  | min
  | max
  | mean
  | stdDev
  deriving DecidableEq

def posOptions : List PosOption := [.value, .diff, .sum, .min, .max, .mean, .stdDev]

/-- The table `capture_option_info`: name, mode and the position field modes to capture. -/
def captureOptionInfo : PosOption → String × CaptureMode × List Nat
  | .value => ("Value", .scaled32, [0])
  | .diff => ("Diff", .scaled32, [1])
  | .sum => ("Sum", .scaled64, [2, 3])
  | .min => ("Min", .scaled32, [4])
  | .max => ("Max", .scaled32, [5])
  | .mean => ("Mean", .average, [2, 3])
  | .stdDev => ("StdDev", .stdDev, [2, 3, 6, 7, 8])

/-- `CAPTURE_POS_BUS`. -/
def capturePosBus (posIndex mode : Nat) : Nat := posIndex % 32 * 16 + mode % 16

/-- `CAPTURE_EXT_BUS`. -/
def captureExtBus (extIndex : Nat) : Nat := 512 + extIndex % 16 * 16

/-- `pos_out_field`, with the name it is registered under. -/
structure PosOutField (Double : Type) where
  fieldName : String
  scale : Double
  offset : Double
  units : String
  captureIndex : Nat
  captureMask : PosOption → Bool

/-- `get_pos_out_capture_info`. -/
def getPosOutCaptureInfo (field : PosOutField Double) : List (CaptureInfo Double) :=
  let captured := posOptions.filter fun option =>
    field.captureMask option && !(option = .mean && field.captureMask .stdDev)
  captured.map fun option =>
    { captureIndex := fun k =>
        capturePosBus field.captureIndex ((captureOptionInfo option).2.2.getD k.val 0)
      captureMode := (captureOptionInfo option).2.1
      fieldName := field.fieldName
      captureString := (captureOptionInfo option).1
      scale := field.scale
      offset := field.offset
      units := field.units
      captureMean := field.captureMask .mean }

/-- `get_samples_capture_info`, from the register and the clock period of the field. -/
def getSamplesCaptureInfo (fieldName : String) (register : Nat) (scale zero : Double) :
    CaptureInfo Double where
  captureIndex k := if k = 0 then captureExtBus register else if k = 1 then captureExtBus 0 else 0
  captureMode := .scaled32
  fieldName := fieldName
  captureString := "Value"
  scale := scale
  offset := zero
  units := "s"
  captureMean := false

/-! ### The capture list -/

/-- `MAX_CAPTURE_COUNT`: seven options for each of 32 positions, two for each of 16
extension entries. -/
def maxCaptureCount : Nat := 7 * 32 + 2 * 16

structure FieldGroup where
  index : Nat
  count : Nat
  scaling : Nat
  deriving DecidableEq

structure Scaling (Double : Type) where
  scale : Double
  offset : Double

/-- `data_capture`. The entries of the two arrays past the lists are never read. -/
structure DataCapture (Double : Type) where
  rawSampleWords : Nat
  sampleCountIndex : Nat
  sampleCountAnonymous : Bool
  unscaled : FieldGroup
  scaled32 : FieldGroup
  scaled64 : FieldGroup
  averaged : FieldGroup
  stdDev : FieldGroup
  stdDevMean : List Bool
  stdDevMeanCount : Nat
  scaling : List (Scaling Double)

/-- `gather`: the entries of `capture_array` and of `scaling` written so far. -/
structure Gather (Double : Type) where
  captureArray : List Nat
  scaling : List (Scaling Double)

/-- The first `count` capture indices of a field. -/
def CaptureInfo.indices (info : CaptureInfo Double) (count : Nat) : List Nat :=
  (List.ofFn info.captureIndex).take count

/-- `emit_capture`. A write outside either array is undefined. -/
def emitCapture (gather : Gather Double) (field : CaptureInfo Double) (indexCount : Nat)
    (scaled : Bool) : Option (Gather Double) :=
  if maxCaptureCount < gather.captureArray.length + indexCount then none
  else if scaled ∧ maxCaptureCount < gather.scaling.length + 1 then none
  else
    some {
      captureArray := gather.captureArray ++ field.indices indexCount
      scaling :=
        if scaled then gather.scaling ++ [{ scale := field.scale, offset := field.offset }]
        else gather.scaling }

/-- `ensure_sample_count`: the index of the sample count, and whether it is anonymous. -/
def ensureSampleCount (fields : CapturedFields Double) (gather : Gather Double) :
    Option (Gather Double × Nat × Bool) :=
  match fields.scaled32.findIdx? fun field =>
      field.captureIndex 0 == fields.sampleCount.captureIndex 0 with
  | some i => some (gather, fields.unscaled.length + i, false)
  | none =>
      (emitCapture gather fields.sampleCount 1 false).map fun emitted =>
        (emitted, gather.captureArray.length, true)

/-- The loop of `prepare_output_group`. -/
def emitGroup (indexCount : Nat) (scaled : Bool) :
    List (CaptureInfo Double) → Gather Double → Option (Gather Double)
  | [], gather => some gather
  | field :: rest, gather =>
      (emitCapture gather field indexCount scaled).bind (emitGroup indexCount scaled rest)

def prepareOutputGroup (gather : Gather Double) (group : List (CaptureInfo Double))
    (indexCount : Nat) (scaled : Bool) : Option (Gather Double × FieldGroup) :=
  (emitGroup indexCount scaled group gather).map fun emitted =>
    (emitted,
      { index := gather.captureArray.length
        count := group.length
        scaling := gather.scaling.length })

/-- The start of `gather_data_capture`. The sample count index of the static state survives
when no field needs it. -/
def gatherSampleCount (staleIndex : Nat) (fields : CapturedFields Double) :
    Option (Gather Double × Nat × Bool) :=
  if 0 < fields.averaged.length ∨ 0 < fields.stdDev.length then
    ensureSampleCount fields { captureArray := [], scaling := [] }
  else some ({ captureArray := [], scaling := [] }, staleIndex, false)

/-- `gather_data_capture`: the capture description and the capture array. -/
def gatherDataCapture (staleIndex : Nat) (fields : CapturedFields Double) :
    Option (DataCapture Double × List Nat) := do
  let (gather, sampleCountIndex, sampleCountAnonymous) ← gatherSampleCount staleIndex fields
  let (gather, unscaled) ← prepareOutputGroup gather fields.unscaled 1 false
  let (gather, scaled32) ← prepareOutputGroup gather fields.scaled32 1 true
  let (gather, scaled64) ← prepareOutputGroup gather fields.scaled64 2 true
  let (gather, averaged) ← prepareOutputGroup gather fields.averaged 2 true
  let (gather, stdDev) ← prepareOutputGroup gather fields.stdDev 5 true
  some ({
    rawSampleWords := gather.captureArray.length
    sampleCountIndex
    sampleCountAnonymous
    unscaled
    scaled32
    scaled64
    averaged
    stdDev
    stdDevMean := fields.stdDev.map CaptureInfo.captureMean
    stdDevMeanCount := fields.stdDev.countP CaptureInfo.captureMean
    scaling := gather.scaling }, gather.captureArray)

/-! ### Conversion of a sample -/

/-- The operations of `double` that the conversions use. -/
structure Arithmetic (Double : Type) where
  ofInt : Int → Double
  mul : Double → Double → Double
  add : Double → Double → Double
  div : Double → Double → Double
  nan : Double
  computeStandardDeviation : CaptureWord → BitVec 64 → BitVec 96 → Double

/-- One entry of a converted sample. -/
inductive OutputItem (Double : Type)
  | uint32 (value : CaptureWord)
  | double (value : Double)

def OutputItem.bytes : OutputItem Double → Nat
  | .uint32 _ => 4
  | .double _ => 8

def wordAt (input : List CaptureWord) (index : Nat) : CaptureWord := input.getD index 0

/-- An `unaligned_int64_t`, low word first. -/
def int64At (input : List CaptureWord) (index : Nat) : BitVec 64 :=
  wordAt input (index + 1) ++ wordAt input index

/-- An `unaligned_uint96_t`, low word first. -/
def uint96At (input : List CaptureWord) (index : Nat) : BitVec 96 :=
  (wordAt input (index + 2) ++ wordAt input (index + 1) : BitVec 64) ++ wordAt input index

section Conversion

variable (arith : Arithmetic Double) (capture : DataCapture Double)

/-- The scaling entry of a field, as the linear map it stands for. -/
def Arithmetic.scaled (scaling : Scaling Double) (value : Int) : Double :=
  arith.add (arith.mul scaling.scale (arith.ofInt value)) scaling.offset

def copyUnscaledFields (fields : FieldGroup) (input : List CaptureWord) : List (OutputItem Double) :=
  (List.range fields.count).map fun i => .uint32 (wordAt input (fields.index + i))

/-- The scaling of field `i` of a group. Both arrays are read inside their bounds. -/
def groupScaling (fields : FieldGroup) (i : Nat) : Scaling Double :=
  capture.scaling.getD (fields.scaling + i) { scale := arith.nan, offset := arith.nan }

def convertScaled32 (input : List CaptureWord) : List (OutputItem Double) :=
  (List.range capture.scaled32.count).map fun i =>
    .double (arith.scaled (groupScaling arith capture capture.scaled32 i)
      (wordAt input (capture.scaled32.index + i)).toInt)

def convertScaled64 (input : List CaptureWord) : List (OutputItem Double) :=
  (List.range capture.scaled64.count).map fun i =>
    .double (arith.scaled (groupScaling arith capture capture.scaled64 i)
      (int64At input (capture.scaled64.index + 2 * i)).toInt)

def computeMean (samples : CaptureWord) (scaling : Scaling Double) (input : BitVec 64) : Double :=
  if samples = 0 then arith.nan
  else
    arith.add (arith.div (arith.mul scaling.scale (arith.ofInt input.toInt))
      (arith.ofInt samples.toNat)) scaling.offset

def averageScaledData (input : List CaptureWord) : List (OutputItem Double) :=
  let sampleCount := wordAt input capture.sampleCountIndex
  (List.range capture.averaged.count).map fun i =>
    .double (computeMean arith sampleCount (groupScaling arith capture capture.averaged i)
      (int64At input (capture.averaged.index + 2 * i)))

def convertStandardDeviation (input : List CaptureWord) : List (OutputItem Double) :=
  let sampleCount := wordAt input capture.sampleCountIndex
  (List.range capture.stdDev.count).flatMap fun i =>
    let raw := capture.stdDev.index + 5 * i
    let scaling := groupScaling arith capture capture.stdDev i
    (if capture.stdDevMean.getD i false then
      [.double (computeMean arith sampleCount scaling (int64At input raw))]
    else []) ++
    [.double (arith.mul scaling.scale
      (arith.computeStandardDeviation sampleCount (int64At input raw) (uint96At input (raw + 2))))]

/-- The body of the loop of `convert_scaled_data`. -/
def convertScaledSample (input : List CaptureWord) : List (OutputItem Double) :=
  copyUnscaledFields capture.unscaled input ++ convertScaled32 arith capture input ++
    convertScaled64 arith capture input ++ averageScaledData arith capture input ++
    convertStandardDeviation arith capture input

def convertScaledData : (sampleCount : Nat) → List CaptureWord → List (OutputItem Double)
  | 0, _ => []
  | sampleCount + 1, input =>
      convertScaledSample arith capture input ++
        convertScaledData sampleCount (input.drop capture.rawSampleWords)

end Conversion

inductive DataProcess
  | raw
  | scaled
  deriving DecidableEq

/-- `get_raw_sample_length`, with its assertion. -/
def getRawSampleLength (capture : DataCapture Double) : Option Nat :=
  if 0 < capture.rawSampleWords then some (4 * capture.rawSampleWords) else none

/-- `get_binary_sample_length`, with its assertions. -/
def getBinarySampleLength (capture : DataCapture Double) : DataProcess → Option Nat
  | .raw => getRawSampleLength capture
  | .scaled =>
      let length := 4 * capture.unscaled.count +
        8 * (capture.scaled32.count + capture.scaled64.count + capture.averaged.count +
          capture.stdDev.count + capture.stdDevMeanCount)
      if 0 < length then some length else none

/-! ### The header -/

inductive FieldType
  | int32
  | int64
  | int96
  | uint32
  | double
  deriving DecidableEq

/-- The table of `field_type_name`. -/
def fieldTypeName : DataProcess → CaptureMode → FieldType
  | .raw, .scaled32 => .int32
  | .raw, .average => .int64
  | .raw, .stdDev => .int96
  | .raw, .scaled64 => .int64
  | .raw, .unscaled => .uint32
  | .scaled, .scaled32 => .double
  | .scaled, .average => .double
  | .scaled, .stdDev => .double
  | .scaled, .scaled64 => .double
  | .scaled, .unscaled => .uint32

/-- The attributes of one field in the header, as `send_field_info` prints them. -/
structure HeaderField (Double : Type) where
  name : String
  type : FieldType
  capture : String
  scaling : Option (Double × Double × String)

def sendFieldInfo (process : DataProcess) (field : CaptureInfo Double) : HeaderField Double where
  name := field.fieldName
  type := fieldTypeName process field.captureMode
  capture := field.captureString
  scaling := if field.captureMode ≠ .unscaled then some (field.scale, field.offset, field.units)
    else none

/-- The copy that reports the mean of a standard deviation field. -/
def CaptureInfo.meanInfo (field : CaptureInfo Double) : CaptureInfo Double :=
  { field with captureMode := .average, captureString := "Mean" }

/-- The fields that `send_stddev_group_info` reports. -/
def stdDevGroupInfo (process : DataProcess) (group : List (CaptureInfo Double)) :
    List (CaptureInfo Double) :=
  group.flatMap fun field =>
    (if process = .raw ∨ field.captureMean then [field.meanInfo] else []) ++ [field]

/-- The fields that `send_data_header` reports, in order. -/
def reportedFields (process : DataProcess) (fields : CapturedFields Double)
    (capture : DataCapture Double) : List (CaptureInfo Double) :=
  (if process = .raw ∧ capture.sampleCountAnonymous then [fields.sampleCount] else []) ++
    fields.unscaled ++ fields.scaled32 ++ fields.scaled64 ++ fields.averaged ++
    stdDevGroupInfo process fields.stdDev

/-- The field list of `send_data_header`. -/
def sendDataHeader (process : DataProcess) (fields : CapturedFields Double)
    (capture : DataCapture Double) : List (HeaderField Double) :=
  (reportedFields process fields capture).map (sendFieldInfo process)

end Server
