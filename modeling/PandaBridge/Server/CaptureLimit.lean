import PandaBridge.Server.CaptureLayout

/-! How many words a capture setup asks for. The arrays of the capture list have room for one entry
per capture option, but an option writes up to five words, and the number of words is compared with
the limit only after they have been written. -/
namespace Server

variable {Double : Type}

/-! ### Extension outputs -/

inductive ExtOutType
  | timestamp
  | samples
  | bits
deriving DecidableEq

/-- `ext_out`, with the name it is registered under. -/
structure ExtOut where
  fieldName : String
  extType : ExtOutType
  register0 : Nat
  register1 : Nat
  capture : Bool
deriving DecidableEq

namespace ExtOut

/-- `get_capture_mode`. -/
def captureMode (extOut : ExtOut) : CaptureMode :=
  match extOut.extType with
  | .timestamp => .scaled64
  | .samples => .scaled32
  | .bits => .unscaled

/-- `get_capture_info`, with the period of the nominal clock. -/
def captureInfo (extOut : ExtOut) (period zero : Double) : CaptureInfo Double where
  captureIndex k :=
    if k = 0 then captureExtBus extOut.register0
    else if k = 1 then captureExtBus extOut.register1 else 0
  captureMode := extOut.captureMode
  fieldName := extOut.fieldName
  captureString := "Value"
  scale := period
  offset := zero
  units := "s"
  captureMean := false

/-- `get_ext_out_capture_info`. -/
def getExtOutCaptureInfo (extOut : ExtOut) (period zero : Double) : List (CaptureInfo Double) :=
  if extOut.capture then [extOut.captureInfo period zero] else []

end ExtOut

/-! ### A configuration -/

/-- `output_field`. -/
inductive OutputField (Double : Type)
  | pos (posOut : PosOutField Double)
  | ext (extOut : ExtOut)

/-- The position bus entries of the outputs. -/
def posIndices (outputs : List (OutputField Double)) : List Nat :=
  outputs.filterMap fun
    | .pos posOut => some posOut.captureIndex
    | .ext _ => none

/-- The extension bus entries of the outputs: two for a timestamp. -/
def extRegisters (outputs : List (OutputField Double)) : List Nat :=
  outputs.flatMap fun
    | .pos _ => []
    | .ext extOut =>
        if extOut.extType = .timestamp then [extOut.register0, extOut.register1]
        else [extOut.register0]

/-- The registered outputs with what the user has set, and the samples output. No entry of either
bus is used twice. -/
structure CaptureSetup (Double : Type) where
  outputs : List (OutputField Double)
  samples : ExtOut
  period : Double
  zero : Double
  samples_type : samples.extType = .samples
  samples_only : ∀ extOut, .ext extOut ∈ outputs → extOut.extType = .samples → extOut = samples
  samples_mem : .ext samples ∈ outputs
  posBus : (posIndices outputs).Nodup ∧ ∀ index ∈ posIndices outputs, index < 32
  extBus : (extRegisters outputs).Nodup ∧ ∀ index ∈ extRegisters outputs, index < 16

namespace CaptureSetup

variable (setup : CaptureSetup Double)

/-- `get_capture_info` of `output.c`. -/
def outputCaptureInfo : OutputField Double → List (CaptureInfo Double)
  | .pos posOut => getPosOutCaptureInfo posOut
  | .ext extOut => extOut.getExtOutCaptureInfo setup.period setup.zero

/-- What `prepare_captured_fields` makes of the outputs. -/
def fields : CapturedFields Double :=
  prepareCapturedFields (setup.samples.captureInfo setup.period setup.zero)
    (by rw [ExtOut.captureInfo, ExtOut.captureMode, setup.samples_type])
    (setup.outputs.flatMap setup.outputCaptureInfo)

end CaptureSetup

/-! ### Counting the words -/

/-- The words a field of this mode takes in the capture list. -/
def CaptureMode.words : CaptureMode → Nat
  | .scaled32 => 1
  | .scaled64 => 2
  | .unscaled => 1
  | .average => 2
  | .stdDev => 5

/-- The words of a position output: a mean comes free with a standard deviation. -/
def posWords (captureMask : PosOption → Bool) : Nat :=
  (captureMask .value).toNat + (captureMask .diff).toNat + 2 * (captureMask .sum).toNat +
    (captureMask .min).toNat + (captureMask .max).toNat +
    if captureMask .stdDev then 5 else 2 * (captureMask .mean).toNat

def ExtOut.words (extOut : ExtOut) : Nat :=
  if extOut.capture then (if extOut.extType = .timestamp then 2 else 1) else 0

def OutputField.words : OutputField Double → Nat
  | .pos posOut => posWords posOut.captureMask
  | .ext extOut => extOut.words

/-- The output is averaged, so the number of samples is needed. -/
def OutputField.averages : OutputField Double → Bool
  | .pos posOut => posOut.captureMask .mean || posOut.captureMask .stdDev
  | .ext _ => false

/-- The words a setup asks for: those of the outputs, and the hidden number of samples. -/
def CaptureSetup.captureWords (setup : CaptureSetup Double) : Nat :=
  (setup.outputs.any OutputField.averages && !setup.samples.capture).toNat +
    (setup.outputs.map OutputField.words).sum

section Counting

theorem words_prepareCapturedFields (sampleCount : CaptureInfo Double)
    (hSampleCount : sampleCount.captureMode = .scaled32) (captured : List (CaptureInfo Double)) :
    let fields := prepareCapturedFields sampleCount hSampleCount captured
    fields.unscaled.length + fields.scaled32.length + 2 * fields.scaled64.length +
        2 * fields.averaged.length + 5 * fields.stdDev.length =
      (captured.map fun info => info.captureMode.words).sum := by
  simp only [prepareCapturedFields, captureGroup]
  induction captured with
  | nil => rfl
  | cons info rest ih =>
      rw [List.map_cons, List.sum_cons, ← ih]
      cases hMode : info.captureMode <;>
        simp only [List.filter_cons, hMode, decide_true, if_true, decide_false, reduceCtorEq,
          Bool.false_eq_true, if_false, List.length_cons, CaptureMode.words] <;>
        omega

theorem sum_map_filter {Item : Type} (kept : Item → Bool) (weight : Item → Nat)
    (items : List Item) :
    ((items.filter kept).map weight).sum =
      (items.map fun item => if kept item then weight item else 0).sum := by
  induction items with
  | nil => rfl
  | cons item rest ih =>
      cases hKept : kept item <;> simp [hKept, ih]

theorem words_getPosOutCaptureInfo (posOut : PosOutField Double) :
    ((getPosOutCaptureInfo posOut).map fun info => info.captureMode.words).sum =
      posWords posOut.captureMask := by
  have hModes : (getPosOutCaptureInfo posOut).map (fun info => info.captureMode.words) =
      (posOptions.filter fun option =>
        posOut.captureMask option && !(option = .mean && posOut.captureMask .stdDev)).map
          fun option => (captureOptionInfo option).2.1.words := by
    simp [getPosOutCaptureInfo]
  rw [hModes, sum_map_filter]
  simp only [posOptions, List.map_cons, List.map_nil, List.sum_cons, List.sum_nil, posWords,
    captureOptionInfo, CaptureMode.words, Bool.toNat]
  cases posOut.captureMask .stdDev <;> simp [Bool.cond_eq_ite] <;> omega

theorem words_getExtOutCaptureInfo (extOut : ExtOut) (period zero : Double) :
    ((extOut.getExtOutCaptureInfo period zero).map fun info => info.captureMode.words).sum =
      extOut.words := by
  unfold ExtOut.getExtOutCaptureInfo ExtOut.words
  cases extOut.capture with
  | false => rfl
  | true =>
      cases hType : extOut.extType <;>
        simp [ExtOut.captureInfo, ExtOut.captureMode, hType, CaptureMode.words]

variable (setup : CaptureSetup Double)

theorem words_captured :
    ((setup.outputs.flatMap setup.outputCaptureInfo).map fun info => info.captureMode.words).sum =
      (setup.outputs.map OutputField.words).sum := by
  induction setup.outputs with
  | nil => rfl
  | cons output rest ih =>
      rw [List.flatMap_cons, List.map_append, List.sum_append, ih, List.map_cons, List.sum_cons]
      congr 1
      cases output with
      | pos posOut => exact words_getPosOutCaptureInfo posOut
      | ext extOut => exact words_getExtOutCaptureInfo extOut setup.period setup.zero

theorem length_captureGroup_pos {captured : List (CaptureInfo Double)} {mode : CaptureMode} :
    0 < (captureGroup captured mode).length ↔ ∃ info ∈ captured, info.captureMode = mode := by
  rw [List.length_pos_iff_exists_mem]
  simp [captureGroup]

theorem averages_iff (output : OutputField Double) :
    output.averages = true ↔ ∃ info ∈ setup.outputCaptureInfo output,
      info.captureMode = .average ∨ info.captureMode = .stdDev := by
  cases output with
  | pos posOut =>
      simp only [CaptureSetup.outputCaptureInfo, getPosOutCaptureInfo, List.mem_map,
        exists_exists_and_eq_and, List.mem_filter, OutputField.averages, Bool.or_eq_true,
        Bool.and_eq_true, Bool.not_eq_true']
      constructor
      · intro hEither
        cases hStdDev : posOut.captureMask .stdDev with
        | true => exact ⟨.stdDev, ⟨by decide, hStdDev, by simp⟩, .inr rfl⟩
        | false =>
            have hMean : posOut.captureMask .mean = true := by simpa [hStdDev] using hEither
            exact ⟨.mean, ⟨by decide, hMean, by simp⟩, .inl rfl⟩
      · rintro ⟨option, ⟨_, hMask, _⟩, hMode⟩
        cases option with
        | mean => exact .inl hMask
        | stdDev => exact .inr hMask
        | _ => simp [captureOptionInfo] at hMode
  | ext extOut =>
      simp only [OutputField.averages, Bool.false_eq_true, false_iff, not_exists, not_and, not_or]
      intro info hInfo
      simp only [CaptureSetup.outputCaptureInfo, ExtOut.getExtOutCaptureInfo] at hInfo
      split_ifs at hInfo
      · obtain rfl := List.mem_singleton.mp hInfo
        cases hType : extOut.extType <;> simp [ExtOut.captureInfo, ExtOut.captureMode, hType]
      · simp at hInfo

theorem fields_averages_iff :
    setup.fields.averages ↔ setup.outputs.any OutputField.averages = true := by
  have hGroups : setup.fields.averages ↔
      ∃ info ∈ setup.outputs.flatMap setup.outputCaptureInfo,
        info.captureMode = .average ∨ info.captureMode = .stdDev := by
    rw [CapturedFields.averages, CaptureSetup.fields, prepareCapturedFields,
      length_captureGroup_pos, length_captureGroup_pos, ← exists_or]
    simp only [and_or_left]
  rw [hGroups, List.any_eq_true]
  constructor
  · rintro ⟨info, hInfo, hMode⟩
    obtain ⟨output, hOutput, hMem⟩ := List.mem_flatMap.mp hInfo
    exact ⟨output, hOutput, (averages_iff setup output).mpr ⟨info, hMem, hMode⟩⟩
  · rintro ⟨output, hOutput, hAverages⟩
    obtain ⟨info, hMem, hMode⟩ := (averages_iff setup output).mp hAverages
    exact ⟨info, List.mem_flatMap.mpr ⟨output, hOutput, hMem⟩, hMode⟩

theorem samplePlace_eq_none_iff :
    setup.fields.samplePlace = none ↔ setup.samples.capture = false := by
  have hMem : ∀ info, info ∈ setup.fields.scaled32 ↔
      (∃ output ∈ setup.outputs, info ∈ setup.outputCaptureInfo output) ∧
        info.captureMode = .scaled32 := by
    intro info
    simp [CaptureSetup.fields, prepareCapturedFields, captureGroup]
  rw [CapturedFields.samplePlace, List.findIdx?_eq_none_iff]
  constructor
  · intro hNone
    by_contra hCapture
    have hOn : setup.samples.capture = true := by simpa using hCapture
    have hInfo : setup.samples.captureInfo setup.period setup.zero ∈ setup.fields.scaled32 := by
      refine (hMem _).mpr ⟨⟨.ext setup.samples, setup.samples_mem, ?_⟩, ?_⟩
      · simp [CaptureSetup.outputCaptureInfo, ExtOut.getExtOutCaptureInfo, hOn]
      · rw [ExtOut.captureInfo, ExtOut.captureMode, setup.samples_type]
    have := hNone _ hInfo
    simp [CaptureSetup.fields, prepareCapturedFields] at this
  · intro hCapture info hInfo
    obtain ⟨⟨output, hOutput, hOf⟩, hMode⟩ := (hMem info).mp hInfo
    cases output with
    | pos posOut =>
        simp only [CaptureSetup.outputCaptureInfo, getPosOutCaptureInfo, List.mem_map] at hOf
        obtain ⟨option, _, rfl⟩ := hOf
        simp only [CaptureSetup.fields, prepareCapturedFields, ExtOut.captureInfo, capturePosBus,
          captureExtBus, if_true, beq_eq_false_iff_ne, ne_eq]
        omega
    | ext extOut =>
        simp only [CaptureSetup.outputCaptureInfo, ExtOut.getExtOutCaptureInfo] at hOf
        split_ifs at hOf with hOn
        · obtain rfl := List.mem_singleton.mp hOf
          have hType : extOut.extType = .samples := by
            cases hType : extOut.extType <;>
              simp [ExtOut.captureInfo, ExtOut.captureMode, hType] at hMode ⊢
          rw [setup.samples_only extOut hOutput hType, hCapture] at hOn
          exact absurd hOn Bool.false_ne_true
        · simp at hOf

theorem fields_words : setup.fields.words = setup.captureWords := by
  have hGroups := words_prepareCapturedFields (setup.samples.captureInfo setup.period setup.zero)
    (by rw [ExtOut.captureInfo, ExtOut.captureMode, setup.samples_type])
    (setup.outputs.flatMap setup.outputCaptureInfo)
  rw [words_captured] at hGroups
  have hAnonymous : setup.fields.anonymous =
      (setup.outputs.any OutputField.averages && !setup.samples.capture) := by
    rw [Bool.eq_iff_iff, CapturedFields.anonymous, decide_eq_true_eq, fields_averages_iff,
      samplePlace_eq_none_iff, Bool.and_eq_true, Bool.not_eq_true']
  change setup.fields.unscaled.length + setup.fields.scaled32.length +
    2 * setup.fields.scaled64.length + 2 * setup.fields.averaged.length +
      5 * setup.fields.stdDev.length = _ at hGroups
  rw [CapturedFields.words, CaptureSetup.captureWords, hAnonymous]
  omega

end Counting

/-! ### The limit -/

/-- The capture list, the scaling and the flags of the deviations stay inside their arrays. -/
def CaptureListFits (staleIndex : Nat) (fields : CapturedFields Double) : Prop :=
  ∃ capture captureArray, gatherDataCapture staleIndex fields = some (capture, captureArray) ∧
    captureArray.length ≤ maxCaptureCount ∧ capture.scaling.length ≤ maxCaptureCount ∧
      capture.stdDevMean.length ≤ maxCaptureCount

theorem gathered_lengths (fields : CapturedFields Double) (staleIndex : Nat) :
    fields.captureList.length = fields.words ∧
      (fields.dataCapture staleIndex).scaling.length ≤ fields.words ∧
        (fields.dataCapture staleIndex).stdDevMean.length ≤ fields.words := by
  have hLength := fields.length_captureList
  have hScaling : fields.gathered.Bounded :=
    fields.bounded.stdDev.add (by decide) (by decide) fields.stdDev true
  refine ⟨hLength, ?_, ?_⟩
  · rw [← hLength]
    exact hScaling
  · rw [CapturedFields.dataCapture, List.length_map, CapturedFields.words]
    omega

/-- The arrays are kept exactly by the setups that ask for no more words than they hold. -/
theorem capture_list_fits_iff (setup : CaptureSetup Double) (staleIndex : Nat) :
    CaptureListFits staleIndex setup.fields ↔ setup.captureWords ≤ maxCaptureCount := by
  rw [← fields_words]
  constructor
  · rintro ⟨capture, captureArray, hGather, _⟩
    exact gatherDataCapture_fits setup.fields hGather
  · intro hFit
    obtain ⟨hLength, hScaling, hMean⟩ := gathered_lengths setup.fields staleIndex
    exact ⟨_, _, gatherDataCapture_eq setup.fields staleIndex hFit, hLength.le.trans hFit,
      hScaling.trans hFit, hMean.trans hFit⟩

/-- Thirty-two position outputs with every capture option set, and the samples output. -/
def fullSetup : CaptureSetup Unit where
  outputs := .ext ⟨"PCAP.SAMPLES", .samples, 6, 0, false⟩ ::
    (List.range 32).map fun index =>
      .pos { fieldName := "POS"
             scale := ()
             offset := ()
             units := ""
             captureIndex := index
             captureMask := fun _ => true }
  samples := ⟨"PCAP.SAMPLES", .samples, 6, 0, false⟩
  period := ()
  zero := ()
  samples_type := rfl
  samples_only := by
    intro extOut hMem _
    simpa using hMem
  samples_mem := List.mem_cons_self
  posBus := by decide
  extBus := by decide

/-- Their 353 words leave the array of the capture list. -/
theorem capture_list_overflows :
    ¬∀ (setup : CaptureSetup Unit) (staleIndex : Nat),
      CaptureListFits staleIndex setup.fields := by
  intro hAll
  obtain ⟨capture, captureArray, hGather, _⟩ := hAll fullSetup 0
  have hFit := gatherDataCapture_fits fullSetup.fields hGather
  have hWords : fullSetup.captureWords = 353 := by decide
  rw [fields_words, hWords] at hFit
  exact absurd hFit (by decide)

end Server
