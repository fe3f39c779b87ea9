import PandaBridge.Server.TimeRoundTrip

/-! A scalar that is written to its register. The number is checked against the range of `int` and
then converted to `unsigned int`, which the language defines for numbers above -1 only; what an
implementation does with the others is left open. -/
namespace Server.Fields

open FixedPoint

/-- The conversion of `double` to `unsigned int`, which is truncation where it is defined. -/
structure UnsignedConversion where
  convert : ℚ → Nat
  defined : ∀ number : ℚ, -1 < number → number < 2 ^ 32 → convert number = ⌊number⌋.toNat

section Scalar

variable (width : Nat) (wide : 32 ≤ width) (parseLut : Text → Except String Nat)
  (nominalClock : Nat) (conversion : UnsignedConversion) (scale offset : ℚ)

/-- The platform whose `double` is exact, with this conversion. -/
abbrev scalarPlatform : Platform :=
  { exactPlatform width wide parseLut nominalClock with toUnsigned := conversion.convert }

/-- `result` in `scalar_parse`. -/
def scalarResult (number : ℚ) : Int := rounded .away ((number - offset) / scale)

/-- What is asked of a number: it is accepted when its result is an `int`, and then the conversion
is defined, the register has the result in two's complement, and its format denotes the result. -/
structure StoresSigned (number : ℚ) : Prop where
  accepts : (∃ raw, @scalarRaw (scalarPlatform width wide parseLut nominalClock conversion)
    scale offset number = some raw) ↔
      -2 ^ 31 ≤ scalarResult scale offset number ∧ scalarResult scale offset number ≤ 2 ^ 31 - 1
  stores : ∀ raw, @scalarRaw (scalarPlatform width wide parseLut nominalClock conversion)
    scale offset number = some raw →
      (-1 < (scalarResult scale offset number : ℚ) ∧
        (scalarResult scale offset number : ℚ) < 2 ^ 32) ∧
      raw = (scalarResult scale offset number % 2 ^ 32).toNat ∧
      @scaledValue (scalarPlatform width wide parseLut nominalClock conversion) scale offset raw =
        scale * scalarResult scale offset number + offset

variable {width wide parseLut nominalClock conversion scale offset}

/-- The number is accepted when its result is an `int`, and goes through the conversion. -/
theorem scalarRaw_eq_some {number : ℚ} {raw : Nat} :
    @scalarRaw (scalarPlatform width wide parseLut nominalClock conversion) scale offset number =
        some raw ↔
      (-2 ^ 31 ≤ scalarResult scale offset number ∧ scalarResult scale offset number ≤ 2 ^ 31 - 1) ∧
        conversion.convert (scalarResult scale offset number) % 2 ^ 32 = raw := by
  change (if (decide (((-2 ^ 31 : Int) : ℚ) ≤ (scalarResult scale offset number : ℚ)) &&
      decide ((scalarResult scale offset number : ℚ) ≤ ((2 ^ 31 - 1 : Int) : ℚ))) = true then
    some (conversion.convert (scalarResult scale offset number) % 2 ^ 32) else none) = some raw ↔ _
  simp only [Int.cast_le, Bool.and_eq_true, decide_eq_true_eq]
  split
  · rename_i hRange
    rw [Option.some.injEq]
    exact ⟨fun hRaw => ⟨hRange, hRaw⟩, fun h => h.2⟩
  · rename_i hRange
    exact iff_of_false (by simp) fun h => hRange h.1

theorem UnsignedConversion.convert_int (conversion : UnsignedConversion) {result : Int}
    (hFrom : 0 ≤ result) (hTo : result ≤ 2 ^ 31 - 1) : conversion.convert result = result.toNat := by
  have hLow : (-1 : ℚ) < result := by
    have hZero : (0 : ℚ) ≤ result := by exact_mod_cast hFrom
    linarith
  have hHigh : (result : ℚ) < 2 ^ 32 := by
    have hLess : result < 2 ^ 32 := by omega
    exact_mod_cast hLess
  rw [conversion.defined result hLow hHigh, Int.floor_intCast]

theorem scaledValue_signed {result : Int} (hFrom : -2 ^ 31 ≤ result) (hTo : result ≤ 2 ^ 31 - 1) :
    @scaledValue (scalarPlatform width wide parseLut nominalClock conversion) scale offset
        (result % 2 ^ 32).toNat = scale * result + offset := by
  have hSigned : (if (result % 2 ^ 32).toNat < 2 ^ 31 then ((result % 2 ^ 32).toNat : Int)
      else ((result % 2 ^ 32).toNat : Int) - 2 ^ 32) = result := by
    split <;> omega
  change scale * (((if (result % 2 ^ 32).toNat < 2 ^ 31 then ((result % 2 ^ 32).toNat : Int)
      else ((result % 2 ^ 32).toNat : Int) - 2 ^ 32 : Int)) : ℚ) + offset = _
  rw [hSigned]

variable (width wide parseLut nominalClock conversion scale offset)

/-- Whatever the conversion does where it is not defined, a number is stored as it should be exactly
when its result is not a negative `int`. -/
theorem scalar_stores_signed_iff (number : ℚ) :
    StoresSigned width wide parseLut nominalClock conversion scale offset number ↔
      ¬ (-2 ^ 31 ≤ scalarResult scale offset number ∧ scalarResult scale offset number ≤ -1) := by
  constructor
  · rintro hStores ⟨hFrom, hTo⟩
    have hRange : -2 ^ 31 ≤ scalarResult scale offset number ∧
        scalarResult scale offset number ≤ 2 ^ 31 - 1 := ⟨hFrom, by omega⟩
    obtain ⟨raw, hRaw⟩ := hStores.accepts.mpr hRange
    have hDefined := (hStores.stores raw hRaw).1.1
    have hNegative : (scalarResult scale offset number : ℚ) ≤ -1 := by exact_mod_cast hTo
    linarith
  · intro hNegative
    refine ⟨⟨fun ⟨raw, hRaw⟩ => (scalarRaw_eq_some.mp hRaw).1, fun hRange =>
      ⟨_, scalarRaw_eq_some.mpr ⟨hRange, rfl⟩⟩⟩, fun raw hRaw => ?_⟩
    obtain ⟨⟨hFrom, hTo⟩, rfl⟩ := scalarRaw_eq_some.mp hRaw
    have hZero : 0 ≤ scalarResult scale offset number := by omega
    have hLow : (0 : ℚ) ≤ scalarResult scale offset number := by exact_mod_cast hZero
    have hHigh : (scalarResult scale offset number : ℚ) < 2 ^ 32 := by
      have hLess : scalarResult scale offset number < 2 ^ 32 := by omega
      exact_mod_cast hLess
    have hWord : (scalarResult scale offset number).toNat % 2 ^ 32 =
        (scalarResult scale offset number % 2 ^ 32).toNat := by omega
    rw [conversion.convert_int hZero hTo, hWord]
    exact ⟨⟨by linarith, hHigh⟩, rfl, scaledValue_signed hFrom hTo⟩

end Scalar

/-- A conversion that gives 0 for all numbers below 0. -/
def saturating : UnsignedConversion where
  convert number := ⌊number⌋.toNat
  defined _ _ _ := rfl

theorem scalarResult_int (number : Int) : scalarResult 1 0 (number : ℚ) = number := by
  rw [scalarResult, sub_zero, div_one]
  exact (roundsTo_intCast .away number).rounded_eq

theorem scalar_stores_signed_five : StoresSigned 32 (Nat.le_refl 32) (fun _ => .ok 0) 125000000
    saturating 1 0 ((5 : Int) : ℚ) := by
  refine (scalar_stores_signed_iff 32 (Nat.le_refl 32) (fun _ => .ok 0) 125000000 saturating 1 0
    ((5 : Int) : ℚ)).mpr ?_
  rw [scalarResult_int]
  decide

/-- With it -1 is accepted, and stored as 0. -/
theorem negative_scalar_saturates :
    @scalarRaw (scalarPlatform 32 (Nat.le_refl 32) (fun _ => .ok 0) 125000000 saturating) 1 0
        ((-1 : Int) : ℚ) = some 0 ∧
      ¬ ∀ (conversion : UnsignedConversion) (scale offset number : ℚ), scale ≠ 0 →
        StoresSigned 32 (Nat.le_refl 32) (fun _ => .ok 0) 125000000 conversion scale offset
          number := by
  have hRaw : @scalarRaw (scalarPlatform 32 (Nat.le_refl 32) (fun _ => .ok 0) 125000000 saturating)
      1 0 ((-1 : Int) : ℚ) = some 0 := by
    rw [scalarRaw_eq_some, scalarResult_int]
    refine ⟨by decide, ?_⟩
    change ⌊((-1 : Int) : ℚ)⌋.toNat % 2 ^ 32 = 0
    rw [Int.floor_intCast]
    rfl
  refine ⟨hRaw, fun hAll => ?_⟩
  have hWord := ((hAll saturating 1 0 ((-1 : Int) : ℚ) one_ne_zero).stores 0 hRaw).2.1
  rw [scalarResult_int] at hWord
  exact absurd hWord (by decide)

end Server.Fields
