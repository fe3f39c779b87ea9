import Mathlib.Logic.Function.Basic
import Mathlib.Tactic.SplitIfs
import PandaBridge.Server.ExtensionRegister

/-! Parameters. The value that is read back is a cache beside the register, filled from the
default when the configuration is parsed and from then on with what was written. The register is
one of the hardware or one of the extension server, which may have other registers written too. -/
namespace Server

/-- `field_register` or `extension` of `struct base_state`. -/
inductive ParamRegister
  | simple (reg : Nat)
  | extension (address : ExtensionAddress)

/-- A `param` field: its instances, its registers, and what its line of the configuration holds
after the type. -/
structure ParamConfig where
  count : Nat
  blockBase : Nat
  register : ParamRegister
  line : Text

/-- A register: a word of the register area, or one of the extension server for an instance. -/
inductive Register
  | hardware (offset : Nat)
  | extension (parseId number : Nat)
  deriving DecidableEq

/-- The register of an instance. -/
def ParamConfig.registerOf (config : ParamConfig) (number : Nat) : Register :=
  match config.register with
  | .simple reg => .hardware (makeOffset config.blockBase number reg)
  | .extension address => .extension address.parseId number

/-- The registers that the extension server may have written beside it. -/
def ParamConfig.writeRegisters (config : ParamConfig) (number : Nat) : List Register :=
  match config.register with
  | .simple _ => []
  | .extension address =>
      address.writeRegisters.map fun reg => .hardware (makeOffset config.blockBase number reg)

/-- `struct simple_field`. -/
structure SimpleField where
  value : Nat
  updateIndex : Nat
  deriving DecidableEq

/-- The cached values for every field and instance, and the last value that each register has
taken. A register of the extension server takes what its server acknowledges. -/
structure ParamState where
  values : Nat → Nat → SimpleField
  registers : Register → Option Nat
  index : Nat

/-- What the extension server sends back to a request: the string of its line, if it is running
and one can be read. -/
inductive ServerLine
  | notRunning
  | lost
  | response (text : Text)

/-- What a write meets outside: what the hardware registers read, and the extension server. -/
structure WriteContext where
  width : Nat
  reads : Nat → Nat
  answer : ServerLine

/-- Writes of instances that come from the types of their fields, and other notices of change. -/
inductive ParamEvent
  | write (field number value : Nat) (context : WriteContext)
  | changed (field number : Nat)

/-- The loop of `read_hardware_registers` over the registers that are left, behind what is in the
buffer of 256 characters. -/
def readHardwareRegisters (context : WriteContext) (blockBase number : Nat) :
    List Nat → Text → Except String Text
  | [], buffer =>
      if buffer.length + 2 ≤ 256 then .ok (buffer ++ ['\n'])
      else .error "Buffer overflow reading registers"
  | reg :: rest, buffer =>
      let next := buffer ++
        ' ' :: formatUint (context.reads (makeOffset blockBase number reg) % 2 ^ 32)
      if next.length < 256 then readHardwareRegisters context blockBase number rest next
      else .error "Buffer overflow reading registers"

/-- `extension_server_exchange`. The place that a bad response is reported with is left out. -/
def extensionServerExchange (context : WriteContext) (message : Text) (count : Nat) :
    Except String (List Nat) :=
  match context.answer with
  | .notRunning => .error "Extension server not running"
  | .lost => .error "Extension server communication failure"
  | .response text =>
      match readChar (message.headD '\x00') text with
      | (true, rest) => do
          let (result, rest) ← parseUintArray context.width count rest
          parseEos rest
          .ok result
      | (false, rest) => do
          let (_, rest) ← parseChar 'E' rest
          .error (String.ofList rest)

/-- The request of `extension_write_register` and what comes back for the write registers. -/
def extensionWriteRequest (context : WriteContext) (blockBase : Nat) (address : ExtensionAddress)
    (number value : Nat) : Except String (List Nat) := do
  let message ← readHardwareRegisters context blockBase number address.readRegisters
    ('W' :: formatUint (address.parseId % 2 ^ 32) ++ ' ' :: formatUint (number % 2 ^ 32) ++
      ' ' :: formatUint (value % 2 ^ 32))
  extensionServerExchange context message address.writeRegisters.length

namespace ParamState

def setRegister (state : ParamState) (register : Register) (value : Nat) : ParamState :=
  { state with registers := Function.update state.registers register (some value) }

def setValue (state : ParamState) (field number : Nat) (value : SimpleField) : ParamState :=
  { state with
    values := Function.update state.values field
      (Function.update (state.values field) number value) }

/-- `hw_write_register`. -/
def hwWriteRegister (blockBase number reg value : Nat) (state : ParamState) : ParamState :=
  state.setRegister (.hardware (makeOffset blockBase number reg)) value

/-- `extension_write_register`: the write registers are written without an error only. -/
def extensionWriteRegister (context : WriteContext) (blockBase : Nat) (address : ExtensionAddress)
    (number value : Nat) (state : ParamState) : ParamState × Option String :=
  match extensionWriteRequest context blockBase address number value with
  | .error message => (state, some message)
  | .ok results =>
      ((address.writeRegisters.zip results).foldl
        (fun next entry => next.hwWriteRegister blockBase number entry.1 entry.2)
        (state.setRegister (.extension address.parseId number) value), none)

/-- `write_register`. -/
def writeRegister (config : ParamConfig) (state : ParamState) (number value : Nat)
    (context : WriteContext) : ParamState × Option String :=
  match config.register with
  | .extension address =>
      state.extensionWriteRegister context config.blockBase address number value
  | .simple reg => (state.hwWriteRegister config.blockBase number reg value, none)

/-- `param_read`. -/
def paramRead (state : ParamState) (field number : Nat) : Nat := (state.values field number).value

/-- `param_write`. -/
def paramWrite (config : ParamConfig) (state : ParamState) (field number value : Nat)
    (context : WriteContext) : ParamState × Option String :=
  match writeRegister config state number value context with
  | (next, some message) => (next, some message)
  | (next, none) =>
      ({ next.setValue field number { value := value, updateIndex := next.index + 1 } with
        index := next.index + 1 }, none)

/-- `simple_register_changed`. -/
def simpleRegisterChanged (state : ParamState) (field number : Nat) : ParamState :=
  { state.setValue field number
      { state.values field number with updateIndex := state.index + 1 } with
    index := state.index + 1 }

/-- The loop of `param_finalise` over the instances that are left. -/
def finaliseLoop (config : ParamConfig) (field : Nat) (contexts : Nat → WriteContext) :
    List Nat → ParamState × Option String → ParamState × Option String
  | [], result => result
  | number :: rest, (state, error) =>
      if error.isSome then
        finaliseLoop config field contexts rest
          (writeRegister config state number (state.paramRead field number) (contexts number))
      else (state, error)

/-- `param_finalise`. -/
def paramFinalise (config : ParamConfig) (field : Nat) (contexts : Nat → WriteContext)
    (state : ParamState) : ParamState × Option String :=
  finaliseLoop config field contexts (List.range config.count) (state, none)

end ParamState

/-- `parse_default_param`: the value that every instance starts with. -/
def parseDefaultParam (width : Nat) (line : Text) : Except String (Option Nat × Text) :=
  match readChar ' ' line with
  | (false, line) => .ok (none, line)
  | (true, line) => do
      let (_, line) ← parseChar '=' (skipWhitespace line)
      let (value, line) ← parseUint width line
      .ok (some value, line)

/-- `param_init`, with the whole of the line taken. -/
def paramInit (width : Nat) (config : ParamConfig) : Except String (Nat → SimpleField) := do
  let (value, line) ← parseDefaultParam width config.line
  parseEos line
  .ok fun _ => { value := value.getD 0, updateIndex := 1 }

namespace ParamState

/-- The fields of the configuration file. -/
def initAll (width : Nat) (configs : List ParamConfig) : Except String ParamState := do
  let values ← configs.mapM (paramInit width)
  .ok { values := fun field => (values[field]?).getD fun _ => { value := 0, updateIndex := 1 }
        registers := fun _ => none
        index := 0 }

/-- `validate_fields`, up to the first error. -/
def validateFields (contexts : Nat → Nat → WriteContext) :
    List (ParamConfig × Nat) → ParamState → Except String ParamState
  | [], state => .ok state
  | (config, field) :: rest, state =>
      match paramFinalise config field (contexts field) state with
      | (_, some message) => .error message
      | (next, none) => validateFields contexts rest next

/-- `load_config_databases`, for its parameters. -/
def loadConfigDatabases (width : Nat) (configs : List ParamConfig)
    (contexts : Nat → Nat → WriteContext) : Except String ParamState := do
  let state ← initAll width configs
  validateFields contexts configs.zipIdx state

/-- One event after the configuration is loaded. Only instances of a field are written. -/
def step (configs : List ParamConfig) (state : ParamState) : ParamEvent → ParamState
  | .write field number value context =>
      match configs[field]? with
      | some config =>
          if number < config.count then (state.paramWrite config field number value context).1
          else state
      | none => state
  | .changed field number => state.simpleRegisterChanged field number

def run (configs : List ParamConfig) (events : List ParamEvent) (state : ParamState) : ParamState :=
  events.foldl (step configs) state

end ParamState

/-- A write goes through: always to the hardware, and to the extension server when the request can
be made and the response is of the form that it asks for. -/
def ParamConfig.Accepts (config : ParamConfig) (number value : Nat) (context : WriteContext) :
    Prop :=
  match config.register with
  | .simple _ => True
  | .extension address =>
      ∃ results, extensionWriteRequest context config.blockBase address number value = .ok results

/-- The event is a write of this instance that goes through. -/
def ParamEvent.Writes (configs : List ParamConfig) (field number : Nat) : ParamEvent → Prop
  | .write written place value context => written = field ∧ place = number ∧
      ∃ config, configs[field]? = some config ∧ number < config.count ∧
        config.Accepts number value context
  | .changed _ _ => False

/-- The event is a write that goes through and reaches this register, as the one of its instance or
as one that the extension server has written. -/
def ParamEvent.Reaches (configs : List ParamConfig) (register : Register) : ParamEvent → Prop
  | .write field number value context =>
      ∃ config, configs[field]? = some config ∧ number < config.count ∧
        config.Accepts number value context ∧
        (register = config.registerOf number ∨ register ∈ config.writeRegisters number)
  | .changed _ _ => False

namespace ParamState

variable {configs : List ParamConfig}

/-- The loop never runs, because it starts without an error. -/
theorem paramFinalise_eq (config : ParamConfig) (field : Nat) (contexts : Nat → WriteContext)
    (state : ParamState) : paramFinalise config field contexts state = (state, none) := by
  unfold paramFinalise
  cases List.range config.count with
  | nil => rfl
  | cons => rfl

theorem validateFields_eq (contexts : Nat → Nat → WriteContext)
    (fields : List (ParamConfig × Nat)) (state : ParamState) :
    validateFields contexts fields state = .ok state := by
  induction fields with
  | nil => rfl
  | cons field rest ih =>
      simp only [validateFields, paramFinalise_eq]
      exact ih

theorem registers_of_load {width : Nat} {contexts : Nat → Nat → WriteContext} {state : ParamState}
    (h : loadConfigDatabases width configs contexts = .ok state) (register : Register) :
    state.registers register = none := by
  obtain ⟨first, hFirst, hRest⟩ := exists_of_bind_eq_ok h
  rw [validateFields_eq] at hRest
  obtain rfl := Except.ok.inj hRest
  obtain ⟨values, _, hOk⟩ := exists_of_bind_eq_ok hFirst
  obtain rfl := Except.ok.inj hOk
  rfl

/-! ### One write -/

/-- Writes of the hardware touch nothing but the registers that they name. -/
theorem hwWrites_frame (blockBase number : Nat) (entries : List (Nat × Nat)) (state : ParamState) :
    ∃ registers, entries.foldl
        (fun next entry => next.hwWriteRegister blockBase number entry.1 entry.2) state =
        { state with registers := registers } ∧
      ∀ register, register ∉ entries.map (fun entry =>
          Register.hardware (makeOffset blockBase number entry.1)) →
        registers register = state.registers register := by
  induction entries generalizing state with
  | nil => exact ⟨state.registers, rfl, fun _ _ => rfl⟩
  | cons entry rest ih =>
      obtain ⟨registers, hState, hFrame⟩ :=
        ih (state.hwWriteRegister blockBase number entry.1 entry.2)
      refine ⟨registers, by rw [List.foldl_cons, hState]; rfl, fun register hNot => ?_⟩
      rw [List.map_cons, List.mem_cons, not_or] at hNot
      rw [hFrame register hNot.2]
      exact Function.update_of_ne hNot.1 _ _

variable {config : ParamConfig} {state : ParamState} {field number value : Nat}
  {context : WriteContext}

theorem writeRegister_refused (h : ¬ config.Accepts number value context) :
    ∃ message, writeRegister config state number value context = (state, some message) := by
  unfold ParamConfig.Accepts at h
  unfold writeRegister
  split at h
  · exact absurd trivial h
  · next address hRegister =>
      rw [hRegister]
      simp only [extensionWriteRegister]
      cases hRequest : extensionWriteRequest context config.blockBase address number value with
      | error message => exact ⟨message, rfl⟩
      | ok results => exact absurd ⟨results, hRequest⟩ h

/-- One that goes through reaches the register of the instance, and beside it the write registers
of its extension. -/
theorem writeRegister_accepted (h : config.Accepts number value context) :
    ∃ registers,
      writeRegister config state number value context =
        ({ state with registers := registers }, none) ∧
      registers (config.registerOf number) = some value ∧
      ∀ register ≠ config.registerOf number, register ∉ config.writeRegisters number →
        registers register = state.registers register := by
  unfold ParamConfig.Accepts at h
  unfold writeRegister ParamConfig.registerOf ParamConfig.writeRegisters
  split at h
  · next reg hRegister =>
      rw [hRegister]
      exact ⟨_, rfl, Function.update_self _ _ _, fun _ hNe _ => Function.update_of_ne hNe _ _⟩
  · next address hRegister =>
      obtain ⟨results, hRequest⟩ := h
      rw [hRegister]
      simp only [extensionWriteRegister, hRequest]
      obtain ⟨registers, hState, hFrame⟩ := hwWrites_frame config.blockBase number
        (address.writeRegisters.zip results)
        (state.setRegister (.extension address.parseId number) value)
      refine ⟨registers, by rw [hState]; rfl, ?_, fun register hNe hNot => ?_⟩
      · -- a register of the extension server is no word of the register area
        rw [hFrame _ (by simp)]
        exact Function.update_self _ _ _
      · rw [hFrame register fun hMem => hNot ?_]
        · exact Function.update_of_ne hNe _ _
        · obtain ⟨entry, hEntry, rfl⟩ := List.mem_map.mp hMem
          exact List.mem_map.mpr ⟨entry.1, (List.of_mem_zip hEntry).1, rfl⟩

theorem paramWrite_refused (h : ¬ config.Accepts number value context) :
    ∃ message, paramWrite config state field number value context = (state, some message) := by
  obtain ⟨message, hWrite⟩ := @writeRegister_refused config state number value context h
  exact ⟨message, by rw [paramWrite, hWrite]⟩

theorem paramWrite_accepted (h : config.Accepts number value context) :
    ∃ registers,
      paramWrite config state field number value context =
        ({ state.setValue field number { value := value, updateIndex := state.index + 1 } with
          registers := registers, index := state.index + 1 }, none) ∧
      registers (config.registerOf number) = some value ∧
      ∀ register ≠ config.registerOf number, register ∉ config.writeRegisters number →
        registers register = state.registers register := by
  obtain ⟨registers, hWrite, hFacts⟩ := @writeRegister_accepted config state number value context h
  exact ⟨registers, by rw [paramWrite, hWrite]; rfl, hFacts⟩

theorem paramWrite_failed {message : String}
    (h : (state.paramWrite config field number value context).2 = some message) :
    (state.paramWrite config field number value context).1 = state := by
  by_cases hAccepts : config.Accepts number value context
  · obtain ⟨registers, hWrite, _⟩ :=
      @paramWrite_accepted config state field number value context hAccepts
    rw [hWrite] at h
    exact absurd h nofun
  · obtain ⟨_, hWrite⟩ := @paramWrite_refused config state field number value context hAccepts
    rw [hWrite]

theorem paramRead_setValue {entry : SimpleField} {place other : Nat} :
    (state.setValue field number entry).paramRead place other =
      if place = field ∧ other = number then entry.value else state.paramRead place other := by
  unfold setValue paramRead
  by_cases hField : place = field
  · subst hField
    by_cases hNumber : other = number
    · simp [hNumber]
    · simp [hNumber]
  · simp [hField]

theorem paramRead_changed {place other : Nat} :
    (state.simpleRegisterChanged field number).paramRead place other =
      state.paramRead place other := by
  have hRead := @paramRead_setValue state field number
    { state.values field number with updateIndex := state.index + 1 } place other
  unfold simpleRegisterChanged
  refine hRead.trans ?_
  split_ifs with hSame
  · rw [hSame.1, hSame.2]
    rfl
  · rfl

/-! ### Runs -/

/-- The cache of an instance is what its register was last written with. -/
def Synced (configs : List ParamConfig) (state : ParamState) (field number : Nat) : Prop :=
  ∃ config, configs[field]? = some config ∧
    state.registers (config.registerOf number) = some (state.paramRead field number)

theorem step_write (configs : List ParamConfig) (state : ParamState) (field number value : Nat)
    (context : WriteContext) :
    (state.step configs (.write field number value context) = state ∧
      ∀ other place, ¬ (ParamEvent.write field number value context).Writes configs other place) ∨
    ∃ config registers, configs[field]? = some config ∧ number < config.count ∧
      config.Accepts number value context ∧
      state.step configs (.write field number value context) =
        { state.setValue field number { value := value, updateIndex := state.index + 1 } with
          registers := registers, index := state.index + 1 } ∧
      registers (config.registerOf number) = some value ∧
      ∀ register ≠ config.registerOf number, register ∉ config.writeRegisters number →
        registers register = state.registers register := by
  cases hConfig : configs[field]? with
  | none =>
      refine .inl ⟨by simp only [step, hConfig], ?_⟩
      rintro other place ⟨rfl, _, config, hSome, _⟩
      exact absurd (hConfig.symm.trans hSome) nofun
  | some config =>
      by_cases hThrough : number < config.count ∧ config.Accepts number value context
      · obtain ⟨registers, hWrite, hFacts⟩ :=
          @paramWrite_accepted config state field number value context hThrough.2
        refine .inr ⟨config, registers, rfl, hThrough.1, hThrough.2, ?_, hFacts⟩
        simp only [step, hConfig, if_pos hThrough.1, hWrite]
      · refine .inl ⟨?_, ?_⟩
        · simp only [step, hConfig]
          split_ifs with hNumber
          · obtain ⟨_, hWrite⟩ := @paramWrite_refused config state field number value context
              fun hAccepts => hThrough ⟨hNumber, hAccepts⟩
            rw [hWrite]
          · rfl
        · rintro other place ⟨rfl, rfl, found, hFound, hAccepted⟩
          obtain rfl := Option.some.inj (hConfig.symm.trans hFound)
          exact hThrough hAccepted

section Alone

variable {own : ParamConfig} (hField : configs[field]? = some own)

include hField

theorem synced_iff (next : ParamState) : Synced configs next field number ↔
    next.registers (own.registerOf number) = some (next.paramRead field number) := by
  refine ⟨?_, fun h => ⟨own, hField, h⟩⟩
  rintro ⟨other, hOther, h⟩
  obtain rfl := Option.some.inj (hField.symm.trans hOther)
  exact h

/-- As long as no other write reaches the register, only a write of the instance brings the cache
and the register together, and nothing parts them. -/
theorem synced_step {event : ParamEvent}
    (hAlone : event.Reaches configs (own.registerOf number) → event.Writes configs field number) :
    Synced configs (state.step configs event) field number ↔
      Synced configs state field number ∨ event.Writes configs field number := by
  rw [synced_iff hField, synced_iff hField]
  cases event with
  | changed written place =>
      simp only [step, ParamEvent.Writes, or_false, paramRead_changed]
      rfl
  | write written place value context =>
      obtain ⟨hStep, hNot⟩ | ⟨config, registers, hConfig, hPlace, hAccepts, hStep, hTaken, hFrame⟩ :=
        step_write configs state written place value context
      · rw [hStep]
        exact ⟨.inl, fun h => h.resolve_right (hNot field number)⟩
      · have hRead := @paramRead_setValue state written place
          { value := value, updateIndex := state.index + 1 } field number
        rw [hStep]
        change registers (own.registerOf number) =
          some ((state.setValue written place _).paramRead field number) ↔ _
        rw [hRead]
        by_cases hSame : field = written ∧ number = place
        · obtain ⟨rfl, rfl⟩ := hSame
          obtain rfl := Option.some.inj (hField.symm.trans hConfig)
          rw [if_pos ⟨rfl, rfl⟩, hTaken]
          exact iff_of_true rfl (.inr ⟨rfl, rfl, own, hField, hPlace, hAccepts⟩)
        · -- another instance is written, and nothing of that is the register of this one
          have hOther : ¬ (ParamEvent.write written place value context).Writes configs field
              number := by
            rintro ⟨rfl, rfl, _⟩
            exact hSame ⟨rfl, rfl⟩
          have hNe : own.registerOf number ≠ config.registerOf place := fun hEq =>
            hOther (hAlone ⟨config, hConfig, hPlace, hAccepts, .inl hEq⟩)
          have hBeside : own.registerOf number ∉ config.writeRegisters place := fun hMem =>
            hOther (hAlone ⟨config, hConfig, hPlace, hAccepts, .inr hMem⟩)
          rw [if_neg hSame, hFrame _ hNe hBeside]
          exact ⟨.inl, fun h => h.resolve_right hOther⟩

theorem synced_run {events : List ParamEvent}
    (hAlone : ∀ event ∈ events, event.Reaches configs (own.registerOf number) →
      event.Writes configs field number) :
    Synced configs (run configs events state) field number ↔
      Synced configs state field number ∨ ∃ event ∈ events, event.Writes configs field number := by
  induction events generalizing state with
  | nil => simp [run]
  | cons event rest ih =>
      have hRest := @ih (state.step configs event)
        fun later hMem => hAlone later (List.mem_cons_of_mem _ hMem)
      rw [run, List.foldl_cons, ← run, hRest,
        synced_step hField (hAlone event List.mem_cons_self), or_assoc]
      simp

end Alone

end ParamState

open ParamState in
/-- After the configuration is loaded and any events of which no other reaches the register of an
instance, the cache of the instance is what its register was last written with exactly when a write
of it has gone through. A write that fails leaves caches, update indices and all registers as they
were. -/
theorem param_cache_eq_register_iff {width : Nat} {configs : List ParamConfig}
    {contexts : Nat → Nat → WriteContext} {loaded : ParamState}
    (hLoad : loadConfigDatabases width configs contexts = .ok loaded) (events : List ParamEvent) :
    (∀ field config number, configs[field]? = some config →
      (∀ event ∈ events, event.Reaches configs (config.registerOf number) →
        event.Writes configs field number) →
      (Synced configs (run configs events loaded) field number ↔
        ∃ event ∈ events, event.Writes configs field number)) ∧
    ∀ config field number value context message,
      ((run configs events loaded).paramWrite config field number value context).2 = some message →
      ((run configs events loaded).paramWrite config field number value context).1 =
        run configs events loaded := by
  refine ⟨fun field config number hField hAlone => ?_,
    fun _ _ _ _ _ _ hFailed => paramWrite_failed hFailed⟩
  have hFirst : ¬ Synced configs loaded field number := by
    rintro ⟨found, _, hSynced⟩
    rw [registers_of_load hLoad] at hSynced
    exact absurd hSynced nofun
  exact (synced_run hField hAlone).trans ⟨fun h => h.resolve_left hFirst, .inr⟩

/-- One instance with the default 7 in a hardware register, and two in the extension server, which
is told of register 5 and has register 6 written. -/
def defaultSeven : List ParamConfig :=
  [{ count := 1, blockBase := 2, register := .simple 3, line := [' ', '=', '7'] },
    { count := 2, blockBase := 2, register := .extension ⟨4, [5], [6]⟩, line := [] }]

def quietContext (answer : ServerLine) : WriteContext :=
  { width := 64, reads := fun _ => 12, answer := answer }

def loadedSeven : ParamState :=
  (ParamState.loadConfigDatabases 64 defaultSeven fun _ _ => quietContext .lost).toOption.getD
    { values := fun _ _ => ⟨0, 0⟩, registers := fun _ => none, index := 0 }

/-- A write to the hardware, one that the extension server takes, and one that it refuses. -/
def someWrites : List ParamEvent :=
  [.write 0 0 5 (quietContext .notRunning),
    .write 1 1 9 (quietContext (.response ['W', '8'])),
    .write 1 1 10 (quietContext (.response ['E', 'n', 'o']))]

theorem written_param_synced :
    ParamState.loadConfigDatabases 64 defaultSeven (fun _ _ => quietContext .lost) =
      .ok loadedSeven ∧
    ParamState.Synced defaultSeven (ParamState.run defaultSeven someWrites loadedSeven) 1 1 ∧
    (ParamState.run defaultSeven someWrites loadedSeven).paramRead 1 1 = 9 ∧
    (ParamState.run defaultSeven someWrites loadedSeven).registers
      (.hardware (makeOffset 2 1 6)) = some 8 := by
  have hLoad : ParamState.loadConfigDatabases 64 defaultSeven (fun _ _ => quietContext .lost) =
      .ok loadedSeven := rfl
  have hAlone : ∀ event ∈ someWrites, event.Reaches defaultSeven (.extension 4 1) →
      event.Writes defaultSeven 1 1 := by
    intro event hMem hReaches
    simp only [someWrites, List.mem_cons, List.not_mem_nil, or_false] at hMem
    obtain rfl | rfl | rfl := hMem
    · obtain ⟨config, hConfig, _, _, hRegister⟩ := hReaches
      obtain rfl := Option.some.inj hConfig
      exact absurd hRegister (by decide)
    · obtain ⟨config, hConfig, hPlace, hAccepts, _⟩ := hReaches
      exact ⟨rfl, rfl, config, hConfig, hPlace, hAccepts⟩
    · obtain ⟨config, hConfig, hPlace, hAccepts, _⟩ := hReaches
      exact ⟨rfl, rfl, config, hConfig, hPlace, hAccepts⟩
  refine ⟨hLoad, ((param_cache_eq_register_iff hLoad someWrites).1 1 _ 1 rfl hAlone).mpr ?_, rfl,
    rfl⟩
  exact ⟨_, List.mem_cons_of_mem _ List.mem_cons_self, rfl, rfl, _, rfl, by decide, [8], rfl⟩

/-- The default is read back, and was never written to the register. -/
theorem default_not_written :
    ParamState.loadConfigDatabases 64 defaultSeven (fun _ _ => quietContext .lost) =
      .ok loadedSeven ∧
    loadedSeven.paramRead 0 0 = 7 ∧ loadedSeven.registers (.hardware (makeOffset 2 0 3)) = none :=
  ⟨rfl, rfl, rfl⟩

end Server
