import PandaBridge.Lqr.MacEngine

/-! Whole passes of the engine. A row takes one clock a column and five more; the
operands meet their gains in the lane, and the bank swap of a pass happens before
any gain of it is used. -/
namespace Lqr

open FixedPoint Clocked

namespace MacEngine

variable {dims : EngineDims} (run : Run (MacEngine.step dims))

/-! ## Latencies -/

/-- Operand, enable and load are at the lane two edges after the clock of FEED. -/
theorem operand_latency (clock : Nat)
    (hInit : ∀ later, clock ≤ later → later ≤ clock + 1 → (run.input later).init = false) :
    (run.state (clock + 2)).laneA =
        (if (run.state clock).state = .feed then (run.input clock).x (run.state clock).col
          else (run.state clock).xaP1) ∧
      (run.state (clock + 2)).laneEn = decide ((run.state clock).state = .feed) ∧
      (run.state (clock + 2)).laneLoad =
        decide ((run.state clock).state = .feed ∧ (run.state clock).col = 0) := by
  have hFirst := step_stage1 dims (run.state clock) (hInit clock (by omega) (by omega))
  have hSecond := step_stage2 dims (run.state (clock + 1)) (hInit (clock + 1) (by omega) (by omega))
  rw [← run.edge] at hFirst hSecond
  obtain ⟨hXa, hEnP1, hLdP1⟩ := hFirst
  obtain ⟨hA, hEn, hLoad⟩ := hSecond
  exact ⟨hA.trans hXa, hEn.trans hEnP1, hLoad.trans hLdP1⟩

/-- The gain is there at the same time, from the bank active by then. -/
theorem gain_latency (clock : Nat) :
    (run.state (clock + 2)).store.rdData =
      ((run.state clock).store.stores (run.state (clock + 2)).store.activeBuf).ram
        ((run.state clock).gainAddr dims) := by
  have hSecond : ∀ bank, ((run.state (clock + 2)).store.stores bank).rdR =
      ((run.state (clock + 1)).store.stores bank).rdM := by
    intro bank
    rw [run.edge (clock + 1), step_store]
    rfl
  have hFirst : ∀ bank, ((run.state (clock + 1)).store.stores bank).rdM =
      ((run.state clock).store.stores bank).ram ((run.state clock).gainAddr dims) := by
    intro bank
    rw [run.edge clock, step_store]
    rfl
  rw [BramBuffer.rdData, hSecond, hFirst]

theorem bank_held {first last : Nat}
    (hQuiet : ∀ clock, first ≤ clock → clock < last →
      (run.input clock).init = false ∧ (run.state clock).passStart = false)
    {clock : Nat} (hFirst : first ≤ clock) (hLast : clock ≤ last) :
    (run.state clock).store.activeBuf = (run.state first).store.activeBuf ∧
      (run.state clock).store.activeBank = (run.state first).store.activeBank := by
  have hKept : ∀ clock, first ≤ clock → clock < last →
      ((run.state (clock + 1)).store.activeBuf, (run.state (clock + 1)).store.activeBank) =
        ((run.state clock).store.activeBuf, (run.state clock).store.activeBank) := by
    intro clock hFirst hLast
    obtain ⟨hInit, hPass⟩ := hQuiet clock hFirst hLast
    obtain ⟨hActive, -, -⟩ := BramBuffer.step_keep engineBuffers (run.state clock).store
      ((run.state clock).storeInput dims (run.input clock)) hInit (by rw [storeInput, hPass]; rfl)
    have hRam := BramBuffer.step_ram_of_ne_writeBuff engineBuffers (run.state clock).store
      ((run.state clock).storeInput dims (run.input clock))
      (BramBuffer.writeBuff_ne_activeBuf engineBuffers (run.state clock).store (by decide))
    rw [run.edge, step_store, BramBuffer.activeBank, hActive, hRam]
    rfl
  exact Prod.mk.inj (stable_of_kept
    (fun clock => ((run.state clock).store.activeBuf, (run.state clock).store.activeBank))
    first last hKept hFirst hLast)

/-! ## One row -/

section Row

variable {run} {clock row : Nat}
  (hInit : ∀ later, clock ≤ later → later < clock + dims.n + 5 → (run.input later).init = false)
  (hAt : (run.state clock).At .feed row 0 0)

include hInit hAt

theorem row_feed {c : Nat} (hc : c < dims.n) : (run.state (clock + c)).At .feed row c 0 := by
  induction c with
  | zero => exact hAt
  | succ c ih =>
      have hStep := step_feed dims (hInit (clock + c) (by omega) (by omega))
        (ih (by omega))
      rw [if_neg (by omega), if_neg (by omega)] at hStep
      rw [← Nat.add_assoc, run.edge]
      exact hStep

theorem row_drain {d : Nat} (hd : d < 4) :
    (run.state (clock + dims.n + d)).At .drain row 0 d := by
  induction d with
  | zero =>
      obtain ⟨less, hLess⟩ : ∃ less, dims.n = less + 1 := ⟨dims.n - 1, by have := dims.n_pos; omega⟩
      have hLast := row_feed hInit hAt (show less < dims.n by omega)
      have hStep := step_feed dims (hInit (clock + less) (by omega) (by omega)) hLast
      rw [if_pos (by omega), if_pos (by omega)] at hStep
      rw [hLess, Nat.add_zero, ← Nat.add_assoc, run.edge]
      exact hStep
  | succ d ih =>
      have hStep := step_drain dims (hInit (clock + dims.n + d) (by omega) (by omega))
        (ih (by omega))
      rw [if_neg (by omega), if_neg (by omega)] at hStep
      rw [← Nat.add_assoc, run.edge]
      exact hStep

theorem row_capture : (run.state (clock + dims.n + 4)).At .capture row 0 0 := by
  have hStep := step_drain dims (hInit (clock + dims.n + 3) (by omega) (by omega))
    (row_drain hInit hAt (show 3 < 4 by decide))
  rw [if_pos rfl, if_pos rfl] at hStep
  rw [run.edge]
  exact hStep

theorem row_next :
    (run.state (clock + dims.n + 5)).At (if row < dims.m - 1 then .feed else .done)
        (if row < dims.m - 1 then row + 1 else row) 0 0 ∧
      (run.state (clock + dims.n + 5)).u =
        Function.update (run.state (clock + dims.n + 4)).u row
          (run.state (clock + dims.n + 4)).laneAcc := by
  rw [run.edge]
  exact step_capture dims (hInit (clock + dims.n + 4) (by omega) (by omega)) (row_capture hInit hAt)

/-- A row keeps the engine away from IDLE and DONE, and before its last clock from
CAPTURE. -/
theorem row_busy {later : Nat} (hFrom : clock ≤ later) (hTo : later < clock + dims.n + 5) :
    (run.state later).state ≠ .idle ∧ (run.state later).state ≠ .done ∧
      (later < clock + dims.n + 4 → (run.state later).state ≠ .capture) := by
  obtain ⟨k, rfl⟩ : ∃ k, later = clock + k := ⟨later - clock, by omega⟩
  rcases Nat.lt_or_ge k dims.n with hFeed | hMore
  · rw [(row_feed hInit hAt hFeed).state_eq]
    exact ⟨nofun, nofun, nofun⟩
  · obtain ⟨d, rfl⟩ : ∃ d, k = dims.n + d := ⟨k - dims.n, by omega⟩
    rw [← Nat.add_assoc] at hTo ⊢
    rcases Nat.lt_or_ge d 4 with hDrain | hLast
    · rw [(row_drain hInit hAt hDrain).state_eq]
      exact ⟨nofun, nofun, nofun⟩
    · obtain rfl : d = 4 := by omega
      rw [(row_capture hInit hAt).state_eq]
      exact ⟨nofun, nofun, fun hBefore => absurd hBefore (Nat.lt_irrefl _)⟩

theorem row_lane :
    (run.state (clock + dims.n + 4)).laneAcc =
      laneSum (fun c => (run.input (clock + c)).x c)
        (fun c => (run.state (clock + c + 2)).store.rdData) laneAccW dims.n := by
  let lane : Run (MacLane.step : MacLane → MacLane.Input laneAW laneBW → MacLane) :=
    run.component MacLane.step MacEngine.lane laneInput fun engine input => step_lane engine input
  have hFeed : ∀ c < dims.n, (run.state (clock + 2 + c)).laneA = (run.input (clock + c)).x c ∧
      (run.state (clock + 2 + c)).laneEn = true ∧
      (run.state (clock + 2 + c)).laneLoad = decide (c = 0) := by
    intro c hc
    have hOperand := operand_latency run (clock + c) fun later hFrom hTo =>
      hInit later (by omega) (by omega)
    have hHere := row_feed hInit hAt hc
    rw [hHere.state_eq, hHere.col_eq, if_pos rfl] at hOperand
    rw [Nat.add_right_comm clock 2 c]
    simpa using hOperand
  have hAcc := MacLane.acc_of_row (fun c => (run.input (clock + c)).x c)
    (fun c => (run.state (clock + c + 2)).store.rdData) lane (clock + 2) dims.n_pos
    (fun later hFrom hTo => hInit later (by omega) (by omega))
    (fun c hc => (hFeed c hc).2.1) (fun c hc => (hFeed c hc).2.2) (fun c hc => (hFeed c hc).1)
    (fun c _ => by
      show (run.state (clock + 2 + c)).store.rdData = _
      rw [Nat.add_right_comm clock 2 c]) laneAccW
  rw [Nat.add_right_comm clock 2 dims.n] at hAcc
  exact hAcc

theorem row_u :
    (run.state (clock + dims.n + 5)).u =
      Function.update (run.state clock).u row
        (laneSum (fun c => (run.input (clock + c)).x c)
          (fun c => (run.state (clock + c + 2)).store.rdData) laneAccW dims.n) := by
  have hKept : (run.state (clock + dims.n + 4)).u = (run.state clock).u := by
    apply stable_of_kept (fun later => (run.state later).u) clock (clock + dims.n + 4)
    · intro later hFrom hTo
      have hState := (row_busy hInit hAt hFrom (by omega)).2.2 hTo
      rw [run.edge]
      exact step_u dims (run.state later) (hInit later hFrom (by omega)) hState
    · omega
    · omega
  rw [(row_next hInit hAt).2, row_lane hInit hAt, hKept]

end Row

/-! ## One pass -/

/-- Clocks from the start of a pass to its done flag. -/
def passLatency (dims : EngineDims) : Nat := dims.m * (dims.n + 5) + 2

/-- The first clock of a row. -/
def rowClock (dims : EngineDims) (start row : Nat) : Nat := start + 1 + row * (dims.n + 5)

theorem rowClock_succ (start row : Nat) :
    rowClock dims start (row + 1) = rowClock dims start row + dims.n + 5 := by
  rw [rowClock, rowClock, Nat.succ_mul]
  omega

theorem rowClock_le (start : Nat) {row : Nat} (hRow : row ≤ dims.m) :
    rowClock dims start row + 1 ≤ start + passLatency dims := by
  have hMul : row * (dims.n + 5) ≤ dims.m * (dims.n + 5) := Nat.mul_le_mul_right _ hRow
  rw [rowClock, passLatency]
  omega

/-- The bank of the pass that starts at a clock: the one under fill if a commit is
pending when the pass begins, and else the active one. -/
def passGains (run : Run (MacEngine.step dims)) (start : Nat) : Nat → BitVec laneBW :=
  let store := (run.state (start + 1)).store
  if store.pending then store.fillBank engineBuffers else store.activeBank

section Pass

variable {run} {start before : Nat}
  (hInit : ∀ clock, start ≤ clock → clock < start + passLatency dims →
    (run.input clock).init = false)
  (hAt : (run.state start).At .idle before 0 0) (hStart : (run.input start).start = true)

include hInit

theorem row_not_init {row : Nat} (hRow : row < dims.m) {later : Nat}
    (hFrom : rowClock dims start row ≤ later)
    (hTo : later < rowClock dims start row + dims.n + 5) : (run.input later).init = false := by
  have hBefore : rowClock dims start (row + 1) + 1 ≤ start + passLatency dims :=
    rowClock_le start hRow
  rw [rowClock_succ] at hBefore
  unfold rowClock at hFrom
  exact hInit later (by omega) (by omega)

include hAt hStart

theorem pass_row {row : Nat} (hRow : row < dims.m) :
    (run.state (rowClock dims start row)).At .feed row 0 0 := by
  induction row with
  | zero =>
      have hStep := step_idle dims (hInit start (by omega) (by unfold passLatency; omega)) hAt
      rw [hStart, if_pos rfl, if_pos rfl, ← run.edge] at hStep
      rw [rowClock, Nat.zero_mul]
      exact hStep
  | succ row ih =>
      have hNext := (row_next (fun _ => row_not_init hInit (by omega)) (ih (by omega))).1
      rw [if_pos (by omega), if_pos (by omega)] at hNext
      rw [rowClock_succ]
      exact hNext

theorem pass_finish : (run.state (rowClock dims start dims.m)).At .done (dims.m - 1) 0 0 := by
  obtain ⟨less, hLess⟩ : ∃ less, dims.m = less + 1 := ⟨dims.m - 1, by have := dims.m_pos; omega⟩
  have hLast := pass_row hInit hAt hStart (show less < dims.m by omega)
  have hNext := (row_next (fun _ => row_not_init hInit (by omega)) hLast).1
  rw [if_neg (by omega), if_neg (by omega), ← rowClock_succ, ← hLess] at hNext
  rw [show dims.m - 1 = less by omega]
  exact hNext

theorem pass_busy {clock : Nat} (hFrom : start < clock)
    (hTo : clock < rowClock dims start dims.m) :
    (run.state clock).state ≠ .idle ∧ (run.state clock).state ≠ .done := by
  have hPos : 0 < dims.n + 5 := by omega
  have hSplit := Nat.div_add_mod (clock - start - 1) (dims.n + 5)
  have hRest := Nat.mod_lt (clock - start - 1) hPos
  have hRow : (clock - start - 1) / (dims.n + 5) < dims.m := by
    rw [Nat.div_lt_iff_lt_mul hPos]
    unfold rowClock at hTo
    omega
  generalize (clock - start - 1) / (dims.n + 5) = row at *
  rw [Nat.mul_comm] at hSplit
  have hFirst : rowClock dims start row ≤ clock := by
    unfold rowClock
    omega
  have hLast : clock < rowClock dims start row + dims.n + 5 := by
    unfold rowClock
    omega
  have hBusy := row_busy (fun _ => row_not_init hInit hRow) (pass_row hInit hAt hStart hRow)
    hFirst hLast
  exact ⟨hBusy.1, hBusy.2.1⟩

theorem pass_not_idle {clock : Nat} (hFrom : start < clock)
    (hTo : clock < start + passLatency dims) : (run.state clock).state ≠ .idle := by
  rcases Nat.lt_or_ge clock (rowClock dims start dims.m) with hRows | hLast
  · exact (pass_busy hInit hAt hStart hFrom hRows).1
  · obtain rfl : clock = rowClock dims start dims.m := by
      unfold rowClock at hLast ⊢
      unfold passLatency at hTo
      omega
    rw [(pass_finish hInit hAt hStart).state_eq]
    exact nofun

theorem pass_passStart {clock : Nat} (hFrom : start + 2 ≤ clock)
    (hTo : clock ≤ start + passLatency dims) : (run.state clock).passStart = false := by
  obtain ⟨prior, rfl⟩ : ∃ prior, clock = prior + 1 := ⟨clock - 1, by omega⟩
  rw [run.edge, step_passStart dims _ (hInit prior (by omega) (by omega)),
    decide_eq_false (pass_not_idle hInit hAt hStart (by omega) (by omega)), Bool.false_and]

theorem pass_done {clock : Nat} (hFrom : start < clock) (hTo : clock < start + passLatency dims) :
    (run.state clock).done = false := by
  induction clock, hFrom using Nat.le_induction with
  | base =>
      rw [run.edge, step_done dims _ (hInit start (by omega) (by omega)) (.inl hAt.state_eq),
        hAt.state_eq]
      rfl
  | succ clock hFrom ih =>
      have hRows : clock < rowClock dims start dims.m := by
        unfold passLatency at hTo
        unfold rowClock
        omega
      rw [run.edge, step_done dims _ (hInit clock (by omega) (by omega)) (.inr (ih (by omega))),
        decide_eq_false (pass_busy hInit hAt hStart hFrom hRows).2]

theorem pass_end :
    (run.state (start + passLatency dims)).At .idle (dims.m - 1) 0 0 ∧
      (run.state (start + passLatency dims)).done = true ∧
      (run.state (start + passLatency dims)).u = (run.state (rowClock dims start dims.m)).u := by
  have hLast : start + passLatency dims = rowClock dims start dims.m + 1 := by
    unfold passLatency rowClock
    omega
  have hFrom : start < rowClock dims start dims.m := by
    unfold rowClock
    omega
  have hClear := hInit (rowClock dims start dims.m) (by omega) (by omega)
  have hFinish := pass_finish hInit hAt hStart
  have hLow := pass_done hInit hAt hStart hFrom (by omega)
  rw [hLast, run.edge]
  constructor
  · exact step_finish dims hClear hFinish
  · constructor
    · rw [step_done dims _ hClear (.inr hLow), hFinish.state_eq]
      rfl
    · exact step_u dims _ hClear (by rw [hFinish.state_eq]; exact nofun)

/-! ### The bank of a pass -/

theorem pass_begins : (run.state (start + 1)).passStart = true := by
  rw [run.edge, step_passStart dims _ (hInit start (by omega) (by unfold passLatency; omega)),
    hAt.state_eq, hStart]
  rfl

/-- The bank that is active after the swap clock of the pass: the committed one if a
commit was pending then, and else the old one. -/
theorem pass_bank :
    (run.state (start + 2)).store.activeBuf =
      if (run.state (start + 1)).store.pending then
        (run.state (start + 1)).store.writeBuff engineBuffers
      else (run.state (start + 1)).store.activeBuf := by
  have hClear := hInit (start + 1) (by omega) (by unfold passLatency; omega)
  have hPass := pass_begins hInit hAt hStart
  rw [run.edge (start + 1), step_store]
  cases hPending : (run.state (start + 1)).store.pending with
  | false =>
      exact (BramBuffer.step_keep engineBuffers _ _ hClear (by rw [hPending, Bool.and_false])).1
  | true => exact (BramBuffer.step_swap engineBuffers _ _ hClear hPass hPending).1

theorem pass_bank_words
    (hWrite : (run.state (start + 1)).store.pending = true →
      (run.input (start + 1)).wrEn = false) :
    ((run.state (start + 1)).store.stores (run.state (start + 2)).store.activeBuf).ram =
      (run.state (start + 2)).store.activeBank := by
  rw [BramBuffer.activeBank]
  have hBank := pass_bank hInit hAt hStart
  generalize (run.state (start + 2)).store.activeBuf = bank at hBank ⊢
  rw [run.edge (start + 1), step_store]
  cases hPending : (run.state (start + 1)).store.pending with
  | false =>
      rw [hPending, if_neg Bool.false_ne_true] at hBank
      rw [hBank]
      exact (BramBuffer.step_ram_of_ne_writeBuff engineBuffers _ _
        (BramBuffer.writeBuff_ne_activeBuf engineBuffers _ (by decide))).symm
  | true => exact (BramBuffer.step_ram_of_not_wrEn engineBuffers _ _ (hWrite hPending) bank).symm

theorem activeBank_eq_passGains
    (hWrite : (run.state (start + 1)).store.pending = true →
      (run.input (start + 1)).wrEn = false) :
    (run.state (start + 2)).store.activeBank = passGains run start := by
  rw [← pass_bank_words hInit hAt hStart hWrite, pass_bank hInit hAt hStart, passGains]
  cases (run.state (start + 1)).store.pending with
  | false => rfl
  | true => rfl

theorem pass_bank_held {clock : Nat} (hFrom : start + 2 ≤ clock)
    (hTo : clock ≤ start + passLatency dims) :
    (run.state clock).store.activeBuf = (run.state (start + 2)).store.activeBuf ∧
      (run.state clock).store.activeBank = (run.state (start + 2)).store.activeBank :=
  bank_held run (fun _ hFirst hLast =>
    ⟨hInit _ (by omega) hLast, pass_passStart hInit hAt hStart hFirst (by omega)⟩) hFrom hTo

/-- The gains that a row meets in the lane are its words of that bank. -/
theorem pass_gain
    (hWrite : (run.state (start + 1)).store.pending = true →
      (run.input (start + 1)).wrEn = false)
    {row c : Nat} (hRow : row < dims.m) (hc : c < dims.n) :
    (run.state (rowClock dims start row + c + 2)).store.rdData =
      (run.state (start + 2)).store.activeBank (row * dims.n + c) := by
  have hFrom : start + 1 ≤ rowClock dims start row + c := by
    unfold rowClock
    omega
  have hTo : rowClock dims start (row + 1) + 1 ≤ start + passLatency dims := rowClock_le start hRow
  rw [rowClock_succ] at hTo
  have hFeed := row_feed (fun _ => row_not_init hInit hRow) (pass_row hInit hAt hStart hRow) hc
  have hAddr : (run.state (rowClock dims start row + c)).gainAddr dims = row * dims.n + c := by
    rw [gainAddr, hFeed.row_eq, hFeed.col_eq]
    apply Nat.mod_eq_of_lt
    have hRows : (row + 1) * dims.n ≤ dims.m * dims.n := Nat.mul_le_mul_right _ hRow
    rw [Nat.succ_mul] at hRows
    have hDepth := le_two_pow_ceilLog2 (dims.m * dims.n)
    omega
  rw [gain_latency, hAddr, (pass_bank_held hInit hAt hStart (by omega) (by omega)).1]
  rcases Nat.eq_or_lt_of_le hFrom with hSwap | hLater
  · rw [← hSwap, pass_bank_words hInit hAt hStart hWrite]
  · obtain ⟨hBuf, hWords⟩ := pass_bank_held hInit hAt hStart hLater (by omega)
    rw [← hWords, BramBuffer.activeBank, hBuf]

theorem pass_u {row : Nat} (hRow : row ≤ dims.m) {r : Nat} (hr : r < row) :
    (run.state (rowClock dims start row)).u r =
      laneSum (fun c => (run.input (rowClock dims start r + c)).x c)
        (fun c => (run.state (rowClock dims start r + c + 2)).store.rdData) laneAccW dims.n := by
  induction row with
  | zero => exact absurd hr (Nat.not_lt_zero r)
  | succ row ih =>
      rw [rowClock_succ, row_u (fun _ => row_not_init hInit hRow) (pass_row hInit hAt hStart hRow)]
      by_cases hHere : r = row
      · rw [hHere, Function.update_self]
      · rw [Function.update_of_ne hHere, ih (by omega) (by omega)]

/-- What a pass leaves in its results: for every row the lane's sum over the vector
and the words of the bank. -/
theorem pass_result (x : Nat → BitVec laneAW)
    (hX : ∀ clock, start ≤ clock → clock < start + passLatency dims → ∀ c < dims.n,
      (run.input clock).x c = x c)
    (hWrite : (run.state (start + 1)).store.pending = true →
      (run.input (start + 1)).wrEn = false) {r : Nat} (hr : r < dims.m) :
    (run.state (start + passLatency dims)).u r =
      laneSum x (fun c => (run.state (start + 2)).store.activeBank (r * dims.n + c)) laneAccW
        dims.n := by
  have hTo : rowClock dims start (r + 1) + 1 ≤ start + passLatency dims := rowClock_le start hr
  rw [rowClock_succ] at hTo
  rw [(pass_end hInit hAt hStart).2.2, pass_u hInit hAt hStart (Nat.le_refl _) hr]
  apply laneSum_congr
  · intro c hc
    exact hX _ (by unfold rowClock; omega) (by omega) c hc
  · intro c hc
    exact pass_gain hInit hAt hStart hWrite hr hc

end Pass

/-! ## The product -/

/-- Outside FEED the column is zero, and outside DRAIN the drain counter is. -/
structure Settled (engine : MacEngine) : Prop where
  col : engine.state ≠ .feed → engine.col = 0
  drainCnt : engine.state ≠ .drain → engine.drainCnt = 0

theorem Settled.step {engine : MacEngine} (h : engine.Settled) (input : Input) :
    (engine.step dims input).Settled := by
  cases hInit : input.init with
  | true =>
      rw [MacEngine.step, hInit]
      exact ⟨fun _ => rfl, fun _ => rfl⟩
  | false =>
      have hCol := h.col
      have hDrain := h.drainCnt
      cases hState : engine.state with
      | idle =>
          rw [hState] at hCol hDrain
          have hNext := step_idle dims hInit ⟨hState, rfl, hCol (by simp), hDrain (by simp)⟩
          exact ⟨fun _ => hNext.col_eq, fun _ => hNext.drainCnt_eq⟩
      | feed =>
          rw [hState] at hDrain
          have hNext := step_feed dims hInit ⟨hState, rfl, rfl, hDrain (by simp)⟩
          split_ifs at hNext
          · exact ⟨fun _ => hNext.col_eq, fun _ => hNext.drainCnt_eq⟩
          · exact ⟨fun hOther => absurd hNext.state_eq hOther, fun _ => hNext.drainCnt_eq⟩
      | drain =>
          rw [hState] at hCol
          have hNext := step_drain dims hInit ⟨hState, rfl, hCol (by simp), rfl⟩
          split_ifs at hNext
          · exact ⟨fun _ => hNext.col_eq, fun _ => hNext.drainCnt_eq⟩
          · exact ⟨fun _ => hNext.col_eq, fun hOther => absurd hNext.state_eq hOther⟩
      | capture =>
          rw [hState] at hCol hDrain
          have hNext := (step_capture dims hInit ⟨hState, rfl, hCol (by simp), hDrain (by simp)⟩).1
          exact ⟨fun _ => hNext.col_eq, fun _ => hNext.drainCnt_eq⟩
      | done =>
          rw [hState] at hCol hDrain
          have hNext := step_finish dims hInit ⟨hState, rfl, hCol (by simp), hDrain (by simp)⟩
          exact ⟨fun _ => hNext.col_eq, fun _ => hNext.drainCnt_eq⟩

theorem Settled.at_idle {engine : MacEngine} (h : engine.Settled) (hIdle : engine.state = .idle) :
    engine.At .idle engine.row 0 0 :=
  ⟨hIdle, rfl, h.col (by rw [hIdle]; exact nofun), h.drainCnt (by rw [hIdle]; exact nofun)⟩

theorem PowerUp.settled {engine : MacEngine} (h : engine.PowerUp) : engine.Settled :=
  ⟨fun _ => h.col, fun _ => h.drainCnt⟩

end MacEngine

/-- Every pass ends, and it leaves the product of its gain bank with the vector. The
bank is the one active from the swap to the end, whatever is written or committed
meanwhile; only the clock of the swap must be without a write. -/
theorem mac_engine_product {dims : EngineDims} (run : Run (MacEngine.step dims))
    (hColumns : dims.n ≤ 64) (hPower : (run.state 0).PowerUp) (start : Nat)
    (hIdle : (run.state start).state = .idle) (hStart : (run.input start).start = true)
    (hInit : ∀ clock, start ≤ clock → clock < start + MacEngine.passLatency dims →
      (run.input clock).init = false)
    (x : Nat → BitVec laneAW)
    (hX : ∀ clock, start ≤ clock → clock < start + MacEngine.passLatency dims → ∀ c < dims.n,
      (run.input clock).x c = x c)
    (hWrite : (run.state (start + 1)).store.pending = true →
      (run.input (start + 1)).wrEn = false) :
    (∀ clock, start < clock → clock < start + MacEngine.passLatency dims →
        (run.state clock).done = false) ∧
      (run.state (start + MacEngine.passLatency dims)).done = true ∧
      (∀ clock, start + 2 ≤ clock → clock ≤ start + MacEngine.passLatency dims →
        (run.state clock).store.activeBank = MacEngine.passGains run start) ∧
      ∀ r < dims.m, ((run.state (start + MacEngine.passLatency dims)).u r).toInt =
        ∑ c ∈ Finset.range dims.n,
          (MacEngine.passGains run start (r * dims.n + c)).toInt * (x c).toInt := by
  have hSettled := run.invariant MacEngine.Settled hPower.settled
    (fun _ input h => h.step input) start
  have hAt := hSettled.at_idle hIdle
  have hGains := MacEngine.activeBank_eq_passGains hInit hAt hStart hWrite
  constructor
  · intro clock hFrom hTo
    exact MacEngine.pass_done hInit hAt hStart hFrom hTo
  · constructor
    · exact (MacEngine.pass_end hInit hAt hStart).2.1
    · constructor
      · intro clock hFrom hTo
        rw [(MacEngine.pass_bank_held hInit hAt hStart hFrom hTo).2, hGains]
      · intro r hr
        rw [MacEngine.pass_result hInit hAt hStart x hX hWrite hr, hGains,
          toInt_laneSum_of_le hColumns]
        apply Finset.sum_congr rfl
        intro c _
        exact Int.mul_comm _ _

/-- An engine at power up with a commit pending: the bank under fill holds the words from -3 on
and the active one fives. -/
def committedEngine : MacEngine where
  state := .idle
  row := 0
  col := 0
  drainCnt := 0
  xaP1 := 0
  enP1 := false
  ldP1 := false
  passStart := false
  laneA := 0
  laneLoad := false
  laneEn := false
  done := false
  u _ := 0
  lane := ⟨fun _ _ => ⟨false, false, false, 0, 0, 0, 0, 0⟩⟩
  store :=
    { stores := fun bank => ⟨fun word => if bank = 0 then BitVec.ofNat _ word - 3 else 5, 0, 0⟩
      activeBuf := 1
      pending := true
      gen := 0 }

/-- The vector 7, -2, 7. -/
def sampleVector (c : Nat) : BitVec laneAW := if c = 1 then -2 else 7

/-- A start in the first clock; from the swap on every clock writes a word and commits. -/
def writingInput (clock : Nat) : MacEngine.Input where
  init := false
  wrAddr := 0
  wrData := 9
  wrEn := 2 ≤ clock
  commit := 2 ≤ clock
  x := sampleVector
  start := clock = 0

theorem mac_engine_product_committed :
    let run := Run.ofInputs (MacEngine.step ⟨2, 3, by decide, by decide⟩) committedEngine
      writingInput
    (run.state 18).done = true ∧ ((run.state 18).u 0).toInt = -24 ∧
      ((run.state 18).u 1).toInt = 12 := by
  intro run
  have hProduct := mac_engine_product run (by decide) ⟨rfl, rfl, rfl, rfl, rfl, fun _ => rfl⟩ 0 rfl
    rfl (fun _ _ _ => rfl) sampleVector (fun _ _ _ _ _ => rfl) (fun _ => rfl)
  obtain ⟨-, hDone, -, hRows⟩ := hProduct
  refine ⟨hDone, ?_, ?_⟩
  · have hRow := hRows 0 (by decide)
    simp only [Finset.sum_range_succ, Finset.sum_range_zero] at hRow
    exact hRow.trans (by decide)
  · have hRow := hRows 1 (by decide)
    simp only [Finset.sum_range_succ, Finset.sum_range_zero] at hRow
    exact hRow.trans (by decide)

end Lqr
