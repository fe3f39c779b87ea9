import PandaBridge.Lqr.BridgeLoop
import PandaBridge.Lqr.StampWord

/-! The order in which the bridge optimises. The stamp word moves through the
exports in their order, a round reads only after a peek that saw another stamp
than the last one, and the stamp of the read is loaded after that peek. Lost
beats and torn snapshots do not matter for this. -/
namespace Lqr

open Concurrent

/-- The window with a record of the loads: `sampled` is the number of the stamp
loaded last, and `anchor` the number of the one that belongs to the last
successful read. The publisher is called after a successful read only, so its
accesses to the bus tell that the stamp loaded last was read. -/
structure WatchedWindow (cfg : ExportConfig) where
  window : WindowSystem cfg
  sampled : Nat
  anchor : Nat

/-- The window serving the bridge. The registers answer anything. -/
def watchedWorld (cfg : ExportConfig) :
    World (WatchedWindow cfg) (WindowChoice cfg.axes) Access Access.Answer where
  idle choice shared := { shared with window := shared.window.step choice.step }
  serve
    | .word index, _, shared => (shared.window.word index,
        if index = StateAbi.stampWord then { shared with sampled := shared.window.stamped }
        else shared)
    | .writeWord index value, _, shared =>
        ((), { shared with window := shared.window.poke index value })
    | .read32 reg, choice, shared => (choice.answer,
        if reg = .gen then { shared with anchor := shared.sampled } else shared)
    | .write32 _ _, _, shared => ((), { shared with anchor := shared.sampled })

section Order

variable {cfg : ExportConfig} {n : Nat} {Value Gains : Type}

/-- The window moves fairly, beats may be lost, and no stamp is loaded when
`2 ^ 31` exports have stamped the window since the last successful read. -/
def FewExports : Guard (WatchedWindow cfg) (Bridge n cfg.axes Value) (WindowChoice cfg.axes) Access :=
  fun shared self label => match label with
    | .idle choice => shared.window.Fair choice.step
    | .serve (.word index) _ => index = StateAbi.stampWord → 0 < self.solved.length →
        shared.window.stamped < shared.anchor + 2 ^ 31
    | _ => True

instance (shared : WatchedWindow cfg) (self : Bridge n cfg.axes Value) :
    (label : Label (WindowChoice cfg.axes) Access) → Decidable (FewExports shared self label)
  | .idle _ => inferInstanceAs (Decidable (WindowSystem.Fair _ _))
  | .serve (.word _) _ => inferInstanceAs (Decidable (_ → _ → _))
  | .serve (.writeWord _ _) _ => isTrue trivial
  | .serve (.read32 _) _ => isTrue trivial
  | .serve (.write32 _ _) _ => isTrue trivial
  | .finished => isTrue trivial

/-- Every answer of the publisher comes right after an operating point that was
passed to the optimiser. -/
def PublishesSolved {axes : Nat} (trace : List (BridgeEvent axes Value)) : Prop :=
  ∀ before generation after, trace = before ++ .published generation :: after →
    ∃ earlier point, before = earlier ++ [.solved point]

/-- The operating points belong to exports in their order, their stamps ascend
modulo `2 ^ 32`, no export is optimised twice, and a failed read neither moves
the last stamp nor publishes. -/
structure SolvedInOrder (bridge : Bridge n cfg.axes Value) (frozen : List (Export cfg.axes)) :
    Prop where
  exports : ∃ indices : List Nat, indices.Pairwise (· < ·) ∧
    List.Forall₂ (fun index point => ∃ sent, frozen[index]? = some sent ∧
      point.stamp = sent.stamp) indices bridge.solved
  ascending : (bridge.solved.map OperatingPoint.stamp).IsChain fun stamp next =>
    0 < (next - stamp).toNat ∧ (next - stamp).toNat < 2 ^ 31
  nodup : frozen.length < 2 ^ 32 → (bridge.solved.map OperatingPoint.stamp).Nodup
  lastStamp : bridge.lastStamp = (bridge.solved.getLast?.map OperatingPoint.stamp).getD 0
  publishes : PublishesSolved bridge.trace

/-- The number of exports that the solved ones leave behind. -/
def nextIndex (indices : List Nat) : Nat := (indices.getLast?.map (· + 1)).getD 0

@[simp] theorem nextIndex_append (indices : List Nat) (index : Nat) :
    nextIndex (indices ++ [index]) = index + 1 := by
  simp [nextIndex]

/-- What the bridge has solved so far: `indices` are the exports. -/
structure Solved (indices : List Nat) (bridge : Bridge n cfg.axes Value) (window : WindowSystem cfg) :
    Prop where
  stampInv : StampInv window
  matched : List.Forall₂ (fun index point => index < window.bus.frozen.length ∧
    point.stamp = BitVec.ofNat 32 (index + 1)) indices bridge.solved
  order : indices.IsChain fun index next => index < next ∧ next < index + 2 ^ 31
  lastStamp : bridge.lastStamp = BitVec.ofNat 32 (nextIndex indices)
  next_le : nextIndex indices ≤ window.stamped
  publishes : PublishesSolved bridge.trace

variable {indices : List Nat} {bridge : Bridge n cfg.axes Value} {window : WindowSystem cfg}

/-- An event at the end of the trace keeps the rule if it is no answer of the
publisher, or follows a solved operating point. -/
theorem PublishesSolved.append {axes : Nat} {trace : List (BridgeEvent axes Value)}
    (h : PublishesSolved trace) (event : BridgeEvent axes Value)
    (hEvent : ∀ generation, event = .published generation →
      ∃ earlier point, trace = earlier ++ [.solved point]) :
    PublishesSolved (trace ++ [event]) := by
  intro before generation after hSplit
  rcases List.eq_nil_or_concat after with rfl | ⟨init, last, rfl⟩
  · obtain ⟨rfl, hLast⟩ := List.append_inj' hSplit rfl
    exact hEvent generation (List.singleton_inj.mp hLast)
  · rw [List.concat_eq_append, ← List.cons_append, ← List.append_assoc] at hSplit
    exact h before generation init (List.append_inj' hSplit rfl).1

private theorem Solved.stamps (h : Solved indices bridge window) :
    bridge.solved.map OperatingPoint.stamp =
      indices.map fun index => BitVec.ofNat 32 (index + 1) := by
  have hMatched := h.matched
  generalize bridge.solved = points at hMatched ⊢
  clear h
  induction hMatched with
  | nil => rfl
  | cons hHead _ ih => rw [List.map_cons, List.map_cons, hHead.2, ih]

private theorem Solved.lt_length (h : Solved indices bridge window) :
    ∀ index ∈ indices, index < window.bus.frozen.length := by
  have hMatched := h.matched
  generalize bridge.solved = points at hMatched
  clear h
  induction hMatched with
  | nil => simp
  | cons hHead _ ih =>
      intro index hIndex
      rcases List.mem_cons.mp hIndex with rfl | hRest
      · exact hHead.1
      · exact ih index hRest

private theorem Solved.pairwise (h : Solved indices bridge window) : indices.Pairwise (· < ·) :=
  (h.order.imp fun _ _ hNext => hNext.1).pairwise

theorem Solved.solvedInOrder (h : Solved indices bridge window) :
    SolvedInOrder bridge window.bus.frozen := by
  refine ⟨⟨indices, h.pairwise, ?_⟩, ?_, ?_, ?_, h.publishes⟩
  · refine h.matched.imp ?_
    rintro index point ⟨hIndex, hStamp⟩
    refine ⟨window.bus.frozen[index], List.getElem?_eq_getElem hIndex, ?_⟩
    rw [hStamp, h.stampInv.numbered index _ (List.getElem?_eq_getElem hIndex)]
  · rw [h.stamps, List.isChain_map]
    refine h.order.imp ?_
    rintro index next ⟨hMore, hFew⟩
    rw [BitVec.toNat_sub, BitVec.toNat_ofNat, BitVec.toNat_ofNat]
    omega
  · intro hFew
    rw [h.stamps]
    refine List.Nodup.map_on ?_ (h.pairwise.imp Nat.ne_of_lt)
    intro index hIndex other hOther hSame
    have hBound := h.lt_length index hIndex
    have hOtherBound := h.lt_length other hOther
    have hNumber := congrArg BitVec.toNat hSame
    rw [BitVec.toNat_ofNat, BitVec.toNat_ofNat] at hNumber
    omega
  · rw [← List.getLast?_map, h.stamps, List.getLast?_map, h.lastStamp, nextIndex]
    cases indices.getLast? with
    | none => rfl
    | some index => rfl

theorem Solved.step {step : WindowStep cfg.axes} (h : Solved indices bridge window)
    (hFair : window.Fair step) : Solved indices bridge (window.step step) := by
  obtain ⟨hInv, hStep⟩ := h.stampInv.step hFair
  obtain ⟨hStamped, hFrozen⟩ := hStep.grows h.stampInv.stamped_le
  refine ⟨hInv, ?_, h.order, h.lastStamp, le_trans h.next_le hStamped, h.publishes⟩
  refine h.matched.imp ?_
  rintro index point ⟨hIndex, hStamp⟩
  exact ⟨lt_of_lt_of_le hIndex hFrozen.length_le, hStamp⟩

theorem Solved.congr {other : Bridge n cfg.axes Value} (h : Solved indices bridge window)
    (hStamp : other.lastStamp = bridge.lastStamp) (hPoints : other.solved = bridge.solved)
    (hTrace : PublishesSolved other.trace) : Solved indices other window :=
  ⟨h.stampInv, hPoints ▸ h.matched, h.order, hStamp.trans h.lastStamp, h.next_le, hTrace⟩

/-- The bridge takes the point of a later export than the last one. -/
theorem Solved.take {index : Nat} {point : OperatingPoint cfg.axes Value}
    (h : Solved indices bridge window) (hStamp : point.stamp = BitVec.ofNat 32 (index + 1))
    (hLater : nextIndex indices ≤ index) (hStamped : index < window.stamped)
    (hFew : indices ≠ [] → index + 1 < nextIndex indices + 2 ^ 31) :
    Solved (indices ++ [index]) (bridge.take point) window := by
  refine ⟨h.stampInv, ?_, ?_, ?_, ?_, ?_⟩
  · simp only [Bridge.solved, Bridge.take, List.filterMap_append]
    refine List.rel_append h.matched (.cons ⟨?_, hStamp⟩ .nil)
    exact lt_of_lt_of_le hStamped h.stampInv.stamped_le
  · refine h.order.append (List.isChain_singleton _) ?_
    intro last hLast next hNext
    obtain rfl : index = next := by simpa using hNext
    have hSome : indices ≠ [] := by
      intro hNil
      simp [hNil] at hLast
    have hBehind : nextIndex indices = last + 1 := by
      rw [nextIndex, Option.mem_def.mp hLast]
      rfl
    have hBound := hFew hSome
    omega
  · rw [nextIndex_append]
    exact hStamp
  · rw [nextIndex_append]
    exact hStamped
  · exact h.publishes.append _ fun generation hEvent => nomatch hEvent

/-- At the head of the loop. A stamp that the bridge has cleared still reads zero
until the next export writes it, and nothing was solved before that. -/
structure LoopHead (indices : List Nat) (bridge : Bridge n cfg.axes Value)
    (shared : WatchedWindow cfg) : Prop where
  solved : Solved indices bridge shared.window
  cleared : shared.window.clobbered = true →
    indices = [] ∧ shared.window.word StateAbi.stampWord = 0
  anchor : indices ≠ [] → shared.anchor = nextIndex indices

/-- After a peek that saw another stamp than the last one. -/
structure Fresh (indices : List Nat) (bridge : Bridge n cfg.axes Value)
    (shared : WatchedWindow cfg) : Prop where
  head : LoopHead indices bridge shared
  clobbered : shared.window.clobbered = false
  later : nextIndex indices < shared.window.stamped

/-- After a read has loaded the stamp of export `index`. -/
structure Loaded (indices : List Nat) (index : Nat) (bridge : Bridge n cfg.axes Value)
    (stamp : Word) (shared : WatchedWindow cfg) : Prop where
  head : LoopHead indices bridge shared
  clobbered : shared.window.clobbered = false
  later : nextIndex indices ≤ index
  stamped : index < shared.window.stamped
  sampled : shared.sampled = index + 1
  stamp_eq : stamp = BitVec.ofNat 32 (index + 1)
  few : indices ≠ [] → index + 1 < nextIndex indices + 2 ^ 31

variable {shared : WatchedWindow cfg} {choice : WindowChoice cfg.axes}

theorem LoopHead.idle (h : LoopHead indices bridge shared)
    (hFair : shared.window.Fair choice.step) :
    LoopHead indices bridge ((watchedWorld cfg).idle choice shared) := by
  refine ⟨h.solved.step hFair, ?_, h.anchor⟩
  intro hClobbered
  obtain ⟨hBefore, hWord⟩ :=
    (h.solved.stampInv.step hFair).2.word_of_clobbered hClobbered
  obtain ⟨hNone, hZero⟩ := h.cleared hBefore
  exact ⟨hNone, hWord.trans hZero⟩

/-- The stamp word stays valid and its number only grows. -/
private theorem LoopHead.later_step (h : LoopHead indices bridge shared)
    (hFair : shared.window.Fair choice.step) (hFresh : shared.window.clobbered = false) :
    (shared.window.step choice.step).clobbered = false ∧
      shared.window.stamped ≤ (shared.window.step choice.step).stamped := by
  have hStep := (h.solved.stampInv.step hFair).2
  refine ⟨?_, (hStep.grows h.solved.stampInv.stamped_le).1⟩
  by_contra hClobbered
  have hBefore := (hStep.word_of_clobbered (by simpa using hClobbered)).1
  rw [hFresh] at hBefore
  exact absurd hBefore Bool.false_ne_true

theorem Fresh.idle (h : Fresh indices bridge shared) (hFair : shared.window.Fair choice.step) :
    Fresh indices bridge ((watchedWorld cfg).idle choice shared) := by
  obtain ⟨hClobbered, hStamped⟩ := h.head.later_step hFair h.clobbered
  exact ⟨h.head.idle hFair, hClobbered, lt_of_lt_of_le h.later hStamped⟩

theorem Loaded.idle {index : Nat} {stamp : Word} (h : Loaded indices index bridge stamp shared)
    (hFair : shared.window.Fair choice.step) :
    Loaded indices index bridge stamp ((watchedWorld cfg).idle choice shared) := by
  obtain ⟨hClobbered, hStamped⟩ := h.head.later_step hFair h.clobbered
  exact ⟨h.head.idle hFair, hClobbered, h.later, lt_of_lt_of_le h.stamped hStamped, h.sampled,
    h.stamp_eq, h.few⟩

@[simp] private theorem serve_word_window (index : Nat) (choice : WindowChoice cfg.axes)
    (shared : WatchedWindow cfg) :
    ((watchedWorld cfg).serve (.word index) choice shared).2.window = shared.window ∧
      ((watchedWorld cfg).serve (.word index) choice shared).2.anchor = shared.anchor := by
  simp only [watchedWorld]
  split_ifs
  · exact ⟨rfl, rfl⟩
  · exact ⟨rfl, rfl⟩

theorem LoopHead.word (h : LoopHead indices bridge shared) (index : Nat)
    (choice : WindowChoice cfg.axes) :
    LoopHead indices bridge ((watchedWorld cfg).serve (.word index) choice shared).2 := by
  obtain ⟨hWindow, hAnchor⟩ := serve_word_window index choice shared
  refine ⟨?_, ?_, ?_⟩
  · rw [hWindow]
    exact h.solved
  · rw [hWindow]
    exact h.cleared
  · rw [hAnchor]
    exact h.anchor

theorem Fresh.word (h : Fresh indices bridge shared) (index : Nat)
    (choice : WindowChoice cfg.axes) :
    Fresh indices bridge ((watchedWorld cfg).serve (.word index) choice shared).2 := by
  obtain ⟨hWindow, _⟩ := serve_word_window index choice shared
  refine ⟨h.head.word index choice, ?_, ?_⟩
  · rw [hWindow]
    exact h.clobbered
  · rw [hWindow]
    exact h.later

/-- A peek at another stamp than the last one sees a later export: a cleared stamp
reads as the initial last stamp. -/
theorem LoopHead.fresh (h : LoopHead indices bridge shared)
    (hOther : shared.window.word StateAbi.stampWord ≠ bridge.lastStamp) :
    shared.window.clobbered = false ∧ nextIndex indices < shared.window.stamped := by
  have hFresh : shared.window.clobbered = false := by
    by_contra hClobbered
    obtain ⟨rfl, hZero⟩ := h.cleared (by simpa using hClobbered)
    exact hOther (hZero.trans h.solved.lastStamp.symm)
  refine ⟨hFresh, lt_of_le_of_ne h.solved.next_le ?_⟩
  intro hSame
  refine hOther ?_
  rw [h.solved.stampInv.stamp hFresh, h.solved.lastStamp, hSame]

theorem Fresh.load (h : Fresh indices bridge shared)
    (hGuard : FewExports shared bridge (.serve (.word StateAbi.stampWord) choice)) :
    Loaded indices (shared.window.stamped - 1) bridge (shared.window.word StateAbi.stampWord)
      ((watchedWorld cfg).serve (.word StateAbi.stampWord) choice shared).2 := by
  have hLater := h.later
  have hNumber : shared.window.stamped - 1 + 1 = shared.window.stamped := by omega
  refine ⟨h.head.word _ choice, h.clobbered, by omega, ?_, hNumber.symm, ?_, ?_⟩
  · show shared.window.stamped - 1 < shared.window.stamped
    omega
  · rw [hNumber]
    exact h.head.solved.stampInv.stamp h.clobbered
  · intro hSome
    rw [hNumber, ← h.head.anchor hSome]
    refine hGuard rfl ?_
    rw [← h.head.solved.matched.length_eq]
    exact List.length_pos_iff.mpr hSome

/-- While the publisher is called: the stamp of the last point is the one that was
loaded last. -/
structure Calling (indices : List Nat) (bridge : Bridge n cfg.axes Value)
    (shared : WatchedWindow cfg) : Prop where
  solved : Solved indices bridge shared.window
  clobbered : shared.window.clobbered = false
  sampled : shared.sampled = nextIndex indices

theorem Calling.idle (h : Calling indices bridge shared)
    (hFair : shared.window.Fair choice.step) :
    Calling indices bridge ((watchedWorld cfg).idle choice shared) := by
  have hHead : LoopHead indices bridge { shared with anchor := shared.sampled } := by
    refine ⟨h.solved, ?_, fun _ => h.sampled⟩
    intro hClobbered
    rw [h.clobbered] at hClobbered
    exact absurd hClobbered Bool.false_ne_true
  exact ⟨h.solved.step hFair, (hHead.later_step hFair h.clobbered).1, h.sampled⟩

/-- Every access of the call notes that the stamp loaded last was read. -/
private def callOutline {guard : Guard (WatchedWindow cfg) (Publisher n) (WindowChoice cfg.axes) Access}
    {inv : WatchedWindow cfg → Publisher n → Prop} (indices : List Nat)
    (bridge : Bridge n cfg.axes Value) (frame : Frame n)
    (hFair : ∀ shared self choice, guard shared self (.idle choice) →
      shared.window.Fair choice.step)
    (hInv : ∀ shared self, Calling indices bridge shared → inv shared self) :
    PublishOutline (watchedWorld cfg) guard inv frame (fun _ => Calling indices bridge)
      (fun _ _ shared => Calling indices bridge shared ∧ shared.anchor = shared.sampled) where
  start _ := Calling indices bridge
  fill _ _ := Calling indices bridge
  poll _ := Calling indices bridge
  adopt _ := Calling indices bridge
  start_stable self shared choice h hGuard := h.idle (hFair shared self choice hGuard)
  fill_stable _ self shared choice h hGuard := h.idle (hFair shared self choice hGuard)
  poll_stable self shared choice h hGuard := h.idle (hFair shared self choice hGuard)
  adopt_stable self shared choice h hGuard := h.idle (hFair shared self choice hGuard)
  start_inv self shared := hInv shared self
  fill_inv _ self shared := hInv shared self
  poll_inv self shared := hInv shared self
  adopt_inv self shared := hInv shared self
  enter_poll _ _ h _ := h
  enter_start _ _ h _ := h
  poll_confirmed _ _ _ h _ _ := ⟨h.solved, h.clobbered, h.sampled⟩
  poll_reset _ _ _ h _ _ := ⟨h.solved, h.clobbered, h.sampled⟩
  poll_refused _ _ _ h _ _ _ := ⟨⟨h.solved, h.clobbered, h.sampled⟩, rfl⟩
  poll_stalled _ _ _ h _ _ _ := ⟨h.solved, h.clobbered, h.sampled⟩
  adopt_serve _ _ _ h _ := ⟨h.solved, h.clobbered, h.sampled⟩
  start_serve _ _ _ h _ := ⟨h.solved, h.clobbered, h.sampled⟩
  fill_serve _ _ _ _ _ h _ := ⟨h.solved, h.clobbered, h.sampled⟩
  commit_serve _ _ _ h _ := ⟨⟨h.solved, h.clobbered, h.sampled⟩, rfl⟩

/-- What holds at every point of a run. -/
def OrderInv (shared : WatchedWindow cfg) (bridge : Bridge n cfg.axes Value) : Prop :=
  SolvedInOrder bridge shared.window.bus.frozen

/-- The answer of the call is counted, and the next round begins. -/
private theorem Calling.tally {publisher : Publisher n} {source : SeqlockStateSource cfg.axes Value}
    {point : OperatingPoint cfg.axes Value} (generation : Option Generation)
    (h : Calling indices (bridge.take point) shared) (hAnchor : shared.anchor = shared.sampled) :
    LoopHead indices
      ({ { bridge with source := source }.take point with publisher := publisher }.tally generation)
      shared := by
  have hTrace : PublishesSolved
      ((bridge.take point).trace ++ [BridgeEvent.published generation]) :=
    h.solved.publishes.append _ fun _ _ => ⟨_, _, rfl⟩
  refine ⟨?_, ?_, fun _ => hAnchor.trans h.sampled⟩
  · cases generation with
    | none =>
        exact h.solved.congr rfl
          (by simp [Bridge.solved, Bridge.tally, Bridge.take, BridgeEvent.point?]) hTrace
    | some value =>
        exact h.solved.congr rfl
          (by simp [Bridge.solved, Bridge.tally, Bridge.take, BridgeEvent.point?]) hTrace
  · intro hClobbered
    rw [h.clobbered] at hClobbered
    exact absurd hClobbered Bool.false_ne_true

/-- The outline of a round over the window. -/
private def orderOutline (solve : OperatingPoint cfg.axes Value → Gains)
    (quantiseInto : Gains → Frame n) :
    RoundOutline (watchedWorld cfg) FewExports OrderInv solve quantiseInto where
  top bridge shared := ∃ indices, LoopHead indices bridge shared
  fresh bridge shared := ∃ indices, Fresh indices bridge shared
  loaded bridge stamp shared := ∃ indices index, Loaded indices index bridge stamp shared
  top_stable bridge shared choice := by
    rintro ⟨indices, h⟩ hGuard
    exact ⟨indices, h.idle hGuard⟩
  fresh_stable bridge source shared choice := by
    rintro ⟨indices, h⟩ hGuard
    exact ⟨indices, h.idle hGuard⟩
  loaded_stable bridge source stamp shared choice := by
    rintro ⟨indices, index, h⟩ hGuard
    exact ⟨indices, index, h.idle hGuard⟩
  top_inv bridge shared := by
    rintro ⟨indices, h⟩
    exact h.solved.solvedInOrder
  fresh_inv bridge source shared := by
    rintro ⟨indices, h⟩
    have hSame : Solved indices { bridge with source := source } shared.window :=
      h.head.solved.congr rfl rfl h.head.solved.publishes
    exact hSame.solvedInOrder
  fresh_of_loaded bridge stamp shared := by
    rintro ⟨indices, index, h⟩
    exact ⟨indices, h.head, h.clobbered, lt_of_le_of_lt h.later h.stamped⟩
  peek_old bridge shared choice := by
    rintro ⟨indices, h⟩ _
    exact ⟨indices, h.word _ choice⟩
  peek_new bridge shared choice := by
    rintro ⟨indices, h⟩ _ hOther
    obtain ⟨hFresh, hLater⟩ := h.fresh hOther
    exact ⟨indices, h.word _ choice, hFresh, hLater⟩
  fresh_word bridge source shared index choice := by
    rintro ⟨indices, h⟩ _
    exact ⟨indices, h.word index choice⟩
  fresh_stamp bridge source shared choice := by
    rintro ⟨indices, h⟩ hGuard
    exact ⟨indices, _, h.load hGuard⟩
  loaded_word bridge source stamp shared index choice := by
    rintro ⟨indices, number, h⟩ hOther _
    have hSame : ((watchedWorld cfg).serve (.word index) choice shared).2 = shared := by
      simp [watchedWorld, hOther]
    rw [hSame]
    exact ⟨indices, number, h⟩
  failed bridge source shared := by
    rintro ⟨indices, h⟩
    refine ⟨indices, h.head.solved.congr rfl ?_ ?_, h.head.cleared, h.head.anchor⟩
    · simp [Bridge.solved, Bridge.failRead, BridgeEvent.point?]
    · exact h.head.solved.publishes.append _ fun generation hEvent => nomatch hEvent
  status bridge shared choice := by
    rintro ⟨indices, h⟩ _
    exact ⟨indices, h.solved.congr rfl rfl h.solved.publishes, h.cleared, h.anchor⟩
  publish bridge source point shared := by
    rintro ⟨indices, index, h⟩
    have hCalling : Calling (indices ++ [index]) (bridge.take point) shared :=
      ⟨h.head.solved.take h.stamp_eq h.later h.stamped h.few, h.clobbered,
        h.sampled.trans (nextIndex_append indices index).symm⟩
    refine Safe.weaken ?_ ((callOutline (indices ++ [index]) (bridge.take point)
      (quantiseInto (solve point)) ?_ ?_).publish_safe rfl hCalling)
    · rintro generation publisher after ⟨hAfter, hAnchor⟩
      exact ⟨indices ++ [index], hAfter.tally generation hAnchor⟩
    · intro after publisher choice hGuard
      exact hGuard
    · intro after publisher hAfter
      have hSame : Solved (indices ++ [index])
          { { bridge with source := source }.take point with publisher := publisher }
          after.window := hAfter.solved.congr rfl rfl hAfter.solved.publishes
      exact hSame.solvedInOrder

/-- The window with the bridge's record, before the bridge starts. -/
def WatchedWindow.ofWindow (window : WindowSystem cfg) : WatchedWindow cfg := ⟨window, 0, 0⟩

private theorem bridgeLoop_triple (toFloat : Word → Value)
    (solve : OperatingPoint cfg.axes Value → Gains) (quantiseInto : Gains → Frame n)
    (count : Nat) (source : SeqlockStateSource cfg.axes Value) :
    Triple (watchedWorld cfg) FewExports OrderInv
      (fun bridge shared => bridge = Bridge.initial n source ∧ StampInv shared.window)
      (Bridge.bridgeLoop toFloat solve quantiseInto count)
      (fun _ bridge shared => ∃ indices, LoopHead indices bridge shared) := by
  have hNothing : ∀ (publisher : Publisher n) (window : WindowSystem cfg), StampInv window →
      Solved [] { Bridge.initial n source with publisher := publisher } window := by
    intro publisher window hInv
    refine ⟨hInv, .nil, .nil, rfl, Nat.zero_le _, ?_⟩
    intro before generation after hSplit
    simp [Bridge.initial] at hSplit
  have hStable : ∀ bridge : Bridge n cfg.axes Value,
      Stable (watchedWorld cfg) FewExports bridge fun shared => StampInv shared.window := by
    intro bridge shared choice h hGuard
    exact (h.step hGuard).1
  rintro bridge shared ⟨rfl, hInv⟩
  refine Safe.access (fun shared => StampInv shared.window) hInv (hStable _) ?_ ?_
  · intro s hs
    exact (hNothing _ _ hs).solvedInOrder
  intro s choice hs _
  refine Safe.access (fun shared => StampInv shared.window) hs (hStable _) ?_ ?_
  · intro s hs
    exact (hNothing _ _ hs).solvedInOrder
  intro s choice hs _
  refine Safe.access (fun shared => StampInv shared.window) (hs.poke _ _) (hStable _) ?_ ?_
  · intro s hs
    exact (hNothing _ _ hs).solvedInOrder
  intro s choice hs _
  refine (orderOutline solve quantiseInto).rounds_triple count _ _ ⟨[], ?_⟩
  refine ⟨hNothing _ _ (hs.poke _ _), ?_, fun hSome => absurd rfl hSome⟩
  intro _
  exact ⟨rfl, WindowSystem.word_poke _ _⟩

/-- The bridge starts over a window in which exports may already be running. -/
def bridgeConfig (toFloat : Word → Value) (solve : OperatingPoint cfg.axes Value → Gains)
    (quantiseInto : Gains → Frame n) (count : Nat) (source : SeqlockStateSource cfg.axes Value)
    (window : WindowSystem cfg) :
    Config (WatchedWindow cfg) (Bridge n cfg.axes Value) Access Access.Answer Unit :=
  ⟨.ofWindow window,
    Bridge.bridgeLoop toFloat solve quantiseInto count (Bridge.initial n source)⟩

/-- Each export is optimised at most once and in order, in every state of every
run: whatever beats are lost, however the start of the bridge falls among
running exports, and whatever the registers answer. -/
theorem solved_in_order (cfg : ExportConfig) (toFloat : Word → Value)
    (solve : OperatingPoint cfg.axes Value → Gains) (quantiseInto : Gains → Frame n)
    (count : Nat) (source : SeqlockStateSource cfg.axes Value) (latched : Snapshot cfg.axes)
    (mem : Memory) (before : List (WindowStep cfg.axes))
    (schedule : List (Move (WindowChoice cfg.axes)))
    (hBefore : WindowSystem.FairRun (fun _ _ => True) before (WindowSystem.powerUp latched mem))
    (hGuarded : (watchedWorld cfg).Guarded FewExports schedule
      (bridgeConfig toFloat solve quantiseInto count source
        (WindowSystem.run before (WindowSystem.powerUp latched mem)))) :
    SolvedInOrder
      ((watchedWorld cfg).run schedule
        (bridgeConfig toFloat solve quantiseInto count source
          (WindowSystem.run before (WindowSystem.powerUp latched mem)))).thread.fields
      ((watchedWorld cfg).run schedule
        (bridgeConfig toFloat solve quantiseInto count source
          (WindowSystem.run before
            (WindowSystem.powerUp latched mem)))).shared.window.bus.frozen := by
  refine (Triple.run ?_ (bridgeLoop_triple toFloat solve quantiseInto count source) ?_
    ⟨rfl, (StampInv.powerUp latched mem).run hBefore⟩ hGuarded).1
  · rintro result bridge shared choice ⟨indices, h⟩ hGuard
    exact ⟨indices, h.idle hGuard⟩
  · rintro result bridge shared ⟨indices, h⟩
    exact h.solved.solvedInOrder

/-- The start of the bridge, then two exports with a round after each. The second
publish call is refused. -/
def twoRounds : List (Move (WindowChoice oneAxis.axes)) :=
  List.replicate 3 (.serve ⟨.land false, 0⟩) ++
    (exportSteps 7 [false, false, false, false] 0).map (fun step => .idle ⟨step, 0⟩) ++
    List.replicate 11 (.serve ⟨.land false, 0⟩) ++
    (exportSteps 20 [false, false, false, false] 0).map (fun step => .idle ⟨step, 0⟩) ++
    List.replicate 9 (.serve ⟨.land false, 0⟩)

theorem solved_in_order_two_rounds :
    SolvedInOrder
      ((watchedWorld oneAxis).run twoRounds
        (bridgeConfig id (fun _ => 5) (fun gain (_ : Fin 1) => gain) 2 emptySource
          (WindowSystem.run [] (WindowSystem.powerUp (oneAxisSnapshot 0) fun _ => 0)))).thread.fields
      ((watchedWorld oneAxis).run twoRounds
        (bridgeConfig id (fun _ => 5) (fun gain (_ : Fin 1) => gain) 2 emptySource
          (WindowSystem.run []
            (WindowSystem.powerUp (oneAxisSnapshot 0) fun _ => 0)))).shared.window.bus.frozen :=
  solved_in_order oneAxis id (fun _ => 5) (fun gain (_ : Fin 1) => gain) 2 emptySource
    (oneAxisSnapshot 0) (fun _ => 0) [] twoRounds (by decide +kernel) (by decide +kernel)

end Order

end Lqr
