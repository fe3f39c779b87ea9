import PandaBridge.Server.IndentedReading

/-! The stack of an indented file stands for its history, line by line, and the buffer of its
lines shows in the lines that do not fit. -/
namespace Server

variable {Context ParseLine AtEnd World : Type}

/-- The levels of a stack, from the first to the current one, are the open levels. -/
structure IndentStack.Represents (stack : IndentStack Context ParseLine AtEnd)
    (first : IndentParser Context ParseLine AtEnd)
    (history : List (IndentedLine Context ParseLine AtEnd)) : Prop where
  length : stack.entries.length = maxIndent + 2
  depth : stack.sp + 1 = (openLevels history).length
  levels : stack.entries.take (stack.sp + 1) =
    (openLevels history).reverse.map fun level => ⟨level, levelParser first history level⟩
  next : (stack.entries[stack.sp + 1]?).map IndentState.parser = some (lastInstalled history)

/-- The stack has no level too many, and its levels rise. -/
structure IndentStack.Ordered (stack : IndentStack Context ParseLine AtEnd) : Prop where
  depth : stack.sp ≤ maxIndent
  rising : ((stack.entries.take (stack.sp + 1)).map IndentState.indent).Pairwise (· < ·)

/-- The last of the first elements of a list. -/
theorem take_append_single {Value : Type} {entries before : List Value} {last : Value}
    (h : entries.take (before.length + 1) = before ++ [last]) :
    entries.take before.length = before ∧ entries[before.length]? = some last := by
  constructor
  · have hTake := congrArg (List.take before.length) h
    simpa [List.take_take] using hTake
  · have hGet := congrArg (·[before.length]?) h
    simpa [List.getElem?_take] using hGet

theorem take_of_levels {entries : List (IndentState Context ParseLine AtEnd)}
    (parserOf : Nat → IndentParser Context ParseLine AtEnd) {level : Nat} {levels : List Nat}
    (h : entries.take (levels.length + 1) =
      (level :: levels).reverse.map fun level => ⟨level, parserOf level⟩) :
    entries.take levels.length = (levels.reverse.map fun level => ⟨level, parserOf level⟩) ∧
      entries[levels.length]? = some ⟨level, parserOf level⟩ := by
  have hLength : (levels.reverse.map fun level =>
      (⟨level, parserOf level⟩ : IndentState Context ParseLine AtEnd)).length = levels.length := by
    rw [List.length_map, List.length_reverse]
  rw [List.reverse_cons, List.map_append, ← hLength] at h
  have hSplit := take_append_single h
  rwa [hLength] at hSplit

namespace IndentStack

variable {first : IndentParser Context ParseLine AtEnd}
  {history : List (IndentedLine Context ParseLine AtEnd)}
  {stack : IndentStack Context ParseLine AtEnd}

theorem Represents.sp_le (hStack : stack.Represents first history) : stack.sp ≤ maxIndent := by
  obtain ⟨state, hNext, -⟩ := Option.map_eq_some_iff.mp hStack.next
  obtain ⟨hBound, -⟩ := List.getElem?_eq_some_iff.mp hNext
  have hLength := hStack.length
  omega

theorem Represents.ordered (hStack : stack.Represents first history) : stack.Ordered := by
  refine ⟨hStack.sp_le, ?_⟩
  rw [hStack.levels, List.map_map, List.map_reverse, List.pairwise_reverse]
  simpa [Function.comp_def] using openLevels_sorted history

/-- The current level is the deepest open one. -/
theorem Represents.top (hStack : stack.Represents first history) : ∃ level levels,
    openLevels history = level :: levels ∧ stack.sp = levels.length ∧
      stack.entries.take stack.sp =
        levels.reverse.map (fun level => ⟨level, levelParser first history level⟩) ∧
      stack.entries[stack.sp]? = some ⟨level, levelParser first history level⟩ := by
  have hDepth := hStack.depth
  have hLevels := hStack.levels
  cases hOpen : openLevels history with
  | nil => simp [hOpen] at hDepth
  | cons level levels =>
      rw [hOpen, List.length_cons] at hDepth
      have hSp : stack.sp = levels.length := by omega
      rw [hOpen, hSp] at hLevels
      obtain ⟨hBefore, hTop⟩ := take_of_levels _ hLevels
      exact ⟨level, levels, rfl, hSp, by rw [hSp]; exact hBefore, by rw [hSp]; exact hTop⟩

end IndentStack

/-- The loop tells the parsers of the levels that are left, the deepest first. -/
theorem closeLoop_spec (calls : IndentCalls Context ParseLine AtEnd World)
    {entries : List (IndentState Context ParseLine AtEnd)}
    (parserOf : Nat → IndentParser Context ParseLine AtEnd) (indent : Nat) {levels : List Nat}
    (hSorted : levels.Pairwise (· > ·)) (hZero : 0 ∈ levels) {sp : Nat}
    (hDepth : sp + 1 = levels.length)
    (hLevels : entries.take (sp + 1) =
      levels.reverse.map fun level => ⟨level, parserOf level⟩)
    {above : IndentParser Context ParseLine AtEnd}
    (hAbove : (entries[sp + 1]?).map IndentState.parser = some above) (world : World) :
    let closed := closeParsers calls
      (above :: (levels.filter (indent < ·)).map parserOf) world
    ∃ stop, closeLoop calls entries indent sp world = some (stop, closed) ∧ stop ≤ sp ∧
      (closed.2 = none → stop + 1 = (levels.filter (· ≤ indent)).length) := by
  induction levels generalizing sp above world with
  | nil => exact absurd hZero List.not_mem_nil
  | cons level levels ih =>
      obtain ⟨hHead, hTail⟩ := List.pairwise_cons.mp hSorted
      obtain ⟨state, hNext, hParser⟩ := Option.map_eq_some_iff.mp hAbove
      have hSp : sp = levels.length := by simpa using hDepth
      subst hSp
      obtain ⟨hBefore, hTop⟩ := take_of_levels parserOf hLevels
      by_cases hLeft : indent < level
      · have hKeep : (level :: levels).filter (indent < ·) =
            level :: levels.filter (indent < ·) := by simp [hLeft]
        have hDrop : (level :: levels).filter (· ≤ indent) = levels.filter (· ≤ indent) := by
          simp [Nat.not_le.mpr hLeft]
        have hLow : 0 ∈ levels := by
          rcases List.mem_cons.mp hZero with hZero | hZero
          · omega
          · exact hZero
        obtain ⟨below, hBelow⟩ : ∃ below, levels.length = below + 1 :=
          ⟨levels.length - 1, by have := List.length_pos_of_mem hLow; omega⟩
        have hLower : (entries[below + 1]?).map IndentState.parser = some (parserOf level) := by
          rw [← hBelow, hTop]
          rfl
        obtain ⟨stop, hLoop, hStop, hCount⟩ := ih hTail hLow hBelow.symm
          (by rw [← hBelow]; exact hBefore) hLower (closeParser calls above world).1
        rw [hKeep, hDrop, List.map_cons, closeParsers_cons]
        rw [hBelow] at hNext hTop
        by_cases hFailed : (closeParser calls above world).2.isSome = true
        · refine ⟨below, ?_, by omega, fun hNone => ?_⟩
          · rw [hBelow, closeLoop, hNext, hTop]
            simp only [Option.bind_some, if_pos hLeft, hParser, if_pos hFailed]
          · rw [if_pos hFailed] at hNone
            rw [hNone] at hFailed
            exact absurd hFailed (by decide)
        · refine ⟨stop, ?_, by omega, fun hNone => hCount (by rwa [if_neg hFailed] at hNone)⟩
          rw [hBelow, closeLoop, hNext, hTop]
          simp only [Option.bind_some, if_pos hLeft, hParser, if_neg hFailed]
          exact hLoop
      · have hNone : (level :: levels).filter (indent < ·) = [] :=
          List.filter_eq_nil_iff.mpr fun other hOther => by
            rcases List.mem_cons.mp hOther with rfl | hOther
            · simpa using hLeft
            · have := hHead other hOther
              simp only [decide_eq_true_eq]
              omega
        have hAll : (level :: levels).filter (· ≤ indent) = level :: levels :=
          List.filter_eq_self.mpr fun other hOther => by
            rcases List.mem_cons.mp hOther with rfl | hOther
            · simpa using hLeft
            · have := hHead other hOther
              simp only [decide_eq_true_eq]
              omega
        rw [hNone, hAll, List.map_nil, closeParsers_cons]
        refine ⟨levels.length, ?_, Nat.le_refl _, fun _ => by simp⟩
        have hClosed : (if (closeParser calls above world).2.isSome = true then
            closeParser calls above world else
            closeParsers calls [] (closeParser calls above world).1) =
            closeParser calls above world := by
          split_ifs with hFailed
          · rfl
          · rw [closeParsers]
            exact Prod.ext rfl (Option.not_isSome_iff_eq_none.mp hFailed).symm
        cases hLength : levels.length with
        | zero =>
            rw [hLength] at hNext hTop
            rw [closeLoop, hNext, hTop]
            simp only [Option.bind_some, if_neg hLeft, hParser, hClosed]
        | succ below =>
            rw [hLength] at hNext hTop
            rw [closeLoop, hNext, hTop]
            simp only [Option.bind_some, if_neg hLeft, hParser, hClosed]

/-- An entry above the current level leaves the levels as they are. -/
theorem take_set_above {Value : Type} (entries : List Value) (count : Nat) (value : Value) :
    (entries.set count value).take count = entries.take count := by
  rw [List.take_set, List.set_eq_of_length_le (List.length_take_le _ _)]

/-- A stack whose current level is this one. -/
structure IndentStack.Placed (stack : IndentStack Context ParseLine AtEnd)
    (first : IndentParser Context ParseLine AtEnd)
    (history : List (IndentedLine Context ParseLine AtEnd)) (indent : Nat) : Prop where
  depth : stack.sp + 1 = (indent :: (openLevels history).filter (· < indent)).length
  levels : stack.entries.take (stack.sp + 1) =
    (indent :: (openLevels history).filter (· < indent)).reverse.map fun level =>
      ⟨level, levelParser first history level⟩

namespace IndentStack

variable {first : IndentParser Context ParseLine AtEnd}
  {history : List (IndentedLine Context ParseLine AtEnd)}
  {stack : IndentStack Context ParseLine AtEnd}

theorem Ordered.set_next (hStack : stack.Ordered) (state : IndentState Context ParseLine AtEnd) :
    IndentStack.Ordered ⟨stack.entries.set (stack.sp + 1) state, stack.sp⟩ :=
  ⟨hStack.depth, by rw [take_set_above]; exact hStack.rising⟩

theorem Placed.state {indent : Nat} (hStack : stack.Placed first history indent) :
    stack.entries[stack.sp]? = some ⟨indent, levelParser first history indent⟩ := by
  have hDepth := hStack.depth
  have hLevels := hStack.levels
  rw [List.length_cons] at hDepth
  have hSp : stack.sp = ((openLevels history).filter (· < indent)).length := by omega
  rw [hSp] at hLevels ⊢
  exact (take_of_levels _ hLevels).2

theorem Placed.represents {indent : Nat} (hStack : stack.Placed first history indent)
    (hLength : stack.entries.length = maxIndent + 2) {next : IndentState Context ParseLine AtEnd}
    (hNext : stack.entries[stack.sp + 1]? = some next)
    (parser : IndentParser Context ParseLine AtEnd) :
    IndentStack.Represents
      ⟨stack.entries.set (stack.sp + 1) { next with parser := parser }, stack.sp⟩ first
      (⟨indent, parser⟩ :: history) := by
  refine ⟨by rw [List.length_set, hLength], hStack.depth, ?_, ?_⟩
  · rw [take_set_above, hStack.levels]
    refine List.map_congr_left fun level hLevel => ?_
    have hBound : level ≤ indent := by
      rcases List.mem_cons.mp (List.mem_reverse.mp hLevel) with rfl | hLevel
      · exact Nat.le_refl _
      · exact Nat.le_of_lt (of_decide_eq_true (List.mem_filter.mp hLevel).2)
    rw [levelParser_cons first _ history hBound]
  · rw [List.getElem?_set_self (List.getElem?_eq_some_iff.mp hNext).1]
    rfl

end IndentStack

section Line

variable (calls : IndentCalls Context ParseLine AtEnd World)
  {first : IndentParser Context ParseLine AtEnd}
  {history : List (IndentedLine Context ParseLine AtEnd)}
  {stack : IndentStack Context ParseLine AtEnd}

theorem openIndent_spec (hStack : stack.Represents first history) {indent : Nat}
    (hDeeper : ∀ level ∈ openLevels history, level < indent) :
    ∃ opened, openIndent stack indent = some (opened,
        if (openLevels history).length ≤ maxIndent then none else some ["Too much indentation"]) ∧
      opened.entries.length = maxIndent + 2 ∧ opened.Ordered ∧
      ((openLevels history).length ≤ maxIndent → opened.Placed first history indent) := by
  have hDepth := hStack.depth
  by_cases hRoom : (openLevels history).length ≤ maxIndent
  · obtain ⟨state, hNext, hParser⟩ := Option.map_eq_some_iff.mp hStack.next
    have hAll : (openLevels history).filter (· < indent) = openLevels history :=
      List.filter_eq_self.mpr fun level hLevel => decide_eq_true (hDeeper level hLevel)
    have hTake : (stack.entries.set (stack.sp + 1) { state with indent := indent }).take
        (stack.sp + 2) = (indent :: (openLevels history).filter (· < indent)).reverse.map
          fun level => ⟨level, levelParser first history level⟩ := by
      have hBound : stack.sp + 1 < stack.entries.length := (List.getElem?_eq_some_iff.mp hNext).1
      rw [List.take_add_one, take_set_above, hStack.levels, List.getElem?_set_self hBound, hAll,
        List.reverse_cons, List.map_append, List.map_singleton, levelParser_deeper first hDeeper,
        ← Option.some.inj (hParser ▸ rfl : some state.parser = some (lastInstalled history))]
      rfl
    have hPlaced : IndentStack.Placed
        ⟨stack.entries.set (stack.sp + 1) { state with indent := indent }, stack.sp + 1⟩
        first history indent := ⟨by rw [List.length_cons, hAll, hDepth], hTake⟩
    refine ⟨⟨stack.entries.set (stack.sp + 1) { state with indent := indent }, stack.sp + 1⟩,
      ?_, ?_, ⟨by simp only; omega, ?_⟩, fun _ => hPlaced⟩
    · rw [openIndent, if_pos (by omega), hNext, if_pos hRoom]
      rfl
    · rw [List.length_set, hStack.length]
    · rw [hTake, List.map_map, List.map_reverse, List.pairwise_reverse, hAll]
      have hSorted := List.pairwise_cons.mpr ⟨hDeeper, openLevels_sorted history⟩
      simpa [Function.comp_def] using hSorted
  · refine ⟨stack, ?_, hStack.length, hStack.ordered, fun h => absurd h hRoom⟩
    rw [openIndent, if_neg (by omega), if_neg hRoom]

omit calls in
/-- The lower levels of a stack are those up to some indentation. -/
theorem take_below (hStack : stack.Represents first history) {indent stop : Nat}
    (hStop : stop ≤ stack.sp)
    (hCount : stop + 1 = ((openLevels history).filter (· ≤ indent)).length) :
    stack.entries.take (stop + 1) = ((openLevels history).filter (· ≤ indent)).reverse.map
      fun level => ⟨level, levelParser first history level⟩ := by
  have hSplit := filter_append_filter (openLevels_sorted history) indent
  have hLevels := congrArg (List.take (stop + 1)) hStack.levels
  rw [List.take_take, Nat.min_eq_left (by omega), ← hSplit, List.reverse_append,
    List.map_append, List.take_left' (by rw [List.length_map, List.length_reverse, hCount])]
    at hLevels
  exact hLevels

/-- An indentation is an open level when it is the deepest one up to itself. -/
theorem eq_head_iff_mem {levels below : List Nat} {indent level : Nat}
    (hSorted : levels.Pairwise (· > ·)) (hBelow : levels.filter (· ≤ indent) = level :: below) :
    indent = level ↔ indent ∈ levels := by
  constructor
  · rintro rfl
    exact (List.mem_filter.mp (hBelow ▸ List.mem_cons_self)).1
  · intro hMem
    rw [filter_le_of_mem hSorted hMem] at hBelow
    exact (List.cons.inj hBelow).1

theorem closeIndents_spec (hStack : stack.Represents first history) {indent : Nat}
    (hOpen : ¬ ∀ level ∈ openLevels history, level < indent) (world : World) :
    ∃ closed, closeIndents calls stack indent world =
        some (closed, (placeLine calls first ⟨history, world⟩ indent).1,
          (placeLine calls first ⟨history, world⟩ indent).2) ∧
      closed.entries.length = maxIndent + 2 ∧ closed.Ordered ∧
      ((placeLine calls first ⟨history, world⟩ indent).2 = none →
        closed.Placed first history indent) := by
  have hSorted := openLevels_sorted history
  obtain ⟨stop, hLoop, hStop, hCount⟩ := closeLoop_spec calls (levelParser first history) indent
    hSorted (zero_mem_openLevels history) hStack.depth hStack.levels hStack.next world
  have hOrdered : IndentStack.Ordered ⟨stack.entries, stop⟩ := by
    refine ⟨hStop.trans hStack.sp_le, List.Pairwise.sublist ?_ hStack.ordered.rising⟩
    exact (List.take_sublist_take_left (by simp only; omega)).map _
  generalize hClosed : closeParsers calls (lastInstalled history ::
    ((openLevels history).filter (indent < ·)).map (levelParser first history)) world = closed
    at hLoop hCount
  have hPlace : placeLine calls first ⟨history, world⟩ indent = (closed.1, closed.2 <|>
      if indent ∈ openLevels history then none else some ["Invalid indentation on line"]) := by
    rw [placeLine, if_neg hOpen, ← hClosed]
  rw [hPlace, closeIndents, hLoop, Option.bind_some]
  cases hError : closed.2 with
  | some error =>
      refine ⟨⟨stack.entries, stop⟩, rfl, hStack.length, hOrdered, fun hNone => ?_⟩
      exact absurd hNone (by simp)
  | none =>
      have hBelow := take_below hStack hStop (hCount hError)
      cases hLevels : (openLevels history).filter (· ≤ indent) with
      | nil =>
          have := hCount hError
          rw [hLevels] at this
          exact absurd this (by simp)
      | cons level levels =>
          have hLength : stop = levels.length := by
            have := hCount hError
            rw [hLevels, List.length_cons] at this
            omega
          rw [hLevels, hLength] at hBelow
          obtain ⟨-, hTop⟩ := take_of_levels _ hBelow
          rw [hLength] at hOrdered ⊢
          refine ⟨⟨stack.entries, levels.length⟩, ?_, hStack.length, hOrdered, fun hNone => ?_⟩
          · simp only [hTop, Option.map_some, eq_head_iff_mem hSorted hLevels]
            rfl
          · have hMem : indent ∈ openLevels history := by
              by_contra hNot
              have hInvalid : (if indent ∈ openLevels history then none else
                  some ["Invalid indentation on line"] : Option ErrorMessages) = none := hNone
              rw [if_neg hNot] at hInvalid
              exact absurd hInvalid (by simp)
            rw [← hLevels, filter_le_of_mem hSorted hMem] at hBelow
            refine ⟨?_, hBelow⟩
            rw [← filter_le_of_mem hSorted hMem, hLevels, List.length_cons]

theorem parseOneLine_spec (line : Text) (hStack : stack.Represents first history) (world : World) :
    ∃ result, parseOneLine calls line stack world = some result ∧
      (readLine calls first ⟨history, world⟩ line).2 =
        ⟨result.line, result.world, result.error⟩ ∧ result.stack.Ordered ∧
      (result.error = none →
        result.stack.Represents first (readLine calls first ⟨history, world⟩ line).1.history ∧
        (readLine calls first ⟨history, world⟩ line).1.world = result.world) := by
  rw [parseOneLine, readLine]
  generalize skipWhitespace line = text
  by_cases hIgnored : isIgnored text = true
  · rw [if_pos hIgnored, if_pos hIgnored]
    exact ⟨_, rfl, rfl, hStack.ordered, fun _ => ⟨hStack, rfl⟩⟩
  rw [if_neg hIgnored, if_neg hIgnored]
  generalize line.length - text.length = indent
  obtain ⟨level, levels, hLevels, -, -, hTop⟩ := hStack.top
  have hSorted := openLevels_sorted history
  obtain ⟨moved, hMoved, hLength, hOrdered, hPlaced⟩ : ∃ moved,
      (if level < indent then
        (openIndent stack indent).map fun opened => (opened.1, world, opened.2)
      else closeIndents calls stack indent world) =
        some (moved, (placeLine calls first ⟨history, world⟩ indent).1,
          (placeLine calls first ⟨history, world⟩ indent).2) ∧
      moved.entries.length = maxIndent + 2 ∧ moved.Ordered ∧
      ((placeLine calls first ⟨history, world⟩ indent).2 = none →
        moved.Placed first history indent) := by
    by_cases hDeeper : ∀ other ∈ openLevels history, other < indent
    · obtain ⟨opened, hOpened, hLength, hOrdered, hPlaced⟩ := openIndent_spec hStack hDeeper
      rw [if_pos (hDeeper level (hLevels ▸ List.mem_cons_self)), hOpened, placeLine,
        if_pos hDeeper]
      refine ⟨opened, rfl, hLength, hOrdered, fun hNone => hPlaced ?_⟩
      by_contra hRoom
      simp only [if_neg hRoom] at hNone
      exact absurd hNone (by simp)
    · have hFlush : ¬ level < indent := fun hLess => hDeeper fun other hOther => by
        rw [hLevels] at hOther hSorted
        rcases List.mem_cons.mp hOther with rfl | hOther
        · exact hLess
        · exact lt_trans ((List.pairwise_cons.mp hSorted).1 other hOther) hLess
      rw [if_neg hFlush]
      exact closeIndents_spec calls hStack hDeeper world
  generalize placeLine calls first ⟨history, world⟩ indent = placed at hMoved hPlaced
  rw [hTop, Option.bind_some]
  simp only [hMoved, Option.bind_some]
  cases hError : placed.2 with
  | some error => exact ⟨_, rfl, rfl, hOrdered, fun hNone => absurd hNone (by simp)⟩
  | none =>
      have hPlace := hPlaced hError
      obtain ⟨next, hNext⟩ : ∃ next, moved.entries[moved.sp + 1]? = some next := by
        have hDepth := hOrdered.depth
        exact ⟨_, List.getElem?_eq_getElem (by omega)⟩
      simp only [hPlace.state, hNext, Option.bind_some, Option.map_some]
      refine ⟨_, rfl, rfl, hOrdered.set_next _, fun _ => ⟨?_, rfl⟩⟩
      exact hPlace.represents hLength hNext _

end Line

end Server
