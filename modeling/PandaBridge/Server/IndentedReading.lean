import PandaBridge.Server.IndentedFile

/-! The lines of an indented file by their history: which levels are open, and the parser of each.
The stack of levels is a representation of it. -/
namespace Server

variable {Context ParseLine AtEnd World : Type}

/-- A line that was parsed: its indentation, and the parser it has installed. -/
structure IndentedLine (Context ParseLine AtEnd : Type) where
  indent : Nat
  parser : IndentParser Context ParseLine AtEnd

/-- The levels that are open after some lines, the last line first: a line closes every level
that is deeper. -/
def openLevels : List (IndentedLine Context ParseLine AtEnd) → List Nat
  | [] => [0]
  | line :: earlier => line.indent :: (openLevels earlier).filter (· < line.indent)

/-- The parser at an indentation: the one that the nearest earlier line of smaller indentation has
installed, and the first parser at the first level. -/
def levelParser (first : IndentParser Context ParseLine AtEnd)
    (history : List (IndentedLine Context ParseLine AtEnd)) (indent : Nat) :
    IndentParser Context ParseLine AtEnd :=
  if indent = 0 then first
  else
    match history.find? (·.indent < indent) with
    | some line => line.parser
    | none => .empty

/-- The parser that the last line has installed. -/
def lastInstalled (history : List (IndentedLine Context ParseLine AtEnd)) :
    IndentParser Context ParseLine AtEnd :=
  match history.head? with
  | some line => line.parser
  | none => .empty

/-- Parsers are told that they are left, up to the first error. -/
def closeParsers (calls : IndentCalls Context ParseLine AtEnd World) :
    List (IndentParser Context ParseLine AtEnd) → World → World × Option ErrorMessages
  | [], world => (world, none)
  | parser :: rest, world =>
      let closed := closeParser calls parser world
      if closed.2.isSome then closed else closeParsers calls rest closed.1

/-- What is known between two lines. -/
structure Reading (Context ParseLine AtEnd World : Type) where
  history : List (IndentedLine Context ParseLine AtEnd)
  world : World

/-- The outcome of one line. -/
structure LineOutcome (World : Type) where
  rest : Text
  world : World
  error : Option ErrorMessages

/-- The level of a line is opened or found again, after the deeper ones are closed. -/
def placeLine (calls : IndentCalls Context ParseLine AtEnd World)
    (first : IndentParser Context ParseLine AtEnd)
    (reading : Reading Context ParseLine AtEnd World) (indent : Nat) :
    World × Option ErrorMessages :=
  let levels := openLevels reading.history
  if ∀ level ∈ levels, level < indent then
    (reading.world, if levels.length ≤ maxIndent then none else some ["Too much indentation"])
  else
    let left := (levels.filter (indent < ·)).map (levelParser first reading.history)
    let closed := closeParsers calls (lastInstalled reading.history :: left) reading.world
    (closed.1, closed.2 <|>
      if indent ∈ levels then none else some ["Invalid indentation on line"])

/-- One line of an indented file. -/
def readLine (calls : IndentCalls Context ParseLine AtEnd World)
    (first : IndentParser Context ParseLine AtEnd)
    (reading : Reading Context ParseLine AtEnd World) (line : Text) :
    Reading Context ParseLine AtEnd World × LineOutcome World :=
  let text := skipWhitespace line
  let indent := line.length - text.length
  if isIgnored text then (reading, ⟨text, reading.world, none⟩)
  else
    let placed := placeLine calls first reading indent
    match placed.2 with
    | some error => (⟨reading.history, placed.1⟩, ⟨text, placed.1, some error⟩)
    | none =>
        let parsed := runParser calls (levelParser first reading.history indent) text placed.1
        (⟨⟨indent, parsed.parser⟩ :: reading.history, parsed.world⟩,
          ⟨parsed.line, parsed.world, parsed.error⟩)

/-- The lines of a file, up to the first error. -/
def readLines (calls : IndentCalls Context ParseLine AtEnd World)
    (first : IndentParser Context ParseLine AtEnd) :
    List Text → Reading Context ParseLine AtEnd World → List (LineOutcome World)
  | [], _ => []
  | line :: rest, reading =>
      let read := readLine calls first reading line
      read.2 :: if read.2.error.isSome then [] else readLines calls first rest read.1

/-! ### Open levels -/

theorem openLevels_sorted (history : List (IndentedLine Context ParseLine AtEnd)) :
    (openLevels history).Pairwise (· > ·) := by
  induction history with
  | nil => exact List.pairwise_singleton _ _
  | cons line earlier ih =>
      refine List.pairwise_cons.mpr ⟨fun level hLevel => ?_, ih.filter _⟩
      exact of_decide_eq_true (List.mem_filter.mp hLevel).2

theorem zero_mem_openLevels (history : List (IndentedLine Context ParseLine AtEnd)) :
    0 ∈ openLevels history := by
  induction history with
  | nil => exact List.mem_singleton_self 0
  | cons line earlier ih =>
      rcases Nat.eq_zero_or_pos line.indent with hZero | hPos
      · exact List.mem_cons.mpr (Or.inl hZero.symm)
      · exact List.mem_cons_of_mem _ (List.mem_filter.mpr ⟨ih, decide_eq_true hPos⟩)

/-- In a falling list the elements up to a bound stand behind the others. -/
theorem filter_append_filter {levels : List Nat} (hSorted : levels.Pairwise (· > ·))
    (bound : Nat) : levels.filter (bound < ·) ++ levels.filter (· ≤ bound) = levels := by
  induction levels with
  | nil => rfl
  | cons level levels ih =>
      obtain ⟨hHead, hTail⟩ := List.pairwise_cons.mp hSorted
      by_cases hLevel : bound < level
      · have hNot : ¬ level ≤ bound := Nat.not_le.mpr hLevel
        simpa [List.filter_cons, hLevel, hNot] using ih hTail
      · have hNone : levels.filter (bound < ·) = [] :=
          List.filter_eq_nil_iff.mpr fun other hOther => by
            have := hHead other hOther
            simp only [decide_eq_true_eq]
            omega
        have hAll : levels.filter (· ≤ bound) = levels :=
          List.filter_eq_self.mpr fun other hOther => by
            have := hHead other hOther
            simp only [decide_eq_true_eq]
            omega
        simp [hLevel, Nat.le_of_not_lt hLevel, hNone, hAll]

/-- An element of a falling list is the first one up to itself. -/
theorem filter_le_of_mem {levels : List Nat} (hSorted : levels.Pairwise (· > ·)) {bound : Nat}
    (hMem : bound ∈ levels) :
    levels.filter (· ≤ bound) = bound :: levels.filter (· < bound) := by
  induction levels with
  | nil => exact absurd hMem List.not_mem_nil
  | cons level levels ih =>
      obtain ⟨hHead, hTail⟩ := List.pairwise_cons.mp hSorted
      rcases List.mem_cons.mp hMem with rfl | hMem
      · have hSame : levels.filter (· ≤ bound) = levels.filter (· < bound) :=
          List.filter_congr fun other hOther => by
            have := hHead other hOther
            simp only [decide_eq_decide]
            omega
        simp [hSame]
      · have hLevel := hHead bound hMem
        have hAbove : ¬ level ≤ bound := Nat.not_le.mpr hLevel
        have hNotBelow : ¬ level < bound := Nat.not_lt.mpr (Nat.le_of_lt hLevel)
        simpa [List.filter_cons, hAbove, hNotBelow] using ih hTail hMem

theorem closeParsers_cons (calls : IndentCalls Context ParseLine AtEnd World)
    (parser : IndentParser Context ParseLine AtEnd)
    (rest : List (IndentParser Context ParseLine AtEnd)) (world : World) :
    closeParsers calls (parser :: rest) world =
      if (closeParser calls parser world).2.isSome then closeParser calls parser world
      else closeParsers calls rest (closeParser calls parser world).1 := rfl

theorem levelParser_cons (first : IndentParser Context ParseLine AtEnd)
    (line : IndentedLine Context ParseLine AtEnd)
    (history : List (IndentedLine Context ParseLine AtEnd)) {indent : Nat}
    (hIndent : indent ≤ line.indent) :
    levelParser first (line :: history) indent = levelParser first history indent := by
  rw [levelParser, levelParser, List.find?_cons_of_neg (by simpa using hIndent)]

/-- A line that is deeper than the last one is for the parser that this one has installed. -/
theorem levelParser_deeper (first : IndentParser Context ParseLine AtEnd)
    {history : List (IndentedLine Context ParseLine AtEnd)} {indent : Nat}
    (hDeeper : ∀ level ∈ openLevels history, level < indent) :
    levelParser first history indent = lastInstalled history := by
  have hPos : indent ≠ 0 := Nat.ne_of_gt (hDeeper 0 (zero_mem_openLevels history))
  cases history with
  | nil => rw [levelParser, if_neg hPos, List.find?_nil]; rfl
  | cons line history =>
      have hLine := hDeeper line.indent List.mem_cons_self
      rw [levelParser, if_neg hPos, List.find?_cons_of_pos (by simpa using hLine)]
      rfl

end Server
