import PandaBridge.Server.ConfigServer

/-! The protocol stays in step: which lines of a stream are commands is decided by the lines alone,
each of them is answered once, and each answer has its status as its last line. -/
namespace Server

/-! ### The lines of a stream -/

/-- The complete lines of a stream. -/
def streamLines (stream : Text) : List Text := (stream.splitOn '\n').dropLast

/-- The lines as strings. -/
def lineStrings (stream : Text) : List Text := (streamLines stream).map cString

/-- No line of the stream is too long, and neither is what follows its last newline. -/
def Short (stream : Text) : Prop := ∀ line ∈ stream.splitOn '\n', line.length + 1 < maxLineLength

instance (stream : Text) : Decidable (Short stream) :=
  inferInstanceAs (Decidable (∀ line ∈ _, _))

/-- The commands among the lines: while a table is open a blank line ends it, and nothing else is
a command. -/
def commandLines : (open_ : Bool) → List Text → List Text
  | _, [] => []
  | true, line :: rest => commandLines (!line.isEmpty) rest
  | false, line :: rest => line :: commandLines (isTableCommand line) rest

/-- A table is open at the end of the lines. -/
def tableOpen : (open_ : Bool) → List Text → Bool
  | open_, [] => open_
  | true, line :: rest => tableOpen (!line.isEmpty) rest
  | false, line :: rest => tableOpen (isTableCommand line) rest

theorem splitOn_of_splitLine {data text rest : Text}
    (hSplit : BufferedFile.splitLine data = some (text, rest)) :
    data.splitOn '\n' = text :: rest.splitOn '\n' := by
  induction data generalizing text with
  | nil => exact absurd hSplit nofun
  | cons ch data ih =>
      rw [BufferedFile.splitLine] at hSplit
      rw [List.splitOn, List.splitOnP_cons_eq_if_modifyHead]
      split_ifs at hSplit with hNewline
      · obtain ⟨rfl, rfl⟩ := Prod.mk.inj (Option.some.inj hSplit)
        rw [if_pos (by simp [hNewline])]
        rfl
      · obtain ⟨⟨inner, after⟩, hInner, hEq⟩ := Option.map_eq_some_iff.mp hSplit
        obtain ⟨rfl, rfl⟩ := Prod.mk.inj hEq
        rw [if_neg (by simp [hNewline])]
        have hRest := ih hInner
        rw [List.splitOn] at hRest
        rw [hRest]
        rfl

theorem splitOn_of_splitLine_none {data : Text} (hNone : BufferedFile.splitLine data = none) :
    data.splitOn '\n' = [data] := by
  induction data with
  | nil => rfl
  | cons ch data ih =>
      rw [BufferedFile.splitLine] at hNone
      split_ifs at hNone with hNewline
      rw [Option.map_eq_none_iff] at hNone
      rw [List.splitOn, List.splitOnP_cons_eq_if_modifyHead, if_neg (by simp [hNewline])]
      have hRest := ih hNone
      rw [List.splitOn] at hRest
      rw [hRest]
      rfl

theorem streamLines_of_splitLine {data text rest : Text}
    (hSplit : BufferedFile.splitLine data = some (text, rest)) :
    streamLines data = text :: streamLines rest := by
  rw [streamLines, splitOn_of_splitLine hSplit, List.dropLast_cons_of_ne_nil]
  · rfl
  · exact List.splitOnP_ne_nil _ _

theorem streamLines_of_splitLine_none {data : Text} (hNone : BufferedFile.splitLine data = none) :
    streamLines data = [] := by
  rw [streamLines, splitOn_of_splitLine_none hNone]
  rfl

theorem Short.not_overlong {data : Text} (hShort : Short data) :
    ¬ BufferedFile.Overlong data maxLineLength := by
  unfold BufferedFile.Overlong
  cases hSplit : BufferedFile.splitLine data with
  | none =>
      have hLength := hShort data (by rw [splitOn_of_splitLine_none hSplit]; exact List.mem_cons_self)
      simp only
      omega
  | some split =>
      have hLength := hShort split.1 (by rw [splitOn_of_splitLine hSplit]; exact List.mem_cons_self)
      simp only
      omega

theorem Short.rest {data text rest : Text} (hShort : Short data)
    (hSplit : BufferedFile.splitLine data = some (text, rest)) : Short rest := by
  intro line hLine
  exact hShort line (by rw [splitOn_of_splitLine hSplit]; exact List.mem_cons_of_mem _ hLine)

/-! ### The lines of a table -/

variable {World : Type}

/-- What is left of a stream by a table: it is closed and the commands go on, or the input is over
within it. -/
inductive Consumed (stream : Text) (file : BufferedFile) : Prop
  | closed (hLive : file.Live) (hLength : file.remaining.length < stream.length)
      (hCommands : commandLines true (lineStrings stream) =
        commandLines false (lineStrings file.remaining))
      (hOpen : tableOpen true (lineStrings stream) = tableOpen false (lineStrings file.remaining))
      (hShort : Short stream → Short file.remaining)
  | exhausted (hLive : ¬ file.Live) (hShort : Short stream → file.error = false ∧
      commandLines true (lineStrings stream) = [] ∧ tableOpen true (lineStrings stream) = true)

theorem lineStrings_of_splitLine {data text rest : Text}
    (hSplit : BufferedFile.splitLine data = some (text, rest)) :
    lineStrings data = cString text :: lineStrings rest := by
  rw [lineStrings, streamLines_of_splitLine hSplit]
  rfl

theorem doPutTable_consumed (writer : PutTableWriter World) {rounds : Nat} {file : BufferedFile}
    (hLive : file.Live) (hRounds : file.remaining.length < rounds) (world : World)
    (error : Option LineText) :
    ∃ next last result, doPutTable writer rounds file world error = some (next, last, result) ∧
      next.written = file.written ∧ Consumed file.remaining next := by
  induction rounds generalizing file world error with
  | zero => omega
  | succ rounds ih =>
      have hRead := BufferedFile.readLine_spec hLive false
      rw [doPutTable]
      generalize file.readLine false = read at hRead ⊢
      cases hRead with
      | @found next text rest hSplit hShort hNextLive hRest hWritten =>
          have hLines := lineStrings_of_splitLine hSplit
          have hLength := BufferedFile.splitLine_length hSplit
          simp only [List.nil_append]
          by_cases hBlank : cString text = []
          · rw [if_pos hBlank]
            refine ⟨_, _, _, rfl, hWritten, .closed hNextLive (by rw [hRest]; omega) ?_ ?_ ?_⟩
            · rw [hLines, hBlank, hRest]
              rfl
            · rw [hLines, hBlank, hRest]
              rfl
            · rw [hRest]
              exact fun h => h.rest hSplit
          · rw [if_neg hBlank]
            have hOpen : (!(cString text).isEmpty) = true := by
              simpa using hBlank
            have hGo : ∀ world error, ∃ final last result,
                doPutTable writer rounds next world error = some (final, last, result) ∧
                  final.written = file.written ∧ Consumed file.remaining final := by
              intro world error
              obtain ⟨final, last, result, hPut, hSame, hConsumed⟩ :=
                ih hNextLive (by rw [hRest]; omega) world error
              refine ⟨final, last, result, hPut, hSame.trans hWritten, ?_⟩
              rw [hRest] at hConsumed
              cases hConsumed with
              | closed hFinal hLess hCommands hStays hStill =>
                  refine .closed hFinal (by omega) ?_ ?_ fun h => hStill (h.rest hSplit)
                  · rw [hLines, commandLines, hOpen]
                    exact hCommands
                  · rw [hLines, tableOpen, hOpen]
                    exact hStays
              | exhausted hFinal hEnd =>
                  refine .exhausted hFinal fun h => ?_
                  obtain ⟨hNoError, hNone, hStays⟩ := hEnd (h.rest hSplit)
                  rw [hLines, commandLines, tableOpen, hOpen]
                  exact ⟨hNoError, hNone, hStays⟩
            cases error with
            | some message => exact hGo _ _
            | none => exact hGo _ _
      | @ended next hNone hShort hEof hError hWritten hFlush =>
          have hLines : lineStrings file.remaining = [] := by
            rw [lineStrings, streamLines_of_splitLine_none hNone]
            rfl
          refine ⟨_, _, _, rfl, hWritten, .exhausted (fun h => ?_) fun _ => ⟨hError, ?_, ?_⟩⟩
          · exact Bool.noConfusion (h.1.symm.trans hEof)
          · rw [hLines]
            rfl
          · rw [hLines]
            rfl
      | @failed next hLong hError hWritten =>
          refine ⟨_, _, _, rfl, hWritten, .exhausted (fun h => ?_) fun h => absurd hLong h.not_overlong⟩
          exact Bool.noConfusion (h.2.symm.trans hError)

/-! ### One command -/

theorem Consumed.writeString {stream : Text} {file : BufferedFile} (hConsumed : Consumed stream file)
    (string : Text) : Consumed stream (file.writeString string) := by
  obtain ⟨hRemaining, hEof, hError⟩ := file.writeString_frame string
  have hLive : (file.writeString string).Live ↔ file.Live := by
    rw [BufferedFile.Live, BufferedFile.Live, hEof, hError]
  cases hConsumed with
  | closed hIs hLength hCommands hOpen hShort =>
      rw [← hRemaining] at hLength hCommands hOpen hShort
      exact .closed (hLive.mpr hIs) hLength hCommands hOpen hShort
  | exhausted hIs hShort =>
      rw [← hError] at hShort
      exact .exhausted (fun h => hIs (hLive.mp h)) hShort

theorem remaining_lt_rounds (file : BufferedFile) : file.remaining.length < file.rounds := by
  have hSublist : ((file.chunks.takeWhile (· ≠ [])).flatten).length ≤
      file.chunks.flatten.length := by
    conv => rhs; rw [← @List.takeWhile_append_dropWhile _ (· ≠ []) file.chunks]
    rw [List.flatten_append, List.length_append]
    exact Nat.le_add_right _ _
  unfold BufferedFile.remaining BufferedFile.rounds
  split_ifs
  · exact Nat.succ_pos _
  · rw [List.length_append]
    omega

theorem commandSet_snd (sets : CommandSets World) (line : Text) :
    (commandSet sets line).2 = unmarked line := by
  unfold commandSet unmarked
  split <;> rfl

/-- What a command leaves of the input: the lines of its table are gone, if it has one. -/
def LeftBy (line stream : Text) (file : BufferedFile) : Prop :=
  if isTableCommand line then Consumed stream file else file.Live ∧ file.remaining = stream

theorem answer_left {connection : Connection World} (hLive : connection.file.Live) {line : Text}
    (hTable : isTableCommand line = false) (result : World × Answer) :
    ((connection.answer line result).file.error = false →
      (connection.answer line result).file.written =
        connection.file.written ++ result.2.text) ∧
    LeftBy line connection.file.remaining (connection.answer line result).file := by
  obtain ⟨hRemaining, hEof, hError⟩ := connection.file.writeString_frame result.2.text
  refine ⟨fun _ => connection.file.writeString_written hLive.2 _, ?_⟩
  rw [LeftBy, if_neg (by rw [hTable]; decide)]
  exact ⟨⟨hEof.trans hLive.1, hError.trans hLive.2⟩, hRemaining⟩

theorem processConfigCommand_spec (sets : CommandSets World) {connection : Connection World}
    (hLive : connection.file.Live) (line : Text) :
    ∃ next answer, processConfigCommand sets connection line = some next ∧
      next.executed = connection.executed ++ [(line, answer)] ∧
      (next.file.error = false →
        next.file.written = connection.file.written ++ answer.text) ∧
      LeftBy line connection.file.remaining next.file := by
  have hRest : (commandRest (commandSet sets line).2).head? = some '<' ↔
      isTableCommand line = true := by
    rw [commandSet_snd, isTableCommand, decide_eq_true_eq]
  unfold processConfigCommand
  simp only
  split
  · rename_i value hValue
    have hTable : isTableCommand line = false := by
      rw [← Bool.not_eq_true, ← hRest, hValue]
      simp
    exact ⟨_, _, rfl, rfl, answer_left hLive hTable _⟩
  · rename_i value hValue
    have hTable : isTableCommand line = false := by
      rw [← Bool.not_eq_true, ← hRest, hValue]
      simp
    exact ⟨_, _, rfl, rfl, answer_left hLive hTable _⟩
  · rename_i value hValue
    have hTable : isTableCommand line = true := by
      rw [← hRest, hValue]
      rfl
    obtain ⟨next, last, result, hPut, hWritten, hConsumed⟩ := doPutTable_consumed
      (parseTableCommand (commandSet sets line).1 (commandName (commandSet sets line).2) value
        connection.world).2.1 hLive (remaining_lt_rounds connection.file)
      (parseTableCommand (commandSet sets line).1 (commandName (commandSet sets line).2) value
        connection.world).1 none
    unfold processPutTableCommand
    simp only [hPut, Option.map_some]
    refine ⟨_, _, rfl, rfl, fun hError => ?_, ?_⟩
    · have hNext : next.error = false := (next.writeString_frame _).2.2.symm.trans hError
      exact (next.writeString_written hNext _).trans (by rw [hWritten])
    · rw [LeftBy, if_pos hTable]
      exact hConsumed.writeString _
  · rename_i hNone
    have hTable : isTableCommand line = false := by
      rw [← Bool.not_eq_true, ← hRest]
      intro hHead
      cases hCommand : commandRest (commandSet sets line).2 with
      | nil => simp [hCommand] at hHead
      | cons ch value =>
          rw [hCommand, List.head?_cons, Option.some.injEq] at hHead
          exact hNone value (by rw [hCommand, hHead])
    exact ⟨_, _, rfl, rfl, answer_left hLive hTable _⟩

/-! ### Whole connections -/

/-- What a connection does with the stream that is left. -/
def Serves (connection last : Connection World) (stream : Text) : Prop :=
  ∃ done : List (Text × Answer), last.executed = connection.executed ++ done ∧
    done.map Prod.fst <+: commandLines false (lineStrings stream) ∧
    (Short stream → done.map Prod.fst = commandLines false (lineStrings stream) ∧
      last.file.error = false ∧
      last.file.written = connection.file.written ++ done.flatMap (fun entry => entry.2.text) ∧
      (tableOpen false (lineStrings stream) = false → last.file.outBuf = []))

theorem Serves.cons {connection next last : Connection World} {line stream rest : Text}
    {answer : Answer} (hSplit : BufferedFile.splitLine stream = some (line, rest))
    (hExecuted : next.executed = connection.executed ++ [(cString line, answer)])
    (hCommands : commandLines (isTableCommand (cString line)) (lineStrings rest) =
      commandLines false (lineStrings next.file.remaining))
    (hOpen : tableOpen (isTableCommand (cString line)) (lineStrings rest) =
      tableOpen false (lineStrings next.file.remaining))
    (hRest : Short rest → Short next.file.remaining)
    (hWritten : next.file.written = connection.file.written ++ answer.text)
    (hServes : Serves next last next.file.remaining) : Serves connection last stream := by
  obtain ⟨done, hDone, hBegins, hAll⟩ := hServes
  have hLines := lineStrings_of_splitLine hSplit
  refine ⟨(cString line, answer) :: done, ?_, ?_, fun hShort => ?_⟩
  · rw [hDone, hExecuted, List.append_assoc]
    rfl
  · rw [hLines, commandLines, hCommands, List.map_cons, List.cons_prefix_cons]
    exact ⟨rfl, hBegins⟩
  · obtain ⟨hSame, hNoError, hText, hEmpty⟩ := hAll (hRest (hShort.rest hSplit))
    rw [hLines, commandLines, tableOpen, hCommands, hOpen]
    refine ⟨?_, hNoError, ?_, hEmpty⟩
    · rw [List.map_cons, hSame]
    · rw [hText, hWritten, List.flatMap_cons, List.append_assoc]

theorem processConfigSocket_spec (sets : CommandSets World) {rounds : Nat}
    {connection : Connection World} (hLive : connection.file.Live)
    (hRounds : connection.file.remaining.length < rounds) :
    ∃ last, processConfigSocket sets rounds connection = some last ∧
      Serves connection last connection.file.remaining := by
  induction rounds generalizing connection with
  | zero => omega
  | succ rounds ih =>
      have hRead := BufferedFile.readLine_spec hLive true
      rw [processConfigSocket]
      generalize connection.file.readLine true = read at hRead ⊢
      cases hRead with
      | @found file text rest hSplit hShort hFileLive hRest hWritten =>
          have hLength := BufferedFile.splitLine_length hSplit
          obtain ⟨next, answer, hNext, hExecuted, hText, hLeft⟩ :=
            @processConfigCommand_spec World sets { connection with file } hFileLive (cString text)
          simp only [List.nil_append, hNext, Option.bind_some]
          rw [hWritten] at hText
          rw [hRest] at hLeft
          unfold LeftBy at hLeft
          split_ifs at hLeft with hTable
          · cases hLeft with
            | closed hNextLive hLess hCommands hOpen hStill =>
                obtain ⟨last, hLast, hServes⟩ := ih hNextLive (by omega)
                refine ⟨last, hLast, Serves.cons hSplit hExecuted ?_ ?_ hStill
                  (hText hNextLive.2) hServes⟩
                · rw [hTable, hCommands]
                · rw [hTable, hOpen]
            | exhausted hNextLive hEnd =>
                -- the input is over within the table
                obtain ⟨left, rfl⟩ : ∃ left, rounds = left + 1 := ⟨rounds - 1, by omega⟩
                have hLines := lineStrings_of_splitLine hSplit
                refine ⟨next, ?_, [(cString text, answer)], hExecuted, ?_, fun hShort => ?_⟩
                · rw [processConfigSocket, BufferedFile.readLine_of_not_live hNextLive]
                · rw [hLines, commandLines]
                  exact List.cons_prefix_cons.mpr ⟨rfl, List.nil_prefix⟩
                · obtain ⟨hNoError, hNone, hStays⟩ := hEnd (hShort.rest hSplit)
                  rw [hLines, commandLines, tableOpen, hTable, hNone, hStays]
                  refine ⟨rfl, hNoError, ?_, fun h => Bool.noConfusion h⟩
                  rw [hText hNoError, List.flatMap_singleton]
          · obtain ⟨hNextLive, hRemaining⟩ := hLeft
            obtain ⟨last, hLast, hServes⟩ := ih hNextLive (by rw [hRemaining]; omega)
            have hPlain : isTableCommand (cString text) = false := by simpa using hTable
            refine ⟨last, hLast, Serves.cons hSplit hExecuted ?_ ?_ ?_ (hText hNextLive.2) hServes⟩
            · rw [hPlain, hRemaining]
            · rw [hPlain, hRemaining]
            · rw [hRemaining]
              exact id
      | @ended file hNone hShort hEof hError hWritten hFlush =>
          have hLines : lineStrings connection.file.remaining = [] := by
            rw [lineStrings, streamLines_of_splitLine_none hNone]
            rfl
          refine ⟨_, rfl, [], (List.append_nil _).symm, List.nil_prefix, fun _ => ?_⟩
          rw [hLines]
          exact ⟨rfl, hError, hWritten.trans (List.append_nil _).symm, fun _ => hFlush (.inl rfl)⟩
      | @failed file hLong hError hWritten =>
          exact ⟨_, rfl, [], (List.append_nil _).symm, List.nil_prefix,
            fun hShort => absurd hLong hShort.not_overlong⟩

/-! ### Write locks -/

section Locks

variable {Rest : Type}

/-- What one command does to write locks: nothing, or one is taken and then released. -/
def Balanced (events : List LockEvent) : Prop :=
  events = [] ∨ ∃ block, events = [.lock block, .unlock block]

/-- A writer that has taken these locks, and releases them when it is closed. -/
structure Holding (writer : PutTableWriter (Locked Rest)) (taken : List LockEvent) : Prop where
  write : ∀ world line, (writer.write world line).1.locks = world.locks
  close : ∀ world writeOk, ∃ released, (writer.close world writeOk).1.locks =
    world.locks ++ released ∧ Balanced (taken ++ released)

/-- What a command set may do to write locks. -/
structure Disciplined (set : CommandSet (Locked Rest)) : Prop where
  get : ∀ name world, (set.get name world).1.locks = world.locks
  put : ∀ name value world, (set.put name value world).1.locks = world.locks
  refused : ∀ name format world next message, set.putTable name format world =
    (next, .error message) → next.locks = world.locks
  accepted : ∀ name format world next writer, set.putTable name format world = (next, .ok writer) →
    ∃ taken, next.locks = world.locks ++ taken ∧ Holding writer taken

theorem lockFree_disciplined (set : CommandSet Rest) : Disciplined set.lockFree := by
  refine ⟨fun _ _ => rfl, fun _ _ _ => rfl, ?_, ?_⟩
  · intro name format world next message hPut
    obtain ⟨rfl, -⟩ := Prod.mk.inj hPut
    rfl
  · intro name format world next writer hPut
    obtain ⟨rfl, hWriter⟩ := Prod.mk.inj hPut
    refine ⟨[], (List.append_nil _).symm, ?_⟩
    cases hInner : (set.putTable name format world.rest).2 with
    | error message =>
        rw [hInner] at hWriter
        exact absurd hWriter nofun
    | ok inner =>
        rw [hInner] at hWriter
        obtain rfl := Except.ok.inj hWriter
        exact ⟨fun _ _ => rfl, fun _ _ => ⟨[], (List.append_nil _).symm, .inl rfl⟩⟩

theorem startTableWrite_disciplined (host : TableHost Rest) (block : Nat) (format : TableFormat)
    (world next : Locked Rest) :
    (∀ message, host.startTableWrite block format world = (next, .error message) →
      next.locks = world.locks) ∧
    ∀ writer, host.startTableWrite block format world = (next, .ok writer) →
      ∃ taken, next.locks = world.locks ++ taken ∧ Holding writer taken := by
  unfold TableHost.startTableWrite
  split
  · refine ⟨fun message hStart => ?_, fun writer hStart => absurd (Prod.mk.inj hStart).2 nofun⟩
    obtain ⟨rfl, -⟩ := Prod.mk.inj hStart
    rfl
  · refine ⟨fun message hStart => ?_, fun writer hStart => absurd (Prod.mk.inj hStart).2 nofun⟩
    obtain ⟨rfl, -⟩ := Prod.mk.inj hStart
    rfl
  · refine ⟨fun message hStart => absurd (Prod.mk.inj hStart).2 nofun, fun writer hStart => ?_⟩
    obtain ⟨rfl, hWriter⟩ := Prod.mk.inj hStart
    obtain rfl := Except.ok.inj hWriter
    exact ⟨[.lock block], rfl, fun _ _ => rfl,
      fun _ _ => ⟨[.unlock block], rfl, .inr ⟨block, rfl⟩⟩⟩

theorem host_disciplined (host : TableHost Rest) : Disciplined host.commands := by
  refine ⟨fun _ _ => rfl, fun _ _ _ => rfl, ?_, ?_⟩
  · intro name format world next message hPut
    simp only [TableHost.commands] at hPut
    split at hPut
    · obtain ⟨rfl, -⟩ := Prod.mk.inj hPut
      rfl
    · rename_i rest block hFind
      exact (startTableWrite_disciplined host block format { world with rest } next).1 message hPut
  · intro name format world next writer hPut
    simp only [TableHost.commands] at hPut
    split at hPut
    · exact absurd (Prod.mk.inj hPut).2 nofun
    · rename_i rest block hFind
      exact (startTableWrite_disciplined host block format { world with rest } next).2 writer hPut

theorem doPutTable_locks {writer : PutTableWriter (Locked Rest)}
    (hWrite : ∀ world line, (writer.write world line).1.locks = world.locks) {rounds : Nat}
    {file next : BufferedFile} {world last : Locked Rest} {error result : Option LineText}
    (hPut : doPutTable writer rounds file world error = some (next, last, result)) :
    last.locks = world.locks := by
  induction rounds generalizing file world error with
  | zero => exact absurd hPut nofun
  | succ rounds ih =>
      rw [doPutTable] at hPut
      split at hPut
      · obtain ⟨-, hPut⟩ := Prod.mk.inj (Option.some.inj hPut)
        rw [← (Prod.mk.inj hPut).1]
      · split_ifs at hPut
        · obtain ⟨-, hPut⟩ := Prod.mk.inj (Option.some.inj hPut)
          rw [← (Prod.mk.inj hPut).1]
        · split at hPut
          · exact ih hPut
          · exact (ih hPut).trans (hWrite _ _)

theorem processPutTableCommand_locks {set : CommandSet (Locked Rest)} (hSet : Disciplined set)
    {name format : Text} {file next : BufferedFile} {world last : Locked Rest}
    {result : Option LineText}
    (hPut : processPutTableCommand set name format file world = some (next, last, result)) :
    ∃ events, last.locks = world.locks ++ events ∧ Balanced events := by
  obtain ⟨taken, hTaken, hHolding⟩ : ∃ taken,
      (parseTableCommand set name format world).1.locks = world.locks ++ taken ∧
        Holding (parseTableCommand set name format world).2.1 taken := by
    have hDummy : Holding (dummyTableWriter : PutTableWriter (Locked Rest)) [] :=
      ⟨fun _ _ => rfl, fun _ _ => ⟨[], (List.append_nil _).symm, .inl rfl⟩⟩
    unfold parseTableCommand
    split
    · exact ⟨[], (List.append_nil _).symm, hDummy⟩
    · split
      · rename_i hRefused
        exact ⟨[], (hSet.refused _ _ _ _ _ hRefused).trans (List.append_nil _).symm, hDummy⟩
      · rename_i hAccepted
        exact hSet.accepted _ _ _ _ _ hAccepted
  unfold processPutTableCommand at hPut
  obtain ⟨⟨middle, written, putError⟩, hInner, hEq⟩ := Option.map_eq_some_iff.mp hPut
  obtain ⟨-, hEq⟩ := Prod.mk.inj hEq
  obtain ⟨rfl, -⟩ := Prod.mk.inj hEq
  obtain ⟨released, hReleased, hBalanced⟩ := hHolding.close written putError.isNone
  refine ⟨taken ++ released, ?_, hBalanced⟩
  rw [hReleased, doPutTable_locks hHolding.write hInner, hTaken, List.append_assoc]

theorem commandSet_disciplined {sets : CommandSets (Locked Rest)} (hSystem : Disciplined sets.system)
    (hEntity : Disciplined sets.entity) (line : Text) : Disciplined (commandSet sets line).1 := by
  unfold commandSet
  split
  · exact hSystem
  · exact hEntity

theorem processConfigCommand_locks {sets : CommandSets (Locked Rest)}
    (hSystem : Disciplined sets.system) (hEntity : Disciplined sets.entity)
    {connection next : Connection (Locked Rest)} {line : Text}
    (hNext : processConfigCommand sets connection line = some next) :
    next.executed.length = connection.executed.length + 1 ∧
      ∃ events, next.world.locks = connection.world.locks ++ events ∧ Balanced events := by
  have hSet := commandSet_disciplined hSystem hEntity line
  unfold processConfigCommand at hNext
  simp only at hNext
  split at hNext
  · obtain rfl := Option.some.inj hNext
    refine ⟨List.length_append, [], ?_, .inl rfl⟩
    rw [List.append_nil]
    unfold Connection.answer doReadCommand
    simp only
    split_ifs
    · exact hSet.get _ _
    · rfl
  · obtain rfl := Option.some.inj hNext
    refine ⟨List.length_append, [], ?_, .inl rfl⟩
    rw [List.append_nil]
    exact hSet.put _ _ _
  · obtain ⟨⟨file, last, result⟩, hPut, rfl⟩ := Option.map_eq_some_iff.mp hNext
    exact ⟨List.length_append, processPutTableCommand_locks hSet hPut⟩
  · obtain rfl := Option.some.inj hNext
    exact ⟨List.length_append, [], (List.append_nil _).symm, .inl rfl⟩

/-- Each command of a connection is balanced by itself. -/
theorem processConfigSocket_locks {sets : CommandSets (Locked Rest)}
    (hSystem : Disciplined sets.system) (hEntity : Disciplined sets.entity) {rounds : Nat}
    {connection last : Connection (Locked Rest)}
    (hLast : processConfigSocket sets rounds connection = some last) :
    ∃ events : List (List LockEvent),
      last.executed.length = connection.executed.length + events.length ∧
      (∀ command ∈ events, Balanced command) ∧
      last.world.locks = connection.world.locks ++ events.flatten := by
  induction rounds generalizing connection with
  | zero => exact absurd hLast nofun
  | succ rounds ih =>
      rw [processConfigSocket] at hLast
      split at hLast
      · obtain rfl := Option.some.inj hLast
        exact ⟨[], rfl, nofun, (List.append_nil _).symm⟩
      · obtain ⟨next, hNext, hRest⟩ := Option.bind_eq_some_iff.mp hLast
        obtain ⟨hCount, first, hFirst, hBalanced⟩ :=
          processConfigCommand_locks hSystem hEntity hNext
        obtain ⟨events, hEvents, hAll, hLocks⟩ := ih hRest
        refine ⟨first :: events, ?_, ?_, ?_⟩
        · rw [hEvents, hCount, List.length_cons]
          simp only
          omega
        · intro command hCommand
          rcases List.mem_cons.mp hCommand with rfl | hCommand
          · exact hBalanced
          · exact hAll command hCommand
        · rw [hLocks, hFirst, List.flatten_cons, List.append_assoc]

end Locks

/-! ### Answers -/

theorem streamLines_flatMap {lines : List Text} (hPlain : ∀ line ∈ lines, '\n' ∉ line) :
    streamLines (lines.flatMap fun line => line ++ ['\n']) = lines := by
  induction lines with
  | nil => rfl
  | cons line lines ih =>
      have hSplit := BufferedFile.splitLine_line (hPlain line List.mem_cons_self)
        (lines.flatMap fun line => line ++ ['\n'])
      rw [List.flatMap_cons, List.append_assoc, List.singleton_append,
        streamLines_of_splitLine hSplit, ih fun other hOther =>
          hPlain other (List.mem_cons_of_mem _ hOther)]

theorem Answer.plain (answer : Answer) : ∀ line ∈ answer.lines, '\n' ∉ line := by
  intro line hLine
  rcases List.mem_append.mp hLine with hMany | hStatus
  · obtain ⟨text, -, rfl⟩ := List.mem_map.mp hMany
    simp [text.plain]
  · obtain rfl := List.mem_singleton.mp hStatus
    cases answer.status with
    | ok => decide
    | value string =>
        simp only [Status.line, List.mem_append]
        exact not_or.mpr ⟨by decide, string.plain⟩
    | many => decide
    | error message =>
        simp only [Status.line, List.mem_append]
        exact not_or.mpr ⟨by decide, message.plain⟩

theorem streamLines_answers (answers : List Answer) :
    streamLines (answers.flatMap Answer.text) = answers.flatMap Answer.lines := by
  have hText : answers.flatMap Answer.text =
      (answers.flatMap Answer.lines).flatMap fun line => line ++ ['\n'] := by
    rw [List.flatMap_assoc]
    rfl
  rw [hText, streamLines_flatMap]
  intro line hLine
  obtain ⟨answer, -, hIn⟩ := List.mem_flatMap.mp hLine
  exact answer.plain line hIn

/-- For all that the commands may do, and for every stream of a client, however it is cut: only
the commands among its lines are executed, in order and without the lines of tables, and each of
them takes no write lock, or one that it releases. If no line is too long then each command is
executed and answered with the lines of one answer, in order, and the answers are sent unless
the stream ends within a table. -/
theorem config_protocol_in_step {Rest : Type} (system : CommandSet Rest) (host : TableHost Rest)
    (rest : Rest) (chunks : List Text) :
    ∃ last, configSession (configCommands system host) { rest, locks := [] } chunks = some last ∧
      last.executed.map Prod.fst <+:
        commandLines false (lineStrings (chunks.takeWhile (· ≠ [])).flatten) ∧
      (∃ events : List (List LockEvent), events.length = last.executed.length ∧
        (∀ command ∈ events, Balanced command) ∧ last.world.locks = events.flatten) ∧
      (Short (chunks.takeWhile (· ≠ [])).flatten →
        last.executed.map Prod.fst =
          commandLines false (lineStrings (chunks.takeWhile (· ≠ [])).flatten) ∧
        streamLines last.file.written =
          last.executed.flatMap (fun entry => entry.2.lines) ∧
        (tableOpen false (lineStrings (chunks.takeWhile (· ≠ [])).flatten) = false →
          last.file.sent = last.file.written)) := by
  have hLive : (BufferedFile.create chunks).Live := ⟨rfl, rfl⟩
  have hRemaining : (BufferedFile.create chunks).remaining =
      (chunks.takeWhile (· ≠ [])).flatten := rfl
  obtain ⟨last, hLast, done, hDone, hBegins, hShort⟩ :=
    @processConfigSocket_spec _ (configCommands system host) (BufferedFile.create chunks).rounds
      { file := .create chunks, world := { rest, locks := [] }, executed := [] } hLive
      (remaining_lt_rounds _)
  obtain ⟨events, hCount, hBalanced, hLocks⟩ := processConfigSocket_locks
    (lockFree_disciplined system) (host_disciplined host) hLast
  rw [List.nil_append] at hDone
  rw [hRemaining] at hBegins hShort
  refine ⟨last, hLast, hDone ▸ hBegins, ⟨events, ?_, hBalanced, hLocks⟩, fun h => ?_⟩
  · rw [hCount]
    exact (Nat.zero_add _).symm
  · obtain ⟨hAll, -, hWritten, hSent⟩ := hShort h
    refine ⟨hDone ▸ hAll, ?_, fun hClosed => ?_⟩
    · have hText : last.file.written = (done.map Prod.snd).flatMap Answer.text := by
        rw [List.flatMap_map]
        exact hWritten
      rw [hText, streamLines_answers, List.flatMap_map, hDone]
    · rw [BufferedFile.written, hSent hClosed, List.append_nil]

/-! ### One table -/

def notATable : LineText := .ofString "Field not a table" (by decide)

/-- A server with a table `T`, which counts its lines, and fields that read one. -/
def countingHost : TableHost Nat where
  get := fun _ lines => (lines, { many := [], outcome := .ok (some (.ofString "1" (by decide))) })
  put := fun _ _ lines => (lines, none)
  findTable := fun name lines =>
    (lines, if name = "T".toList then .ok 0 else .error notATable)
  tryLock := fun _ lines => (lines, .taken)
  beginWrite := fun _ _ _ => 0
  writeTableLine := fun _ lines _ => (lines + 1, none)
  updateTable := fun _ lines => (lines, none)

/-- System commands that are all refused. -/
def noSystem : CommandSet Nat where
  get := fun _ lines => (lines, { many := [], outcome := .error unknownCommand })
  put := fun _ _ lines => (lines, some unknownCommand)
  putTable := fun _ _ lines => (lines, .error unknownCommand)

def countingSession (chunks : List Text) : Option (Connection (Locked Nat)) :=
  configSession (configCommands noSystem countingHost) { rest := 0, locks := [] } chunks

/-- A table command with two lines, in two pieces, and a read. The second line of the table looks
like a command. -/
def tableThenRead : List Text := ["T<\n1\nA".toList, "?\n\nA?\n".toList]

theorem table_then_read_in_step :
    Short tableThenRead.flatten ∧ ∃ last, countingSession tableThenRead = some last ∧
      last.executed.map Prod.fst = ["T<".toList, "A?".toList] ∧
      last.file.sent = last.file.written := by
  obtain ⟨last, hLast, -, -, hAll⟩ := config_protocol_in_step noSystem countingHost 0 tableThenRead
  have hShort : Short tableThenRead.flatten := by decide +kernel
  obtain ⟨hExecuted, -, hSent⟩ := hAll hShort
  exact ⟨hShort, last, hLast, hExecuted.trans (by decide +kernel), hSent (by decide +kernel)⟩

/-- A line of 1023 characters is a command, but the connection ends without an answer to it. -/
theorem long_line_unanswered :
    (commandLines false (lineStrings (List.replicate 1023 'x' ++ ['\n']))).length = 1 ∧
    ∃ last, countingSession [List.replicate 1023 'x' ++ ['\n']] = some last ∧
      last.executed.length = 0 ∧ last.file.written = [] := by
  have hEnd : (countingSession [List.replicate 1023 'x' ++ ['\n']]).map
      (fun last => (last.executed.length, last.file.written)) = some (0, []) := by decide +kernel
  obtain ⟨last, hLast, hEq⟩ := Option.map_eq_some_iff.mp hEnd
  obtain ⟨hExecuted, hWritten⟩ := Prod.mk.inj hEq
  exact ⟨by decide +kernel, last, hLast, hExecuted, hWritten⟩

end Server
