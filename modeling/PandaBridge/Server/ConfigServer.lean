import PandaBridge.Server.BufferedFile
import PandaBridge.Server.Table

/-! The configuration server: one line of a client is one command, answered by one status, with
the lines of a table after it if it writes one. What the commands do to the server is left to
their command sets. -/
namespace Server

/-- A text that the server puts on one line. -/
structure LineText where
  chars : Text
  plain : '\n' ∉ chars

def LineText.ofString (string : String) (plain : '\n' ∉ string.toList) : LineText :=
  ⟨string.toList, plain⟩

/-- What `get` leaves behind: the lines given to `write_many`, and then an error, one string, or
the end of the lines. -/
structure GetResult where
  many : List LineText
  outcome : Except LineText (Option LineText)

/-- `put_table_writer`. -/
structure PutTableWriter (World : Type) where
  write : World → Text → World × Option LineText
  close : World → Bool → World × Option LineText

/-- `config_command_set`. -/
structure CommandSet (World : Type) where
  get : Text → World → World × GetResult
  put : Text → Text → World → World × Option LineText
  putTable : Text → TableFormat → World → World × Except LineText (PutTableWriter World)

/-- The last line of an answer. -/
inductive Status
  | ok
  | value (string : LineText)
  | many
  | error (message : LineText)

def Status.line : Status → Text
  | .ok => "OK".toList
  | .value string => "OK =".toList ++ string.chars
  | .many => ".".toList
  | .error message => "ERR ".toList ++ message.chars

structure Answer where
  many : List LineText
  status : Status

/-- The lines of an answer: any number that start with an exclamation mark, and the status. -/
def Answer.lines (answer : Answer) : List Text :=
  answer.many.map (fun line => '!' :: line.chars) ++ [answer.status.line]

def Answer.text (answer : Answer) : Text := answer.lines.flatMap fun line => line ++ ['\n']

/-- A connection, with the commands it has executed and their answers. -/
structure Connection (World : Type) where
  file : BufferedFile
  world : World
  executed : List (Text × Answer)

/-- `report_status`. -/
def reportStatus : Option LineText → Answer
  | none => { many := [], status := .ok }
  | some message => { many := [], status := .error message }

def unexpectedText : LineText := .ofString "Unexpected text after command" (by decide)

def unknownCommand : LineText := .ofString "Unknown command" (by decide)

def unexpectedEof : LineText := .ofString "Unexpected EOF" (by decide)

def unexpectedCharacter : LineText := .ofString "Unexpected character after input" (by decide)

def tableBeingWritten : LineText := .ofString "Table currently being written" (by decide)

/-- A line as a string: what stands before its first NUL. -/
def cString (line : Text) : Text := line.takeWhile (· ≠ '\x00')

section Commands

variable {World : Type}

/-- `do_read_command`. -/
def doReadCommand (set : CommandSet World) (name value : Text) (world : World) : World × Answer :=
  if value = [] then
    let result := set.get name world
    let status :=
      match result.2.outcome with
      | .error message => .error message
      | .ok (some string) => .value string
      | .ok none => .many
    (result.1, { many := result.2.many, status })
  else (world, reportStatus (some unexpectedText))

/-- `do_write_command`. -/
def doWriteCommand (set : CommandSet World) (name value : Text) (world : World) : World × Answer :=
  let result := set.put name value world
  (result.1, reportStatus result.2)

/-- `do_put_table`, for at most so many lines: everything is read up to a blank line or to the
end of the input, and written until there is an error. -/
def doPutTable (writer : PutTableWriter World) : Nat → BufferedFile → World → Option LineText →
    Option (BufferedFile × World × Option LineText)
  | 0, _, _, _ => none
  | rounds + 1, file, world, error =>
      match file.readLine false with
      | (next, none) => some (next, world, error <|> some unexpectedEof)
      | (next, some line) =>
          if cString line = [] then some (next, world, error)
          else
            match error with
            | some message => doPutTable writer rounds next world (some message)
            | none =>
                let written := writer.write world (cString line)
                doPutTable writer rounds next written.1 written.2

def dummyTableWriter : PutTableWriter World where
  write := fun world _ => (world, none)
  close := fun world _ => (world, none)

/-- `parse_table_command`: the writer is a dummy if there is an error. -/
def parseTableCommand (set : CommandSet World) (name format : Text) (world : World) :
    World × PutTableWriter World × Option LineText :=
  match parseTableFormat format with
  | none => (world, dummyTableWriter, some unexpectedCharacter)
  | some flags =>
      match set.putTable name flags world with
      | (next, .error message) => (next, dummyTableWriter, some message)
      | (next, .ok writer) => (next, writer, none)

/-- Rounds enough for every line that is still to come. -/
def BufferedFile.rounds (file : BufferedFile) : Nat :=
  file.inBuf.length + file.chunks.flatten.length + 1

/-- `process_put_table_command`: the first of up to three errors is returned. -/
def processPutTableCommand (set : CommandSet World) (name format : Text) (file : BufferedFile)
    (world : World) : Option (BufferedFile × World × Option LineText) :=
  let parsed := parseTableCommand set name format world
  (doPutTable parsed.2.1 file.rounds file parsed.1 none).map fun put =>
    let closed := parsed.2.1.close put.2.1 put.2.2.isNone
    (put.1, closed.1, parsed.2.2 <|> put.2.2 <|> closed.2)

end Commands

structure CommandSets (World : Type) where
  system : CommandSet World
  entity : CommandSet World

/-- The command set and the rest of the line. -/
def commandSet {World : Type} (sets : CommandSets World) (line : Text) : CommandSet World × Text :=
  match line with
  | '*' :: rest => (sets.system, rest)
  | _ => (sets.entity, line)

/-- The command without its mark for the command set. -/
def unmarked (line : Text) : Text :=
  match line with
  | '*' :: rest => rest
  | _ => line

/-- The name of a command is what `strcspn` finds before its separator. -/
def commandName (command : Text) : Text :=
  command.takeWhile fun ch => !(ch == '?' || ch == '=' || ch == '<')

/-- What follows the name, with the separator. -/
def commandRest (command : Text) : Text := command.drop (commandName command).length

/-- A line of this kind is followed by the lines of a table. -/
def isTableCommand (line : Text) : Bool := (commandRest (unmarked line)).head? = some '<'

section Connections

variable {World : Type} (sets : CommandSets World)

/-- The answer is written and the command is done. -/
def Connection.answer (connection : Connection World) (line : Text) (result : World × Answer) :
    Connection World where
  file := connection.file.writeString result.2.text
  world := result.1
  executed := connection.executed ++ [(line, result.2)]

/-- `process_config_command`. -/
def processConfigCommand (connection : Connection World) (line : Text) :
    Option (Connection World) :=
  let (set, command) := commandSet sets line
  let name := commandName command
  match commandRest command with
  | '?' :: value => some (connection.answer line (doReadCommand set name value connection.world))
  | '=' :: value => some (connection.answer line (doWriteCommand set name value connection.world))
  | '<' :: value =>
      (processPutTableCommand set name value connection.file connection.world).map fun put =>
        ({ connection with file := put.1 } : Connection World).answer line
          (put.2.1, reportStatus put.2.2)
  | _ => some (connection.answer line (connection.world, reportStatus (some unknownCommand)))

/-- `process_config_socket`, for at most so many commands. -/
def processConfigSocket : Nat → Connection World → Option (Connection World)
  | 0, _ => none
  | rounds + 1, connection =>
      match connection.file.readLine true with
      | (file, none) => some { connection with file }
      | (file, some line) =>
          (processConfigCommand sets { connection with file } (cString line)).bind
            (processConfigSocket rounds)

/-- A connection from its first byte to its last. -/
def configSession (world : World) (chunks : List Text) : Option (Connection World) :=
  processConfigSocket sets (BufferedFile.create chunks).rounds
    { file := .create chunks, world, executed := [] }

end Connections

/-! ### Tables -/

inductive LockEvent
  | lock (block : Nat)
  | unlock (block : Nat)
  deriving DecidableEq

/-- The outcome of `pthread_mutex_trylock`. -/
inductive TryLock
  | taken
  | busy
  | failed (message : LineText)

/-- The server, and what this connection has done to the write locks of tables. -/
structure Locked (Rest : Type) where
  rest : Rest
  locks : List LockEvent

/-- What the entity commands need of the server: the commands that write no table, where a name
leads, the write locks, and the parts of a table write. -/
structure TableHost (Rest : Type) where
  get : Text → Rest → Rest × GetResult
  put : Text → Text → Rest → Rest × Option LineText
  findTable : Text → Rest → Rest × Except LineText Nat
  tryLock : Nat → Rest → Rest × TryLock
  beginWrite : Nat → TableFormat → Rest → Rest
  writeTableLine : Nat → Rest → Text → Rest × Option LineText
  updateTable : Nat → Rest → Rest × Option LineText

namespace TableHost

variable {Rest : Type} (host : TableHost Rest)

/-- `complete_table_write`: whatever happens, the lock is released. -/
def completeTableWrite (block : Nat) (world : Locked Rest) (writeOk : Bool) :
    Locked Rest × Option LineText :=
  let updated := if writeOk then host.updateTable block world.rest else (world.rest, none)
  ({ rest := updated.1, locks := world.locks ++ [.unlock block] }, updated.2)

/-- `start_table_write`. -/
def startTableWrite (block : Nat) (format : TableFormat) (world : Locked Rest) :
    Locked Rest × Except LineText (PutTableWriter (Locked Rest)) :=
  match host.tryLock block world.rest with
  | (rest, .busy) => ({ world with rest }, .error tableBeingWritten)
  | (rest, .failed message) => ({ world with rest }, .error message)
  | (rest, .taken) =>
      ({ rest := host.beginWrite block format rest, locks := world.locks ++ [.lock block] },
        .ok
          { write := fun world line =>
              let written := host.writeTableLine block world.rest line
              ({ world with rest := written.1 }, written.2)
            close := host.completeTableWrite block })

/-- `entity_commands`. -/
def commands : CommandSet (Locked Rest) where
  get := fun name world =>
    let result := host.get name world.rest
    ({ world with rest := result.1 }, result.2)
  put := fun name value world =>
    let result := host.put name value world.rest
    ({ world with rest := result.1 }, result.2)
  putTable := fun name format world =>
    match host.findTable name world.rest with
    | (rest, .error message) => ({ world with rest }, .error message)
    | (rest, .ok block) => host.startTableWrite block format { world with rest }

end TableHost

/-- Commands that have nothing to do with the write locks of tables. -/
def CommandSet.lockFree {Rest : Type} (set : CommandSet Rest) : CommandSet (Locked Rest) where
  get := fun name world =>
    let result := set.get name world.rest
    ({ world with rest := result.1 }, result.2)
  put := fun name value world =>
    let result := set.put name value world.rest
    ({ world with rest := result.1 }, result.2)
  putTable := fun name format world =>
    let result := set.putTable name format world.rest
    ({ world with rest := result.1 }, result.2.map fun writer =>
      { write := fun world line =>
          let written := writer.write world.rest line
          ({ world with rest := written.1 }, written.2)
        close := fun world writeOk =>
          let closed := writer.close world.rest writeOk
          ({ world with rest := closed.1 }, closed.2) })

/-- `system_commands` and `entity_commands`. -/
def configCommands {Rest : Type} (system : CommandSet Rest) (host : TableHost Rest) :
    CommandSets (Locked Rest) where
  system := system.lockFree
  entity := host.commands

end Server
