import PandaBridge.Server.Metadata

/-! The system commands. Those that have nothing to do with metadata are left open, and so is
everything else that the server holds. -/
namespace Server

/-- `command_table_entry`. -/
structure CommandEntry (World : Type) where
  allowArg : Bool
  get : Option (Text → World → Except String GetResult)
  put : Option (Text → Text → World → World × Option LineText)
  putTable : Option (Text → World → World × Except LineText (PutTableWriter World))

section Commands

variable {World : Type} (table : Text → Option (CommandEntry World))

/-- Only some commands may have an argument. -/
def parseArg (allowArg : Bool) (command : Text) : Except String Unit :=
  if allowArg then .ok () else parseEos command

/-- `parse_system_command`. -/
def parseSystemCommand (command : Text) : Except String (Text × CommandEntry World) := do
  let (name, command) ← parseName maxNameLength command
  match table name with
  | none => .error "Unknown command"
  | some entry => do
      let _ ← parseArg entry.allowArg command
      .ok (command, entry)

def processSystemGet (command : Text) (world : World) : World × GetResult :=
  let result : Except String GetResult := do
    let (command, entry) ← parseSystemCommand table command
    match entry.get with
    | none => .error "Command not readable"
    | some get => get command world
  match result with
  | .error message => (world, { many := [], outcome := .error (.ofText message.toList) })
  | .ok result => (world, result)

def processSystemPut (command value : Text) (world : World) : World × Option LineText :=
  match parseSystemCommand table command with
  | .error message => (world, some (.ofText message.toList))
  | .ok (command, entry) =>
      match entry.put with
      | none => (world, some (.ofText "Command not writeable".toList))
      | some put => put command value world

def processSystemPutTable (command : Text) (format : TableFormat) (world : World) :
    World × Except LineText (PutTableWriter World) :=
  match parseSystemCommand table command with
  | .error message => (world, .error (.ofText message.toList))
  | .ok (command, entry) =>
      match entry.putTable with
      | none => (world, .error (.ofText "Not a table".toList))
      | some putTable =>
          if format.streaming then (world, .error (.ofText "Streaming mode not supported".toList))
          else if format.binary then (world, .error (.ofText "Binary writes not supported".toList))
          else putTable command world

/-- `system_commands`. -/
def systemCommands : CommandSet World where
  get := processSystemGet table
  put := processSystemPut table
  putTable := processSystemPutTable table

end Commands

/-- A server: its metadata and the rest of it. -/
structure Host (Rest : Type) where
  metadata : Metadata
  rest : Rest

section Hosts

variable {Rest : Type}

/-- The writer of a part of the server. -/
def PutTableWriter.onMetadata (writer : PutTableWriter Metadata) : PutTableWriter (Host Rest) where
  write := fun host line =>
    let written := writer.write host.metadata line
    ({ host with metadata := written.1 }, written.2)
  close := fun host writeOk =>
    let closed := writer.close host.metadata writeOk
    ({ host with metadata := closed.1 }, closed.2)

def PutTableWriter.onRest (writer : PutTableWriter Rest) : PutTableWriter (Host Rest) where
  write := fun host line =>
    let written := writer.write host.rest line
    ({ host with rest := written.1 }, written.2)
  close := fun host writeOk =>
    let closed := writer.close host.rest writeOk
    ({ host with rest := closed.1 }, closed.2)

/-- The entry of `*METADATA` in the command table. -/
def metadataEntry : CommandEntry (Host Rest) where
  allowArg := true
  get := some fun command host => host.metadata.getMetadata command
  put := some fun command value host =>
    match host.metadata.putMetadata command value with
    | .error message => (host, some (.ofText message.toList))
    | .ok metadata => ({ host with metadata }, none)
  putTable := some fun command host =>
    match host.metadata.putTableMetadata command with
    | .error message => (host, .error (.ofText message.toList))
    | .ok (metadata, index) =>
        ({ host with metadata }, .ok (Metadata.multilineWriter index).onMetadata)

/-- The other commands leave the metadata alone. -/
def CommandEntry.onRest (entry : CommandEntry Rest) : CommandEntry (Host Rest) where
  allowArg := entry.allowArg
  get := entry.get.map fun get command host => get command host.rest
  put := entry.put.map fun put command value host =>
    let result := put command value host.rest
    ({ host with rest := result.1 }, result.2)
  putTable := entry.putTable.map fun putTable command host =>
    let result := putTable command host.rest
    ({ host with rest := result.1 }, result.2.map PutTableWriter.onRest)

def CommandSet.onRest (set : CommandSet Rest) : CommandSet (Host Rest) where
  get := fun name host =>
    let result := set.get name host.rest
    ({ host with rest := result.1 }, result.2)
  put := fun name value host =>
    let result := set.put name value host.rest
    ({ host with rest := result.1 }, result.2)
  putTable := fun name format host =>
    let result := set.putTable name format host.rest
    ({ host with rest := result.1 }, result.2.map PutTableWriter.onRest)

/-- The command table, with the commands that are not about metadata. -/
def commandTable (others : Text → Option (CommandEntry Rest)) (name : Text) :
    Option (CommandEntry (Host Rest)) :=
  if name = "METADATA".toList then some metadataEntry else (others name).map CommandEntry.onRest

/-- The command sets of the server. -/
def hostCommands (others : Text → Option (CommandEntry Rest)) (entity : CommandSet Rest) :
    CommandSets (Host Rest) where
  system := systemCommands (commandTable others)
  entity := entity.onRest

end Hosts

end Server
