import PandaBridge.Server.StateFile

/-! Indented files: every line is given to the parser that the line above its block installed.
The functions behind the pointers of a parser are left to its callers, and so is their state. -/
namespace Server

/-- The messages of an error, the one that was added last at the end. -/
abbrev ErrorMessages := List String

def maxIndent : Nat := 10

/-- `MAX_LINE_LENGTH` of `parse.c`, whose lines are shorter than those of a connection. -/
def configLineLength : Nat := 256

/-- `struct indent_parser`: a parser of the lines of one level. -/
structure IndentParser (Context ParseLine AtEnd : Type) where
  context : Option Context
  parseLine : Option ParseLine
  atEnd : Option AtEnd

/-- The parser without any function. -/
def IndentParser.empty {Context ParseLine AtEnd : Type} : IndentParser Context ParseLine AtEnd :=
  ⟨none, none, none⟩

/-- What `parse_line` leaves: the rest of the line, and the parser for the lines below it. -/
structure ParsedLine (Context ParseLine AtEnd World : Type) where
  world : World
  line : Text
  parser : IndentParser Context ParseLine AtEnd
  error : Option ErrorMessages

/-- The functions that pointers stand for. -/
structure IndentCalls (Context ParseLine AtEnd World : Type) where
  parseLine : ParseLine → Option Context → Text → World →
    ParsedLine Context ParseLine AtEnd World
  atEnd : AtEnd → Option Context → World → World × Option ErrorMessages

/-- `struct indent_state`: one level of the stack. -/
structure IndentState (Context ParseLine AtEnd : Type) where
  indent : Nat
  parser : IndentParser Context ParseLine AtEnd

/-- The array of levels and the current one. An access is checked against the length. -/
structure IndentStack (Context ParseLine AtEnd : Type) where
  entries : List (IndentState Context ParseLine AtEnd)
  sp : Nat

/-- What `parse_one_line` leaves. -/
structure LineResult (Context ParseLine AtEnd World : Type) where
  line : Text
  stack : IndentStack Context ParseLine AtEnd
  world : World
  error : Option ErrorMessages

/-- A call of `parse_one_line` with its line. -/
structure LineCall (Context ParseLine AtEnd World : Type) where
  line : Text
  result : LineResult Context ParseLine AtEnd World

/-- What `parse_indented_file` leaves, and the calls it has made. -/
structure FileResult (Context ParseLine AtEnd World : Type) where
  calls : List (LineCall Context ParseLine AtEnd World)
  world : World
  error : Option ErrorMessages

section Model

variable {Context ParseLine AtEnd World : Type}

/-- `open_indent`. -/
def openIndent (stack : IndentStack Context ParseLine AtEnd) (indent : Nat) :
    Option (IndentStack Context ParseLine AtEnd × Option ErrorMessages) :=
  if stack.sp < maxIndent then
    (stack.entries[stack.sp + 1]?).map fun state =>
      (⟨stack.entries.set (stack.sp + 1) { state with indent := indent }, stack.sp + 1⟩, none)
  else some (stack, some ["Too much indentation"])

/-- The parser of a level that is left is told so. -/
def closeParser (calls : IndentCalls Context ParseLine AtEnd World)
    (parser : IndentParser Context ParseLine AtEnd) (world : World) :
    World × Option ErrorMessages :=
  match parser.atEnd with
  | some atEnd => calls.atEnd atEnd parser.context world
  | none => (world, none)

/-- The loop of `close_indents`: the level it stops at. Below level 0 there is none. -/
def closeLoop (calls : IndentCalls Context ParseLine AtEnd World)
    (entries : List (IndentState Context ParseLine AtEnd)) (indent : Nat) :
    (sp : Nat) → World → Option (Nat × World × Option ErrorMessages)
  | 0, world =>
      (entries[1]?).bind fun state =>
        (entries[0]?).bind fun level =>
          if indent < level.indent then none
          else some (0, closeParser calls state.parser world)
  | sp + 1, world =>
      (entries[sp + 2]?).bind fun state =>
        (entries[sp + 1]?).bind fun level =>
          let closed := closeParser calls state.parser world
          if indent < level.indent then
            if closed.2.isSome then some (sp, closed) else closeLoop calls entries indent sp closed.1
          else some (sp + 1, closed)

/-- `close_indents`. -/
def closeIndents (calls : IndentCalls Context ParseLine AtEnd World)
    (stack : IndentStack Context ParseLine AtEnd) (indent : Nat) (world : World) :
    Option (IndentStack Context ParseLine AtEnd × World × Option ErrorMessages) :=
  (closeLoop calls stack.entries indent stack.sp world).bind fun closed =>
    match closed.2.2 with
    | some error => some (⟨stack.entries, closed.1⟩, closed.2.1, some error)
    | none => (stack.entries[closed.1]?).map fun level =>
        (⟨stack.entries, closed.1⟩, closed.2.1,
          if indent = level.indent then none else some ["Invalid indentation on line"])

/-- Comments and blank lines, after their indentation. -/
def isIgnored (text : Text) : Bool := text.isEmpty || text.head? == some '#'

/-- `parse_eos` as a test. -/
def endOfLine (line : Text) : Option ErrorMessages :=
  match parseEos line with
  | .ok _ => none
  | .error message => some [message]

/-- The parser of a level on a line, and the check that nothing is left of it. -/
def runParser (calls : IndentCalls Context ParseLine AtEnd World)
    (parser : IndentParser Context ParseLine AtEnd) (text : Text) (world : World) :
    ParsedLine Context ParseLine AtEnd World :=
  match parser.parseLine with
  | none => ⟨world, text, .empty, some ["Cannot parse this indentation"]⟩
  | some parseLine =>
      let parsed := calls.parseLine parseLine parser.context text world
      { parsed with error := parsed.error <|> endOfLine parsed.line }

/-- `parse_one_line`. Nothing comes back when an access leaves the array. -/
def parseOneLine (calls : IndentCalls Context ParseLine AtEnd World) (line : Text)
    (stack : IndentStack Context ParseLine AtEnd) (world : World) :
    Option (LineResult Context ParseLine AtEnd World) :=
  let text := skipWhitespace line
  let indent := line.length - text.length
  if isIgnored text then some ⟨text, stack, world, none⟩
  else
    (stack.entries[stack.sp]?).bind fun top =>
      (if top.indent < indent then
          (openIndent stack indent).map fun opened => (opened.1, world, opened.2)
        else closeIndents calls stack indent world).bind fun moved =>
        match moved.2.2 with
        | some error => some ⟨text, moved.1, moved.2.1, some error⟩
        | none =>
            (moved.1.entries[moved.1.sp]?).bind fun state =>
              (moved.1.entries[moved.1.sp + 1]?).map fun next =>
                let parsed := runParser calls state.parser text moved.2.1
                let installed := { next with parser := parsed.parser }
                ⟨parsed.line, ⟨moved.1.entries.set (moved.1.sp + 1) installed, moved.1.sp⟩,
                  parsed.world, parsed.error⟩

/-- Where an error of a line has occurred. -/
def linePosition (fileName : String) (lineNo : Nat) (line rest : Text) : String :=
  "Parsing line " ++ toString lineNo ++ " of \"" ++ fileName ++ "\" at column " ++
    toString (line.length - rest.length + 1)

/-- The loop of `parse_indented_file` over the strings that `fgets` gives. -/
def parseLines (calls : IndentCalls Context ParseLine AtEnd World) (fileName : String) :
    List Text → (lineNo : Nat) → IndentStack Context ParseLine AtEnd → World →
      Option (FileResult Context ParseLine AtEnd World)
  | [], _, _, world => some ⟨[], world, none⟩
  | line :: rest, lineNo, stack, world =>
      (parseOneLine calls line stack world).bind fun result =>
        match result.error with
        | some error => some ⟨[⟨line, result⟩], result.world,
            some (error ++ [linePosition fileName (lineNo + 1) line result.line])⟩
        | none => (parseLines calls fileName rest (lineNo + 1) result.stack result.world).map
            fun file => { file with calls := ⟨line, result⟩ :: file.calls }

/-- The buffer after a read, without its newline. -/
def bufferLine (piece : Text) : Text := (cString piece).takeWhile (· ≠ '\n')

/-- What `fgets` gives until the file ends, in at most so many reads. -/
def filePieces : (reads : Nat) → (file : Text) → List Text
  | 0, _ => []
  | reads + 1, file =>
      match fgets configLineLength file with
      | none => []
      | some (piece, rest) => piece :: filePieces reads rest

/-- The stack that a file starts with, of which only two entries are set. -/
def initialStack (parser : IndentParser Context ParseLine AtEnd)
    (unset : Fin maxIndent → IndentState Context ParseLine AtEnd) :
    IndentStack Context ParseLine AtEnd :=
  ⟨⟨0, parser⟩ :: ⟨0, .empty⟩ :: List.ofFn unset, 0⟩

/-- `parse_indented_file`, on the text of the file or the message of its failed `fopen`. A read
takes a character at least, so that the file has no more reads than characters. -/
def parseIndentedFile (calls : IndentCalls Context ParseLine AtEnd World) (fileName : String)
    (file : Except String Text) (parser : IndentParser Context ParseLine AtEnd)
    (unset : Fin maxIndent → IndentState Context ParseLine AtEnd) (world : World) :
    Option (FileResult Context ParseLine AtEnd World) :=
  match file with
  | .error message =>
      some ⟨[], world, some [message, "Unable to open file \"" ++ fileName ++ "\""]⟩
  | .ok text =>
      (parseLines calls fileName ((filePieces text.length text).map bufferLine) 0
        (initialStack parser unset) world).map fun parsed =>
        match parsed.error with
        | some _ => parsed
        -- an error of the last `end` is not looked at
        | none => { parsed with world := (closeParser calls parser parsed.world).1 }

end Model

end Server
