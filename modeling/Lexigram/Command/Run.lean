import Lexigram.Command.Arguments
import Lexigram.Grammar.Outline
import Lexigram.Stream.Worker

/-!
Running a command. All that a command reads is given beforehand, as an
environment, and all that it writes is returned, as a report: its output, its
log and what made it fail.
-/

namespace Lexigram.Command

/-- What is found at a path. -/
inductive File where
  | content (bytes : List UInt8)
  /-- It cannot be opened. -/
  | missing (reason : String)
  /-- It can be opened but not read. -/
  | unreadable (reason : String)
  deriving Repr, DecidableEq

/-- What a command can read: files by their paths, and the standard input. -/
structure Environment where
  file : String → File
  input : List UInt8

/-- What a command did. -/
structure Report where
  output : List Char
  records : List LogRecord
  /-- Why the command failed, if it did. -/
  failure : Option String
  deriving Repr, DecidableEq

namespace Report

/-- A command that wrote its output. -/
def success (output : List Char) : Report := ⟨output, [], none⟩

/-- A command that failed before it wrote anything. -/
def failed (message : String) : Report := ⟨[], [], some message⟩

/-- A report with records in front of its own. -/
def after (r : Report) (records : List LogRecord) : Report :=
  { r with records := records ++ r.records }

end Report

/-- A failure with the activity that failed in front. -/
def failureOf (activity cause : String) : String :=
  activity ++ ": " ++ cause

/-- A path between backticks, as it stands in messages. -/
def quotedPath (path : String) : String :=
  "`" ++ path ++ "`"

/-- The text of a file, which has to be in UTF-8. -/
def readText (env : Environment) (path : String) : Except String String :=
  let failed (reason : String) : Except String String :=
    .error (failureOf ("Failed to read " ++ quotedPath path) reason)
  match env.file path with
  | .missing reason | .unreadable reason => failed reason
  | .content bytes =>
    match String.fromUTF8? ⟨bytes.toArray⟩ with
    | some text => .ok text
    | none => failed "stream did not contain valid UTF-8"

/-- Loads a grammar and goes on with it. -/
def withGrammar (env : Environment) (path : String) (body : Grammar → Report) :
    Report :=
  match readText env path with
  | .error message => .failed message
  | .ok text =>
    let reading := Reading.ofText text.toList
    match reading.result with
    | .error e =>
      (Report.failed (failureOf ("Failed to parse " ++ quotedPath path)
        e.message)).after reading.records
    | .ok definitions =>
      let g := Grammar.ofDefinitions definitions
      (body g).after (reading.records ++
        [⟨.info, path ++ ": " ++ toString g.rules.length ++ " rules, "
          ++ toString g.alternativeCount ++ " options"⟩])

/-- Makes a grammar plain and goes on with it. -/
def withPlain (g : Grammar) (recursion : Recursion) (body : Grammar → Report) :
    Report :=
  let flattening := g.flatten recursion
  match flattening.result with
  | .error fault =>
    (Report.failed (failureOf "Failed to convert to BNF" fault.message)).after
      flattening.records
  | .ok plain => (body plain).after flattening.records

/-- Loads the lexicon of a grammar and goes on with it. -/
def withLexicon (env : Environment) (path : String) (fallback : Bool)
    (body : Lexicon → Report) : Report :=
  withGrammar env path fun g => withPlain g .right fun g =>
    let options : LexiconOptions := ⟨fallback, .default⟩
    let records := Lexicon.recordsOf g options
    match Lexicon.ofGrammar g options with
    | .error fault =>
      (Report.failed (failureOf "Failed to assemble the lexer"
        fault.message)).after records
    | .ok lexicon => (body lexicon).after records

/-- The patterns of a lexicon, one to a line: its rules, those for
configuration, white space, then the master pattern and its groups. -/
def describe (l : Lexicon) : String :=
  let rules := l.rules.map fun r => r.kind.name ++ "\t" ++ r.fragment
  let configuration := l.configuration.map fun r =>
    r.kind.name ++ " (configuration)\t" ++ r.fragment
  let groups := l.tokenGroups.map fun (group, kind) =>
    "group " ++ toString group ++ "\t" ++ kind.name
  let errors :=
    l.errorGroup.toList.map fun group => "group " ++ toString group ++ "\terror"
  let lines := rules ++ configuration
    ++ ["whitespace\t" ++ l.whitespace, "", l.source] ++ groups
    ++ ["group " ++ toString l.whitespaceGroup ++ "\twhitespace"] ++ errors
  String.join (lines.map (· ++ "\n"))

/-- A lexer, at work itself or on a worker. -/
inductive Feed where
  | direct (lexer : Lexer)
  | piped (pipeline : Pipeline)

namespace Feed

/-- How many results a queue holds. -/
def queueCapacity : Nat := 64

/-- The next result, and what was logged for it. -/
def next : Feed → Feed × LexResult × List LogRecord
  | direct lexer =>
    let turn := lexer.next
    (direct turn.lexer, turn.result.getD (.error .workerLost),
      turn.trace.records)
  | piped pipeline =>
    let (later, result) := pipeline.next
    (piped { later with log := [] }, result, later.log.reverse)

/-- A number of results that reaches the last. -/
def enoughResults : Feed → Nat
  | direct lexer => lexer.enoughTurns
  | piped pipeline => pipeline.enoughResults

end Feed

/-- An error and its cause in words. -/
def lexFailure : LexError → String
  | .readFailed f => failureOf (LexError.readFailed f).message f.message
  | e => e.message

/-- Prints the tokens up to the end of the stream or an error, `limit` at most.
Invalid tokens are passed over with a warning if `skipInvalid`. -/
def printTokens (skipInvalid : Bool) (feed : Feed) : (limit : Nat) → Report
  | 0 => .success []
  | limit + 1 =>
    let (feed, result, records) := feed.next
    let report := match result with
      | .ok token =>
        let others := printTokens skipInvalid feed limit
        { others with
          output := (token.kind.name ++ " " ++ Text.quoted token.text
            ++ "\n").toList ++ others.output }
      | .error .endOfStream => .success []
      | .error e =>
        if skipInvalid && e.isRecoverable then
          (printTokens skipInvalid feed limit).after [⟨.warn, e.message⟩]
        else .failed (lexFailure e)
    report.after records

/-- How many bytes of the standard input are fetched at a time, unless a buffer
asks for as many. -/
def blockSize : Nat := 8192

/-- A list of bytes in blocks of `size`, of which the last may be shorter. -/
def blocks (size : Nat) (bytes : List UInt8) : List (List UInt8) :=
  if 0 < size ∧ size < bytes.length then
    bytes.take size :: blocks size (bytes.drop size)
  else [bytes]
termination_by bytes.length

/-- The standard input as a source for a buffer of the given size. -/
def inputSource (bufferSize : Nat) (bytes : List UInt8) : Source :=
  if bufferSize < blockSize then (blocks blockSize bytes).map .bytes
  else [.bytes bytes]

/-- The source of a command that lexes: a file, or the standard input. -/
def sourceOf (env : Environment) (input : Option String) (bufferSize : Nat) :
    Except String Source :=
  match input with
  | none => .ok (inputSource bufferSize env.input)
  | some path =>
    match env.file path with
    | .content bytes => .ok [.bytes bytes]
    | .missing reason =>
      .error (failureOf ("Failed to open " ++ quotedPath path) reason)
    | .unreadable reason => .ok [.failure ⟨.other, reason⟩]

/-- Runs a command. -/
def run (env : Environment) : Command → Report
  | .print grammar plain leftRecursion outline =>
    let written (g : Grammar) : Report :=
      .success (if outline then writeOutline g.outline else g.write)
    withGrammar env grammar fun g =>
      if plain then
        withPlain g (if leftRecursion then .left else .right) written
      else written g
  | .patterns grammar fallback =>
    withLexicon env grammar fallback fun lexicon =>
      .success (describe lexicon).toList
  | .lex grammar input bufferSize threaded fallback skipInvalid =>
    withLexicon env grammar fallback fun lexicon =>
      match sourceOf env input bufferSize with
      | .error message => .failed message
      | .ok source =>
        let lexer := Lexer.new lexicon source bufferSize
        let feed : Feed :=
          if threaded then .piped (.new lexer Feed.queueCapacity)
          else .direct lexer
        printTokens skipInvalid feed feed.enoughResults

/-- The rank of the least grave level that the name of a level lets through;
zero lets nothing through. -/
def levelRank? (name : String) : Option Nat :=
  match String.ofList (name.toList.map Char.toLower) with
  | "off" => some 0
  | "error" => some Level.error.rank
  | "warn" => some Level.warn.rank
  | "info" => some Level.info.rank
  | "debug" => some Level.debug.rank
  | "trace" => some Level.trace.rank
  | _ => none

/-- The rank of the least grave level that is logged: warnings unless `name`
names another level, and more for each step of verbosity. -/
def logRank (name : Option String) (verbosity : Nat) : Nat :=
  ((name.bind levelRank?).getD Level.warn.rank) + verbosity

/-- How a process ends: its exit code and what it wrote. -/
structure Exit where
  code : Nat
  output : String
  errors : String
  deriving Repr, DecidableEq

/-- The end of a process that made a report, with the records up to a rank and
the failure as its errors. -/
def Report.exit (r : Report) (rank : Nat) : Exit :=
  let lines := r.records.filterMap fun record =>
    if record.level.rank ≤ rank then
      some ("[" ++ record.level.name ++ "] " ++ record.message ++ "\n")
    else none
  let failure :=
    r.failure.toList.map fun message => "error: " ++ message ++ "\n"
  ⟨if r.failure.isSome then 1 else 0, String.ofList r.output,
    String.join (lines ++ failure)⟩

/-- Runs an invocation. -/
def Invocation.run (env : Environment) (levelName : Option String)
    (i : Invocation) : Exit :=
  (i.command.run env).exit (logRank levelName i.verbosity)

end Lexigram.Command
