import FullText.Export
import FullText.StopWords.File

/-!
# The convert command

What the command is asked to do, what it finds around it, and what comes of it. A format that does
not exist, stop words that cannot be found and a missing query end the command with a message.
Stop words that cannot be decoded and an output that cannot be written are faults.
-/

namespace FullText

/-- What the command is asked to do. -/
structure Request where
  query : Option String := none
  /-- Stop words on the command line. An empty list still counts as given. -/
  stopWords : Option (List String) := none
  stopWordsFile : Option String := none
  format : String := "text"
  output : Option String := none
  verbose : Bool := false
  deriving DecidableEq, Repr

/-- What the command finds around it. -/
structure Surroundings where
  directory : Directory := {}
  /-- The stop-word file that the environment names. -/
  setting : Option String := none
  /-- What is piped in, if anything is. -/
  piped : Option String := none
  deriving DecidableEq, Repr

structure Outcome where
  exit : Nat
  stdout : String := ""
  stderr : String := ""
  directory : Directory
  deriving DecidableEq, Repr

namespace Request

/-- The stop words to leave out: those given and those of the file given, or those of the file
that the environment names if neither is. -/
def gatherStopWords (r : Request) (around : Surroundings) :
    Except Fault (StopWords × List Note) :=
  match r.stopWords, r.stopWordsFile with
  | none, none => StopWords.ofSetting around.directory around.setting
  | given, none => .ok (StopWords.ofList (given.getD []), [])
  | given, some file => do
    let (loaded, note) ← StopWords.load around.directory (.ofString file)
    return (loaded.words.foldl StopWords.add (StopWords.ofList (given.getD [])), [note])

/-- The queries in a text, one a line, without the lines that hold none. -/
def queryLines (text : String) : List String :=
  (((Text.lines text.toList).map Text.stripChars).filter (· != [])).map String.ofList

/-- The queries to convert: the one given, or else those piped in. -/
def queries (r : Request) (around : Surroundings) : List String :=
  match r.query with
  | some query => [query]
  | none => (around.piped.map queryLines).getD []

/-- The notes as the log shows them, if it is shown. -/
def log (r : Request) (notes : List Note) : String :=
  if r.verbose then String.join (notes.map Note.line) else ""

/-- The end of a command that cannot do its work. -/
def failure (around : Surroundings) (log message : String) : Outcome :=
  { exit := 1, stderr := log ++ "Error: " ++ message ++ "\n", directory := around.directory }

/-- Exports the conversions to where they were asked for. -/
def deliver (r : Request) (around : Surroundings) (format : Format) (log : String)
    (conversions : List Conversion) : Except Fault Outcome :=
  match r.output with
  | none => do
    let text ← format.render conversions
    return { exit := 0, stdout := text ++ "\n", stderr := log, directory := around.directory }
  | some output => do
    let path := Path.ofString output
    let directory ← format.save conversions around.directory path
    let message := "Exported " ++ toString conversions.length ++ " queries to " ++ path.toString
    return { exit := 0, stderr := log ++ message ++ "\n", directory }

/-- Converts the queries with the stop words. -/
def convert (r : Request) (around : Surroundings) (format : Format) (words : StopWords)
    (notes : List Note) : Except Fault Outcome :=
  match r.queries around with
  | [] =>
    .ok (failure around (r.log notes) "No query provided. Use positional arg or pipe lines.")
  | queries => do
    let done ← queries.mapM fun q => Conversion.ofQueryNoting words (some q)
    let log := r.log (notes ++ done.flatMap (·.2))
    r.deliver around format log (done.map (·.1))

/-- Carries out the command. -/
def run (r : Request) (around : Surroundings) : Except Fault Outcome :=
  match Format.ofName r.format with
  | .error f => .ok (failure around "" f.message)
  | .ok format =>
    match r.gatherStopWords around with
    | .error f =>
      if f.isPathFault then
        .ok (failure around "" ("Cannot read stop words: " ++ f.message))
      else .error f
    | .ok (words, notes) => r.convert around format words notes

end Request

end FullText
