import FullText.Command.Request

/-!
# Command lines

A command line is the name of the command, options, and at most one query among them. Behind `--`
comes no option any more. The value of an option is the next argument, or stands behind `=` in the
same one if the option is written out.

With `FullText.Main` this is the outermost layer of the program. It makes a `Request` of what is
typed, and what the library proves of the command it proves of requests.
-/

namespace FullText

/-- The options that take a value. -/
inductive Setting where
  | query
  | stopWord
  | stopWordsFile
  | format
  | output
  deriving DecidableEq, Repr

namespace Setting

/-- The option with a written-out name. -/
def ofLongName? (name : String) : Option Setting :=
  if name = "--query" then some query
  else if name = "--stop-word" then some stopWord
  else if name = "--stop-words-file" then some stopWordsFile
  else if name = "--format" then some format
  else if name = "--output" then some output
  else none

def ofShortName? (name : String) : Option Setting :=
  if name = "-s" then some stopWord
  else if name = "-f" then some format
  else if name = "-o" then some output
  else none

def ofName? (name : String) : Option Setting := (ofLongName? name).or (ofShortName? name)

end Setting

/-- The two sides of the first equals sign. -/
def splitEquals? (arg : String) : Option (String × String) :=
  match arg.toList.span (· != '=') with
  | (name, _ :: value) => some (String.ofList name, String.ofList value)
  | (_, []) => none

namespace Request

def set (r : Request) (value : String) : Setting → Request
  | .query => { r with query := some value }
  | .stopWord => { r with stopWords := some (r.stopWords.getD [] ++ [value]) }
  | .stopWordsFile => { r with stopWordsFile := some value }
  | .format => { r with format := value }
  | .output => { r with output := some value }

/-- The query, of which there may be one only. -/
def setQuery? (r : Request) (value : String) : Option Request :=
  match r.query with
  | none => some { r with query := some value }
  | some _ => none

/-- Reads what comes behind the name of the command. -/
def readArguments (r : Request) : List String → Option Request
  | [] => some r
  | arg :: args =>
    if arg = "--" then args.foldlM setQuery? r
    else if arg = "--verbose" || arg = "-v" then readArguments { r with verbose := true } args
    else
      match Setting.ofName? arg with
      | some setting =>
        match args with
        | value :: args => readArguments (r.set value setting) args
        | [] => none
      | none =>
        match splitEquals? arg with
        | some (name, value) =>
          match Setting.ofLongName? name with
          | some setting => readArguments (r.set value setting) args
          | none =>
            if arg.toList.head? = some '-' then none
            else (r.setQuery? arg).bind fun r => readArguments r args
        | none =>
          if arg.toList.head? = some '-' && arg != "-" then none
          else (r.setQuery? arg).bind fun r => readArguments r args

/-- The request that a command line makes, if it is well-formed. -/
def ofArguments? : List String → Option Request
  | "convert" :: args => readArguments {} args
  | _ => none

end Request

end FullText
