import FullText.Directory
import FullText.Note
import FullText.StopWords.Basic
import FullText.Text.Blank
import FullText.Text.Lines

/-!
# Stop-word files

A file holds one stop word a line. White space around a word does not count, and a line that is
then empty or starts with `#` holds no word.
-/

namespace FullText

namespace StopWords

/-- Whether a stripped line holds a word. -/
def isWordLine (line : List Char) : Bool := line != [] && line.head? != some '#'

/-- The words that a text holds, one a line. -/
def wordLines (text : List Char) : List String :=
  (((Text.lines text).map Text.stripChars).filter isWordLine).map String.ofList

def ofText (text : List Char) : StopWords := ofList (wordLines text)

/-- Reads the stop words from a file, and notes how many there were. -/
def load (d : Directory) (path : Path) : Except Fault (StopWords × Note) :=
  match d.read path with
  | .error f => .error f
  | .ok bytes =>
    match Text.decodeUtf8 bytes with
    | .error refusal => .error (.undecodable refusal)
    | .ok text =>
      let s := ofText text
      .ok (s, .loaded s.size path.toString)

/-- The stop words of the file that a setting names, none if it is unset or empty. -/
def ofSetting (d : Directory) (setting : Option String) : Except Fault (StopWords × List Note) :=
  match setting with
  | none | some "" => .ok (empty, [])
  | some path => (fun r => (r.1, [r.2])) <$> load d (.ofString path)

end StopWords

end FullText
