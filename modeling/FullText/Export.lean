import FullText.Conversion
import FullText.Directory
import FullText.Json.Printer

/-!
# Exporting conversions

Conversions are written as text, one query a line, or as a JSON document with their trees and two
counts.
-/

namespace FullText

inductive Format where
  | text
  /-- JSON on one line, or indented by a number of spaces a level. -/
  | json (indent : Option Int)
  deriving DecidableEq, Repr

namespace Format

def name : Format → String
  | text => "text"
  | json _ => "json"

def ofName (name : String) : Except Fault Format :=
  if name = "text" then .ok text
  else if name = "json" then .ok (json (some 2))
  else .error (.unknownFormat name)

/-- The document that is exported as JSON. -/
def document (conversions : List Conversion) : Except Fault Value := do
  let records ← conversions.mapM Conversion.record
  return .record
    [("results", .list records), ("total", .int conversions.length),
     ("empty", .int (conversions.countP (·.isEmpty)))]

/-- The lines in order, with a line feed between each two. -/
def joinLines (lines : List String) : String := "\n".intercalate lines

def render (conversions : List Conversion) : Format → Except Fault String
  | text => .ok (joinLines (conversions.map (·.text)))
  | json indent => Json.render indent <$> document conversions

/-- Writes the conversions to a file. -/
def save (format : Format) (conversions : List Conversion) (d : Directory) (path : Path) :
    Except Fault Directory := do
  let text ← format.render conversions
  d.write path (Text.encodeUtf8 text)

end Format

end FullText
