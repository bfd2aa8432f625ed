import FullText.Note
import FullText.Search.Parse
import FullText.Tree.Normalize
import FullText.Tree.Record
import FullText.Tree.Render

/-!
# Conversions

A search expression is read, repaired and written as a full-text query.
-/

namespace FullText

/-- The outcome of converting one search expression. -/
structure Conversion where
  query : Option String
  text : String
  tree : Tree
  deriving Repr

namespace Conversion

/-- Whether nothing to search for was left. -/
def isEmpty (c : Conversion) : Bool := c.text == ""

def record (c : Conversion) : Except Fault Value := do
  let tree ← c.tree.recordOrNull
  return .record
    [("query", (c.query.map Value.text).getD .null), ("fts_query", .text c.text), ("tree", tree)]

/-- Converts an expression, leaving out the stop words, and notes what happens on the way. No
expression is read as an empty one. -/
def ofQueryNoting (words : StopWords) (query : Option String) :
    Except Fault (Conversion × List Note) := do
  let parsed ← Search.parse (query.getD "") .and words
  let repaired ← parsed.repair true
  let text ← repaired.tree.render
  return (⟨query, text, repaired.tree⟩,
    repaired.dropped.map Note.discarded ++ [.converted query text])

def ofQuery (words : StopWords) (query : Option String) : Except Fault Conversion :=
  (·.1) <$> ofQueryNoting words query

end Conversion

end FullText
