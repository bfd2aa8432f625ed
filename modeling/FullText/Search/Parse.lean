import FullText.Search.Item
import FullText.StopWords.Basic

/-!
# Reading search expressions

Terms are joined from the left as they are read. Keywords and marks before a term say how it is
joined, matched and negated, and hold for one term or block. No text is refused: what is not
closed runs to the end of the text, and an empty term or a stop word leaves no trace.
-/

namespace FullText

namespace Search

/-- How the next term is to be joined and matched. -/
structure Modifiers where
  conjunction : Conjunction
  form : TermForm := .inflectional
  exclude : Bool := false
  deriving DecidableEq, Repr

namespace Modifiers

def apply (m : Modifiers) : Keyword → Modifiers
  | .join c => { m with conjunction := c }
  | .negate => { m with exclude := true }

/-- A mark may say something about the next term; most say nothing. -/
def mark (m : Modifiers) (c : Char) : Modifiers :=
  if c = '-' then { m with exclude := true }
  else if c = '+' then { m with form := .literal }
  else if c = '~' then { m with form := .thesaurus }
  else m

/-- A starred word and a phrase are matched to the letter. -/
def literalIf (m : Modifiers) (b : Bool) : Modifiers := if b then { m with form := .literal } else m

end Modifiers

/-- Puts an expression behind those read so far. -/
def addNode (root node : Tree) (c : Conjunction) (grouped : Bool) : Except Fault Tree :=
  match node with
  | .absent => .ok root
  | _ => do
    let node ← node.regroup grouped
    match root with
    | .absent => return node
    | _ => Tree.joined root node c false

/-- Puts a term behind the expressions read so far, unless it is empty or a stop word. -/
def addTerm (words : StopWords) (root : Tree) (cs : List Char) (m : Modifiers) :
    Except Fault Tree :=
  let word := String.ofList cs
  if cs.isEmpty || words.contains word then .ok root
  else addNode root (.term { word, form := m.form, exclude := m.exclude }) m.conjunction false

/-- Reads from the cursor to the end of its text. `default` joins terms with no conjunction between
them, `m` holds for the next term, and `root` is what has been read so far. -/
def parseFrom (words : StopWords) (default : Conjunction) (c : Cursor) (m : Modifiers)
    (root : Tree) : Except Fault Tree :=
  if c.atEnd then .ok root
  else
    match _item : c.nextItem with
    | .error f => .error f
    | .ok (.word cs starred, d) =>
      match Keyword.ofWord? cs with
      | some k => parseFrom words default d (m.apply k) root
      | none => do
        let root ← addTerm words root cs (m.literalIf starred)
        parseFrom words default d { conjunction := default } root
    | .ok (.phrase cs, d) => do
      let root ← addTerm words root cs (m.literalIf true)
      parseFrom words default d { conjunction := default } root
    | .ok (.block b cs, d) => do
      let inner := b.default default
      let node ← parseFrom words inner (.ofChars cs) { conjunction := inner } .absent
      let root ← addNode root node m.conjunction b.groups
      parseFrom words default d { conjunction := default } root
    | .ok (.mark ch, d) => parseFrom words default d (m.mark ch) root
termination_by c.remaining
decreasing_by
  · exact Cursor.remaining_nextItem _item (by simp_all)
  · exact Cursor.remaining_nextItem _item (by simp_all)
  · exact Cursor.remaining_nextItem _item (by simp_all)
  · rw [Cursor.remaining_ofChars]
    exact Cursor.length_block_nextItem _item (by simp_all)
  · exact Cursor.remaining_nextItem _item (by simp_all)
  · exact Cursor.remaining_nextItem _item (by simp_all)

/-- The tree of a search expression, absent if there is nothing in it to search for. -/
def parse (text : String) (default : Conjunction) (words : StopWords) : Except Fault Tree :=
  parseFrom words default (.ofString text) { conjunction := default } .absent

end Search

end FullText
