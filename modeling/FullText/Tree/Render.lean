import FullText.Tree.Basic

/-!
# Writing expression trees as queries

A term is written in its form, a join as its operands around its keyword, in parentheses if it is
grouped. On the left side of a tree every parenthesis opens before the first term.
-/

namespace FullText

/-- The operand that a term is written as, without its negation. -/
def TermForm.write (word : String) : TermForm → String
  | inflectional => "FORMSOF(INFLECTIONAL, " ++ word ++ ")"
  | thesaurus => "FORMSOF(THESAURUS, " ++ word ++ ")"
  | literal => "\"" ++ word ++ "\""

def Term.write (t : Term) : String :=
  if t.exclude then "NOT " ++ t.form.write t.word else t.form.write t.word

namespace Leaf

def write : Leaf → Except Fault String
  | absent => .ok ""
  | term t => .ok t.write
  | foreign f => .error (.notAnExpression f.shown)

end Leaf

namespace Tree

/-- Writes what one join adds behind its left operand. -/
def writeLevel (text : String) (level : Level (Except Fault String)) : Except Fault String := do
  let right ← level.right
  let text := text ++ " " ++ level.conjunction.keyword ++ " " ++ right
  return if level.grouped then text ++ ")" else text

/-- Writes a left side from the leaf at its bottom. -/
def writeFrom (l : Leaf) (levels : List (Level (Except Fault String))) : Except Fault String := do
  let opening := String.ofList (List.replicate (levels.countP (·.grouped)) '(')
  let first ← l.write
  levels.foldlM writeLevel (opening ++ first)

/-- The query that an expression tree stands for. -/
def render (t : Tree) : Except Fault String := t.walk writeFrom []

end Tree

end FullText
