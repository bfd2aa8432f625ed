import FullText.Conversion
import FullText.Proofs.Reading
import FullText.Proofs.Repair
import FullText.Proofs.Written

/-!
# Conversions without faults

Each expression has a conversion (`ofQuery_eq`): the tree is the repaired tree of its tokens, and
the text is that of the tokens of the tree.
-/

namespace FullText

namespace Conversion

/-- The tree that an expression is converted to. -/
def treeOf (words : StopWords) (query : Option String) : Tree :=
  (Search.buildText (query.getD "") .and words).repaired true

theorem treeOf_settled (words : StopWords) (query : Option String) :
    Tree.Settled true (treeOf words query) :=
  Tree.repaired_settled (Search.built_buildText _ _ _) true

theorem parse_query (words : StopWords) (query : Option String) :
    Search.parse (query.getD "") .and words =
      .ok (Search.buildText (query.getD "") .and words) := by
  unfold Search.parse
  rw [Cursor.ofString, Cursor.ofChars_eq_between]
  exact Search.parseFrom_between (.inr rfl) words .and { conjunction := .and } [] _

theorem ofQuery_eq (words : StopWords) (query : Option String) :
    ofQuery words query =
      .ok ⟨query, String.ofList (Query.write (Query.ofTree (treeOf words query))),
        treeOf words query⟩ := by
  obtain ⟨dropped, hrepair⟩ :=
    Tree.repair_of_built (Search.built_buildText (query.getD "") .and words) true
  have hrender :=
    Tree.render_of_whole (treeOf_settled words query).whole
  unfold ofQuery ofQueryNoting
  rw [parse_query]
  show Except.map _ (Tree.repair _ true >>= _) = _
  rw [hrepair]
  show Except.map _ (Tree.render (treeOf words query) >>= _) = _
  rw [hrender]
  rfl

end Conversion

end FullText
