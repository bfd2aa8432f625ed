import FullText.Tree.Normalize
import FullText.Tree.Record
import FullText.Tree.Render

/-!
# Plain recursion over trees

Repair, writing and record of a tree, each by recursion on both its children. A fault in the left
child comes before one in the right child.
-/

namespace FullText

namespace Tree

/-- The repaired tree, from the repaired children. -/
def normalForm : Tree → Bool → Except Fault Tree
  | .leaf l, top => (·.tree) <$> settle top (.leaf l)
  | .join l r c g _, top => do
    let left ← l.normalForm false
    let right ← r.normalForm false
    let whole ← combine c g left right
    (·.tree) <$> settle top whole

/-- The text of a tree, from the texts of its children. -/
def written : Tree → Except Fault String
  | .leaf l => l.write
  | .join l r c g _ => do
    let left ← l.written
    let right ← r.written
    let text := left ++ " " ++ c.keyword ++ " " ++ right
    return if g then "(" ++ text ++ ")" else text

/-- The record of a tree, from the records of its children. -/
def recorded : Tree → Except Fault Value
  | .leaf l => l.record
  | .join l r c g e => do
    let left ← l.recorded
    let right ← r.recorded
    return .record
      [("conjunction", .text c.name), ("exclude", .bool e), ("grouped", .bool g), ("left", left),
       ("right", right)]

end Tree

end FullText
