import FullText.Tree.Basic

/-!
# Trees as records

The named fields of a tree, for export, and the tree that a record stands for. An absent expression
has a record only where it is the whole tree. The exclusion of a join is recorded but not read back:
it follows from the children.
-/

namespace FullText

def Term.record (t : Term) : Value :=
  .record
    [("term", .text t.word), ("term_form", .text t.form.name), ("exclude", .bool t.exclude),
     ("grouped", .bool t.grouped)]

namespace Leaf

def record : Leaf → Except Fault Value
  | term t => .ok t.record
  | l => .error (.noAttribute l.kind "to_dict")

end Leaf

namespace Tree

/-- The record of a join around the record of its left child. -/
def recordLevel (left : Value) (level : Level (Except Fault Value)) : Except Fault Value := do
  let right ← level.right
  return .record
    [("conjunction", .text level.conjunction.name), ("exclude", .bool level.exclude),
     ("grouped", .bool level.grouped), ("left", left), ("right", right)]

/-- The record of a left side, built outwards from the leaf at its bottom. -/
def recordFrom (l : Leaf) (levels : List (Level (Except Fault Value))) : Except Fault Value := do
  let first ← l.record
  levels.foldlM recordLevel first

/-- The record of an expression. -/
def record (t : Tree) : Except Fault Value := t.walk recordFrom []

/-- The record of a whole tree, which is null if the tree is absent. -/
def recordOrNull : Tree → Except Fault Value
  | absent => .ok .null
  | t => t.record

/-! ## Reading records -/

/-- The tree that a record stands for, if it is one. -/
def ofRecord? : Value → Option Tree
  | .record
      [("term", .text word), ("term_form", form), ("exclude", .bool exclude),
       ("grouped", .bool grouped)] => do
    let form ← (TermForm.ofValue form).toOption
    return term { word, form, exclude, grouped }
  | .record
      [("conjunction", c), ("exclude", .bool _), ("grouped", .bool grouped), ("left", left),
       ("right", right)] => do
    let c ← (Conjunction.ofValue c).toOption
    let left ← ofRecord? left
    let right ← ofRecord? right
    (joined left right c grouped).toOption
  | _ => none

/-- The tree of a record or of null. -/
def ofRecordOrNull? : Value → Option Tree
  | .null => some absent
  | v => ofRecord? v

theorem ofRecord?_term (t : Term) : ofRecord? t.record = some (term t) := by
  rw [Term.record, ofRecord?, TermForm.ofValue_name]
  rfl

end Tree

end FullText
