import FullText.Tree.Basic

/-!
# Repairing expression trees

A well-formed tree can still describe a query that the index refuses. Problem expressions are
repaired from the leaves up:

* `NOT a AND b`: the operands change places;
* `NOT a` as the whole query, or a group of nothing but exclusions: dropped;
* `a OR NOT b`: the negated operand is dropped;
* `a NEAR b` where an operand is no literal term: `NEAR` becomes `AND`.
-/

namespace FullText

namespace Tree

/-- A tree after repair, and the kinds of the nodes dropped on the way, in order. -/
structure Repaired where
  tree : Tree
  dropped : List NodeKind
  deriving Repr

/-- Drops an expression that is excluded where an exclusion cannot stand: in parentheses, or at
the `top` of the query. -/
def settle (top : Bool) : Tree → Except Fault Repaired
  | absent => .ok ⟨absent, []⟩
  | term t =>
    .ok (if (t.grouped || top) && t.exclude then ⟨absent, [.term]⟩ else ⟨term t, []⟩)
  | .join l r c g e =>
    .ok (if (g || top) && e then ⟨absent, [.join]⟩ else ⟨.join l r c g e, []⟩)
  | foreign f => .error (.noAttribute f.kind "grouped")

/-- `NEAR` takes literal terms only. -/
def isLiteralTerm : Tree → Bool
  | term t => t.form == .literal
  | _ => false

/-- An operand of `OR`, which is dropped when it is excluded. -/
def dropExcluded : Tree → Except Fault Tree
  | absent => .ok absent
  | t => do
    let e ← t.excluded
    return if e then absent else t

/-- The join of two operands of which an excluded one never comes before one that is not. -/
def ordered (left right : Tree) (c : Conjunction) (grouped : Bool) : Except Fault Tree := do
  let swap ←
    if ← left.excluded then
      let e ← right.excluded
      pure !e
    else pure false
  if swap then joined right left c grouped else joined left right c grouped

/-- The conjunction that the operands allow. -/
def allowed (left right : Tree) : Conjunction → Conjunction
  | .near => if left.isLiteralTerm && right.isLiteralTerm then .near else .and
  | c => c

/-- Joins two repaired operands, of which either may be gone. -/
def combine (c : Conjunction) (grouped : Bool) (left right : Tree) : Except Fault Tree := do
  let left' ← if c = .or then left.dropExcluded else .ok left
  let right' ← if c = .or then right.dropExcluded else .ok right
  match left', right' with
  | absent, r => return r
  | l, absent => return l
  | l, r => ordered l r (allowed left right c) grouped

/-- Repairs the joins of the left side, lowest first, on top of what is below them. Only the last
one may be the top of the query. -/
def rise (top : Bool) (below : Repaired) :
    List (Level (Bool → Except Fault Repaired)) → Except Fault Repaired
  | [] => .ok below
  | level :: levels => do
    let right ← level.right false
    let whole ← combine level.conjunction level.grouped below.tree right.tree
    let settled ← settle (top && levels.isEmpty) whole
    rise top ⟨settled.tree, below.dropped ++ right.dropped ++ settled.dropped⟩ levels

/-- Repairs a left side from the leaf at its bottom. -/
def riseFrom (l : Leaf) (levels : List (Level (Bool → Except Fault Repaired))) (top : Bool) :
    Except Fault Repaired := do
  let bottom ← settle (top && levels.isEmpty) (.leaf l)
  rise top bottom levels

/-- Repairs a tree, which is the whole query if `top` is set. -/
def repair (t : Tree) (top : Bool) : Except Fault Repaired := t.walk riseFrom [] top

/-- The repaired tree. -/
def normalize (t : Tree) (top : Bool) : Except Fault Tree := (·.tree) <$> t.repair top

end Tree

end FullText
