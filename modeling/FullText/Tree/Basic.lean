import FullText.Value
import FullText.Fault

/-!
# Expression trees

A search expression is a tree of terms joined two by two. The place of an expression may also be
left empty or hold something that is no expression; whoever reads a flag of such a leaf gets a
fault. A join stores whether it is excluded, and `joined` is the way to build one: it is excluded
exactly when both its children are.
-/

namespace FullText

/-- How a term is matched against the index. -/
inductive TermForm where
  | inflectional
  | thesaurus
  | literal
  deriving DecidableEq, Repr

namespace TermForm

def name : TermForm → String
  | inflectional => "inflectional"
  | thesaurus => "thesaurus"
  | literal => "literal"

def all : List TermForm := [inflectional, thesaurus, literal]

/-- The form with the given name, which has to be a text and matches letter by letter. -/
def ofValue (v : Value) : Except Fault TermForm :=
  match all.find? fun f => v.same (.text f.name) with
  | some f => .ok f
  | none => .error (.unknownForm v.shown)

theorem ofValue_name (f : TermForm) : ofValue (.text f.name) = .ok f := by
  cases f <;> rfl

end TermForm

/-- The operator of a join. -/
inductive Conjunction where
  | and
  | or
  | near
  deriving DecidableEq, Repr

namespace Conjunction

def name : Conjunction → String
  | and => "and"
  | or => "or"
  | near => "near"

/-- The operator as queries write it. -/
def keyword : Conjunction → String
  | and => "AND"
  | or => "OR"
  | near => "NEAR"

def all : List Conjunction := [and, or, near]

/-- The conjunction with the given name, which has to be a text and matches letter by letter. -/
def ofValue (v : Value) : Except Fault Conjunction :=
  match all.find? fun c => v.same (.text c.name) with
  | some c => .ok c
  | none => .error (.unknownConjunction v.shown)

theorem ofValue_name (c : Conjunction) : ofValue (.text c.name) = .ok c := by
  cases c <;> rfl

end Conjunction

/-- A single search term. -/
structure Term where
  word : String
  form : TermForm := .inflectional
  exclude : Bool := false
  grouped : Bool := false
  deriving DecidableEq, Repr

/-- Something that stands in a tree without being an expression: a node with no fields, or a
plain value. -/
inductive Foreign where
  | bare
  | value (v : Value)
  deriving Repr

namespace Foreign

def kind : Foreign → String
  | bare => "Node"
  | value v => v.kind

def shown : Foreign → String
  | bare => "Node()"
  | value v => v.shown

def same : Foreign → Foreign → Bool
  | bare, bare => true
  | value v, value w => v.same w
  | _, _ => false

/-- Equality in the place of a child, where what is not a number is equal to itself. -/
def alike : Foreign → Foreign → Bool
  | value v, value w => v.alike w
  | f, g => f.same g

end Foreign

inductive Leaf where
  | absent
  | term (t : Term)
  | foreign (f : Foreign)
  deriving Repr

inductive Tree where
  | leaf (l : Leaf)
  | join (left right : Tree) (conjunction : Conjunction) (grouped exclude : Bool)
  deriving Repr

namespace Leaf

/-- The name that messages give to the kind of a leaf. -/
def kind : Leaf → String
  | absent => "NoneType"
  | term _ => NodeKind.term.name
  | foreign f => f.kind

def same : Leaf → Leaf → Bool
  | absent, absent => true
  | term t, term u => t == u
  | foreign f, foreign g => f.same g
  | _, _ => false

/-- Equality in the place of a child. -/
def alike : Leaf → Leaf → Bool
  | foreign f, foreign g => f.alike g
  | l, m => l.same m

end Leaf

namespace Tree

/-- No expression at all. -/
@[match_pattern] abbrev absent : Tree := .leaf .absent

@[match_pattern] abbrev term (t : Term) : Tree := .leaf (.term t)

@[match_pattern] abbrev foreign (f : Foreign) : Tree := .leaf (.foreign f)

instance : Inhabited Tree := ⟨absent⟩

def isAbsent : Tree → Bool
  | absent => true
  | _ => false

/-- Equality in the place of a child. -/
def alike : Tree → Tree → Bool
  | .leaf l, .leaf m => l.alike m
  | .join l r c g _, .join l' r' c' g' _ => l.alike l' && r.alike r' && c == c' && g == g'
  | _, _ => false

/-- Equality of what two trees say: the stored exclusion of a join does not count. -/
def same : Tree → Tree → Bool
  | .leaf l, .leaf m => l.same m
  | t, u => t.alike u

/-- The exclusion of an expression. -/
def excluded : Tree → Except Fault Bool
  | term t => .ok t.exclude
  | .join _ _ _ _ e => .ok e
  | .leaf l => .error (.noAttribute l.kind "exclude")

/-- The exclusion of an expression, for trees of which each leaf is a term. -/
def isExcluded : Tree → Bool
  | term t => t.exclude
  | .join _ _ _ _ e => e
  | .leaf _ => false

/-- The join of two expressions. The right one is looked at only if the left one is excluded. -/
def joined (left right : Tree) (c : Conjunction) (grouped : Bool) : Except Fault Tree := do
  let e ← left.excluded
  let e ← if e then right.excluded else .ok false
  return .join left right c grouped e

/-- The same expression, marked as standing in parentheses or not. -/
def regroup (grouped : Bool) : Tree → Except Fault Tree
  | term t => .ok (term { t with grouped })
  | .join l r c _ _ => joined l r c grouped
  | .leaf l => .ok (.leaf l)

/-- The same tree, marked as standing in parentheses or not. -/
def withGroup (grouped : Bool) : Tree → Tree
  | term t => term { t with grouped }
  | .join l r c _ e => .join l r c grouped e
  | .leaf l => .leaf l

/-! ## The left side

Trees grow on the left: each term that is read puts a join on top. What is computed from a tree
is computed by going down the left side once and coming back up. -/

/-- One join on the left side, with an answer in place of its right child. -/
structure Level (α : Type) where
  conjunction : Conjunction
  grouped : Bool
  exclude : Bool
  right : α

/-- Goes down the left side and answers with `climb` from the leaf at the bottom and the joins
above it, lowest first. Right children are answered for in the same way. -/
def walk {α : Type} (climb : Leaf → List (Level α) → α) : Tree → List (Level α) → α
  | .leaf l, levels => climb l levels
  | .join l r c g e, levels => walk climb l (⟨c, g, e, walk climb r []⟩ :: levels)

/-- Where the levels above a leaf can be put on top of the answer for the leaf, one before the
others, the levels above a tree can be put on top of the answer for the tree. -/
theorem walk_eq_above {α : Type} {climb : Leaf → List (Level α) → α}
    (above : List (Level α) → α → α)
    (hleaf : ∀ l levels, climb l levels = above levels (climb l []))
    (hcons : ∀ level levels a, above (level :: levels) a = above levels (above [level] a))
    (t : Tree) (levels : List (Level α)) :
    walk climb t levels = above levels (walk climb t []) := by
  induction t generalizing levels with
  | leaf l => exact hleaf l levels
  | join l r c g e ihl _ =>
    let level : Level α := ⟨c, g, e, walk climb r []⟩
    calc walk climb l (level :: levels)
      _ = above (level :: levels) (walk climb l []) := ihl _
      _ = above levels (above [level] (walk climb l [])) := hcons level levels _
      _ = above levels (walk climb l [level]) := by rw [ihl [level]]

/-- The tree and the joins below it on its left side. -/
def leftSpine : Tree → List Tree
  | .leaf _ => []
  | .join l r c g e => .join l r c g e :: l.leftSpine

/-- The joins on the left side of an expression that has one. -/
def spine : Tree → Except Fault (List Tree)
  | .leaf l => .error (.noAttribute l.kind "left")
  | t => .ok t.leftSpine

end Tree

end FullText
