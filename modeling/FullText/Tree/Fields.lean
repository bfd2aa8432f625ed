import FullText.Tree.Basic

/-!
# Building trees by named fields

Nodes can be given as fields with names, and rebuilt with some fields replaced. A name that the
node does not have is refused before one that is missing. The exclusion of a join follows from its
children, so it is never given, only computed.
-/

namespace FullText

/-- What a named field can be given. -/
inductive Field where
  | word (s : String)
  | flag (b : Bool)
  | form (f : TermForm)
  | conjunction (c : Conjunction)
  | tree (t : Tree)

abbrev Fields := List (String × Field)

namespace Fields

def names (fs : Fields) : List String := fs.map (·.1)

/-- Refuses the first name that is none of the node's. -/
def checkNames (node : String) (known : List String) (fs : Fields) : Except Fault Unit :=
  match fs.names.find? fun n => !known.contains n with
  | some n => .error (.unexpectedField node n)
  | none => .ok ()

/-- Refuses if a required name is missing. -/
def checkPresent (node : String) (required : List String) (fs : Fields) : Except Fault Unit :=
  match required.filter fun n => !fs.names.contains n with
  | [] => .ok ()
  | missing => .error (.missingFields node missing)

end Fields

namespace Term

def fieldNames : List String := ["term", "term_form", "exclude", "grouped"]

/-- The term with one field changed. -/
def put (t : Term) : String × Field → Term
  | ("term", .word s) => { t with word := s }
  | ("term_form", .form f) => { t with form := f }
  | ("exclude", .flag b) => { t with exclude := b }
  | ("grouped", .flag b) => { t with grouped := b }
  | _ => t

end Term

/-- The fields of a join that can be given. -/
structure JoinFields where
  left : Tree
  right : Tree
  conjunction : Conjunction := .and
  grouped : Bool := false

namespace JoinFields

def fieldNames : List String := ["left", "right", "conjunction", "grouped"]

/-- The fields with one of them changed. -/
def put (j : JoinFields) : String × Field → JoinFields
  | ("left", .tree t) => { j with left := t }
  | ("right", .tree t) => { j with right := t }
  | ("conjunction", .conjunction c) => { j with conjunction := c }
  | ("grouped", .flag b) => { j with grouped := b }
  | _ => j

def build (j : JoinFields) : Except Fault Tree :=
  Tree.joined j.left j.right j.conjunction j.grouped

end JoinFields

namespace Tree

/-- A term from its fields. -/
def ofTermFields (fs : Fields) : Except Fault Tree := do
  fs.checkNames NodeKind.term.name Term.fieldNames
  fs.checkPresent NodeKind.term.name ["term"]
  return term (fs.foldl Term.put { word := "" })

/-- A join from its fields. -/
def ofJoinFields (fs : Fields) : Except Fault Tree := do
  fs.checkNames NodeKind.join.name JoinFields.fieldNames
  fs.checkPresent NodeKind.join.name ["left", "right"]
  (fs.foldl JoinFields.put { left := absent, right := absent }).build

/-- The node that the fields describe: a join if a child is among them, else a term. -/
def ofFields (fs : Fields) : Except Fault Tree :=
  if fs.names.contains "left" || fs.names.contains "right" then ofJoinFields fs
  else ofTermFields fs

/-- The joins of a row of trees from the left, all with one conjunction. -/
def chain (c : Conjunction) : List Tree → Except Fault Tree
  | [] => .ok absent
  | t :: ts => ts.foldlM (fun whole next => joined whole next c false) t

/-- The node with some fields replaced. -/
def replace (changes : Fields) : Tree → Except Fault Tree
  | term t => do
    changes.checkNames NodeKind.term.name Term.fieldNames
    return term (changes.foldl Term.put t)
  | .join l r c g _ => do
    if changes.names.contains "exclude" then throw (.derivedField "exclude")
    changes.checkNames NodeKind.join.name JoinFields.fieldNames
    (changes.foldl JoinFields.put ⟨l, r, c, g⟩).build
  | foreign .bare => do
    changes.checkNames Foreign.bare.kind []
    return foreign .bare
  | .leaf _ => .error .notReplaceable

/-- What goes wrong when a field of a finished tree is assigned. -/
def assignFault (name : String) : Tree → Fault
  | absent => .noAttribute Leaf.absent.kind name
  | foreign (.value v) => .noAttribute v.kind name
  | _ => .frozenField name

end Tree

end FullText
