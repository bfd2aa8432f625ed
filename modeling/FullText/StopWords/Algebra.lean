import FullText.StopWords.Basic

/-!
# Set operations on stop words

Stop words are combined and compared with collections of other kinds. An ordinary set among these
does not fold: it holds a word only letter by letter. A list or a text is made a set of stop words
where a set is needed. The operators come in two families: one builds a new set, the other changes
a set step by step, and when it fails what it did before stays done.
-/

namespace FullText

inductive SetOp where
  | union
  | inter
  | diff
  | symmDiff
  deriving DecidableEq, Repr

def SetOp.symbol : SetOp → String
  | union => "|"
  | inter => "&"
  | diff => "-"
  | symmDiff => "^"

inductive SetRel where
  | eq
  | ne
  | lt
  | le
  | gt
  | ge
  deriving DecidableEq, Repr

def SetRel.symbol : SetRel → String
  | eq => "=="
  | ne => "!="
  | lt => "<"
  | le => "<="
  | gt => ">"
  | ge => ">="

/-- What a set of stop words is combined or compared with. -/
inductive Operand where
  /-- An ordinary set, whose elements are told apart letter by letter. -/
  | set (elements : List Value)
  | words (s : StopWords)
  /-- The very set that the operation is carried out on. -/
  | self
  | value (v : Value)

namespace Operand

/-- The ordinary set of the given elements. -/
def ofElements (vs : List Value) : Except Fault Operand :=
  match vs.find? fun v => !v.isHashable with
  | some v => .error (.unhashable v.kind)
  | none =>
    .ok (.set (vs.foldl (fun kept v => if kept.any v.alike then kept else kept ++ [v]) []))

/-- The name that messages give to the kind of an operand. -/
def kind : Operand → String
  | set _ => "set"
  | words _ | self => StopWords.kind
  | value v => v.kind

/-- The elements of a collection, seen from the set `s` that the operation is carried out on. -/
def elements? (s : StopWords) : Operand → Option (List Value)
  | set vs => some vs
  | words t => some (t.words.map .text)
  | self => some (s.words.map .text)
  | value v => v.elements?

end Operand

/-- A collection that can be asked for its elements: stop words fold, ordinary sets do not. -/
inductive WordSet where
  | folding (s : StopWords)
  | exact (elements : List Value)

namespace WordSet

def elements : WordSet → List Value
  | folding s => s.words.map .text
  | exact vs => vs

def size (c : WordSet) : Nat := c.elements.length

def contains (w : String) : WordSet → Bool
  | folding s => s.contains w
  | exact vs => vs.any (·.same (.text w))

/-- The operand as a set, if it is one. -/
def ofSet? (s : StopWords) : Operand → Option WordSet
  | .set vs => some (.exact vs)
  | .words t => some (.folding t)
  | .self => some (.folding s)
  | .value _ => none

/-- The operand as a set. Another collection is made stop words; `fault` says what goes wrong if
it is no collection. -/
def ofOperand (s : StopWords) (fault : Fault) (o : Operand) : Except Fault WordSet :=
  match ofSet? s o, o with
  | some c, _ => .ok c
  | none, .value v =>
    match v.elements? with
    | some vs => .folding <$> StopWords.ofValues vs
    | none => .error fault
  | none, _ => .error fault

end WordSet

/-- On which side of an operator the stop words stand. -/
inductive Side where
  | left
  | right
  deriving DecidableEq, Repr

namespace StopWords

/-! ## Operators that build a new set -/

def unsupported (op : SetOp) (side : Side) (o : Operand) : Fault :=
  match side with
  | .left => .unsupportedOperands op.symbol kind o.kind
  | .right => .unsupportedOperands op.symbol o.kind kind

/-- The words that are not in the collection. -/
def without (s : StopWords) (c : WordSet) : StopWords := ofList (s.words.filter (!c.contains ·))

/-- The elements of the collection that are not among the words. -/
def others (s : StopWords) (c : WordSet) : Except Fault StopWords :=
  ofValues (c.elements.filter (!s.containsValue ·))

/-- `s op o`, or `o op s` if the words stand on the right. -/
def binary (op : SetOp) (side : Side) (s : StopWords) (o : Operand) : Except Fault StopWords :=
  let fault := unsupported op side o
  match op with
  | .union =>
    match o.elements? s with
    | some vs => ofValues (s.words.map .text ++ vs)
    | none => .error fault
  | .inter =>
    match o.elements? s with
    | some vs => ofValues (vs.filter s.containsValue)
    | none => .error fault
  | .diff => do
    let c ← WordSet.ofOperand s fault o
    match side with
    | .left => return s.without c
    | .right => s.others c
  | .symmDiff => do
    let c ← WordSet.ofOperand s fault o
    let theirs ← s.others c
    return ofList ((s.without c).words ++ theirs.words)

/-! ## Operators that change the set -/

/-- Carries out a step for each value in turn, up to the first that fails. -/
def forEach (step : StopWords → Value → Except Fault StopWords) :
    StopWords → List Value → Except Fault Unit × StopWords
  | s, [] => (.ok (), s)
  | s, v :: vs =>
    match step s v with
    | .ok s' => forEach step s' vs
    | .error f => (.error f, s)

/-- Takes the value out if it is there, else adds it. -/
def toggleValue (s : StopWords) (v : Value) : Except Fault StopWords :=
  if s.containsValue v then s.discardValue v else s.addValue v

/-- `s op= o`. -/
def update (op : SetOp) (s : StopWords) (o : Operand) : Except Fault Unit × StopWords :=
  let fault := Fault.notIterable o.kind
  match op, o with
  | .union, o =>
    match o.elements? s with
    | some vs => forEach addValue s vs
    | none => (.error fault, s)
  | .inter, o =>
    match s.binary .diff .left o with
    | .ok gone => forEach discardValue s (gone.words.map .text)
    | .error f => (.error f, s)
  | .diff, .self => (.ok (), s.clear)
  | .diff, o =>
    match o.elements? s with
    | some vs => forEach discardValue s vs
    | none => (.error fault, s)
  | .symmDiff, .self => (.ok (), s.clear)
  | .symmDiff, o =>
    match WordSet.ofOperand s fault o with
    | .ok c => forEach toggleValue s c.elements
    | .error f => (.error f, s)

/-! ## Comparisons -/

def isSubset (s : StopWords) (c : WordSet) : Bool :=
  decide (s.size ≤ c.size) && s.words.all (c.contains ·)

def isSuperset (s : StopWords) (c : WordSet) : Bool :=
  decide (c.size ≤ s.size) && c.elements.all s.containsValue

/-- `s rel o`. -/
def compare (rel : SetRel) (s : StopWords) (o : Operand) : Except Fault Bool :=
  match rel, WordSet.ofSet? s o with
  | .eq, none => .ok false
  | .ne, none => .ok true
  | rel, none => .error (.unordered rel.symbol kind o.kind)
  | .eq, some c => .ok (s.size == c.size && s.isSubset c)
  | .ne, some c => .ok !(s.size == c.size && s.isSubset c)
  | .lt, some c => .ok (decide (s.size < c.size) && s.isSubset c)
  | .le, some c => .ok (s.isSubset c)
  | .gt, some c => .ok (decide (c.size < s.size) && s.isSuperset c)
  | .ge, some c => .ok (s.isSuperset c)

/-- Whether no element of the collection is among the words. -/
def isDisjoint (s : StopWords) (o : Operand) : Except Fault Bool :=
  match o.elements? s with
  | some vs => .ok !(vs.any s.containsValue)
  | none => .error (.notIterable o.kind)

end StopWords

end FullText
