import FullText.Number.Shortest
import FullText.Text.Quoted

/-!
# Plain values

What a caller may hand in where a word, a collection of words or an expression belongs. A value
has a kind, a shown form for messages, and elements if it is a collection; two values are the
same when their numbers, texts and elements are.
-/

namespace FullText

inductive Value where
  | null
  | bool (b : Bool)
  | int (n : Int)
  | float (x : Binary64)
  | text (s : String)
  | list (items : List Value)
  | record (fields : List (String × Value))
  deriving Repr, Inhabited

namespace Value

/-- The name that messages give to the kind of a value. -/
def kind : Value → String
  | null => "NoneType"
  | bool _ => "bool"
  | int _ => "int"
  | float _ => "float"
  | text _ => "str"
  | list _ => "list"
  | record _ => "dict"

/-- The elements of a collection: the characters of a text, the items of a list, the names in a
record. Nothing else is a collection. -/
def elements? : Value → Option (List Value)
  | text s => some (s.toList.map fun c => .text (String.singleton c))
  | list items => some items
  | record fields => some (fields.map fun f => .text f.1)
  | _ => none

/-- Whether a value may be an element of a set. -/
def isHashable : Value → Bool
  | list _ | record _ => false
  | _ => true

/-! ## Numbers -/

/-- A finite number as a whole number and a power of two. -/
def number? : Value → Option (Int × Int)
  | bool b => some (if b then 1 else 0, 0)
  | int n => some (n, 0)
  | float x => x.parts?
  | _ => none

/-- Whether `m * 2 ^ e` and `n * 2 ^ f` are equal. -/
def sameNumber (m e n f : Int) : Bool :=
  m * Int.pow 2 (e - min e f).toNat == n * Int.pow 2 (f - min e f).toNat

def isNan : Value → Bool
  | float .nan => true
  | _ => false

/-! ## Equality and shown form -/

mutual

/-- Equality as numbers, texts and collections; `true` and `false` are the numbers 1 and 0. What is
not a number is equal to nothing. -/
def same : Value → Value → Bool
  | null, null => true
  | text s, text t => s == t
  | list xs, list ys => alikeItems xs ys
  | record xs, record ys => xs.length == ys.length && alikeFields xs ys
  | float (.infinite a), float (.infinite b) => a == b
  | x, y =>
    match x.number?, y.number? with
    | some (m, e), some (n, f) => sameNumber m e n f
    | _, _ => false

/-- Whether two lists have equal items. In the place of an item, what is not a number is equal to
itself. -/
def alikeItems : List Value → List Value → Bool
  | [], [] => true
  | x :: xs, y :: ys => (x.isNan && y.isNan || same x y) && alikeItems xs ys
  | _, _ => false

/-- Whether each field has an equal one of the same name among others, in any order. -/
def alikeFields : List (String × Value) → List (String × Value) → Bool
  | [], _ => true
  | (k, x) :: xs, ys =>
    (match ys.lookup k with
      | some y => x.isNan && y.isNan || same x y
      | none => false) && alikeFields xs ys

end

/-- Equality in the place of an item, where what is not a number is equal to itself. -/
def alike (x y : Value) : Bool := x.isNan && y.isNan || same x y

mutual

/-- The form in which a message shows a value. -/
def shown : Value → String
  | null => "None"
  | bool b => if b then "True" else "False"
  | int n => toString n
  | float x => x.shown
  | text s => Text.quoted s
  | list items => "[" ++ ", ".intercalate (shownItems items) ++ "]"
  | record fields => "\x7b" ++ ", ".intercalate (shownFields fields) ++ "\x7d"

def shownItems : List Value → List String
  | [] => []
  | x :: xs => shown x :: shownItems xs

def shownFields : List (String × Value) → List String
  | [] => []
  | (k, x) :: xs => (Text.quoted k ++ ": " ++ shown x) :: shownFields xs

end

end Value

end FullText
