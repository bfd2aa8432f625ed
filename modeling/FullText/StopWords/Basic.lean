import FullText.Value
import FullText.Fault
import FullText.Text.Fold

/-!
# Stop words

The set of words that queries leave out. A word is kept folded, so the letter case of what is
added, asked for or taken out does not matter. What is handed in may also be a plain value: one
that is no text is never in the set and cannot be added to it.
-/

namespace FullText

structure StopWords where
  words : List String := []
  deriving DecidableEq, Repr, Inhabited

namespace StopWords

/-- The name that messages give to a set of stop words. -/
def kind : String := "StopWords"

def empty : StopWords := {}

def size (s : StopWords) : Nat := s.words.length

def contains (s : StopWords) (w : String) : Bool := s.words.contains (Text.fold w)

def add (s : StopWords) (w : String) : StopWords := ⟨s.words.insert (Text.fold w)⟩

def discard (s : StopWords) (w : String) : StopWords := ⟨s.words.erase (Text.fold w)⟩

def ofList (ws : List String) : StopWords := ws.foldl add empty

theorem contains_iff {s : StopWords} {w : String} :
    s.contains w = true ↔ Text.fold w ∈ s.words := by
  simp [contains]

theorem mem_words_add {s : StopWords} {w x : String} :
    x ∈ (s.add w).words ↔ x = Text.fold w ∨ x ∈ s.words := by
  simp [add]

theorem nodup_add {s : StopWords} (h : s.words.Nodup) (w : String) :
    (s.add w).words.Nodup := by
  by_cases hw : Text.fold w ∈ s.words
  · rwa [add, List.insert_of_mem hw]
  · rw [add, List.insert_of_not_mem hw]
    exact List.nodup_cons.mpr ⟨hw, h⟩

theorem nodup_discard {s : StopWords} (h : s.words.Nodup) (w : String) :
    (s.discard w).words.Nodup :=
  h.erase _

theorem mem_words_discard {s : StopWords} (h : s.words.Nodup) {w x : String} :
    x ∈ (s.discard w).words ↔ x ≠ Text.fold w ∧ x ∈ s.words := by
  simp [discard, h.mem_erase_iff]

theorem mem_words_foldl_add {ws : List String} {s : StopWords} {x : String} :
    x ∈ (ws.foldl add s).words ↔ (∃ w ∈ ws, x = Text.fold w) ∨ x ∈ s.words := by
  induction ws generalizing s with
  | nil => simp
  | cons w ws ih =>
    rw [List.foldl_cons, ih, mem_words_add]
    grind

/-- The words of a list, folded. -/
theorem mem_words_ofList {ws : List String} {x : String} :
    x ∈ (ofList ws).words ↔ ∃ w ∈ ws, x = Text.fold w := by
  simp [ofList, mem_words_foldl_add, empty]

/-- The words in code-point order. -/
def sorted (s : StopWords) : List String := s.words.mergeSort fun a b => !decide (b < a)

def shown (s : StopWords) : String :=
  kind ++ "([" ++ ", ".intercalate (s.sorted.map Text.quoted) ++ "])"

/-! ## Plain values as words -/

def containsValue (s : StopWords) : Value → Bool
  | .text w => s.contains w
  | _ => false

/-- The text of a word to be folded. -/
def wordOf : Value → Except Fault String
  | .text w => .ok w
  | v => .error (.noAttribute v.kind "casefold")

def addValue (s : StopWords) (v : Value) : Except Fault StopWords := s.add <$> wordOf v

def discardValue (s : StopWords) (v : Value) : Except Fault StopWords := s.discard <$> wordOf v

def ofValues (vs : List Value) : Except Fault StopWords := vs.foldlM addValue empty

/-- The stop words that a collection holds. -/
def ofValue (v : Value) : Except Fault StopWords :=
  match v.elements? with
  | some vs => ofValues vs
  | none => .error (.notIterable v.kind)

theorem ofValues_text (ws : List String) : ofValues (ws.map .text) = .ok (ofList ws) := by
  simp only [ofValues, ofList]
  generalize empty = s
  induction ws generalizing s with
  | nil => rfl
  | cons w ws ih => exact ih (s.add w)

/-- Takes out a word that has to be there. -/
def removeValue (s : StopWords) (v : Value) : Except Fault StopWords :=
  if s.containsValue v then s.discardValue v else .error (.absentWord v.shown)

/-- Takes out one of the words. -/
def pop (s : StopWords) : Except Fault (String × StopWords) :=
  match s.words with
  | [] => .error .noWords
  | w :: _ => .ok (w, s.discard w)

/-- Takes out words one after the other, at most `n` of them. -/
def drain : Nat → StopWords → StopWords
  | 0, s => s
  | n + 1, s =>
    match s.pop with
    | .ok (_, s') => drain n s'
    | .error _ => s

/-- Takes out words until none is left. -/
def clear (s : StopWords) : StopWords := s.drain s.size

end StopWords

end FullText
