import FullText.StopWords.Algebra

/-!
# Changes of stop words

The operations that change a set of stop words as data, for running any sequence of them. A change
answers with the word that it took out, with nothing, or with a fault, and leaves a set behind, also
when it fails.
-/

namespace FullText

namespace StopWords

inductive Change where
  | add (v : Value)
  | discard (v : Value)
  /-- Takes out a word that has to be there. -/
  | remove (v : Value)
  /-- Takes out any word. -/
  | pop
  | clear
  | update (op : SetOp) (o : Operand)

/-- The word that a change took out, nothing, or a fault. -/
abbrev Answer := Except Fault (Option String)

/-- The answer of a change, and the set that it leaves behind. -/
abbrev Outcome := Answer × StopWords

/-- The outcome of a change that is either made as a whole or not at all. -/
def whole (s : StopWords) : Except Fault StopWords → Outcome
  | .ok s' => (.ok none, s')
  | .error f => (.error f, s)

/-- Carries out a change. -/
def run (s : StopWords) : Change → Outcome
  | .add v => s.whole (s.addValue v)
  | .discard v => s.whole (s.discardValue v)
  | .remove v => s.whole (s.removeValue v)
  | .pop =>
    match s.pop with
    | .ok (w, s') => (.ok (some w), s')
    | .error f => (.error f, s)
  | .clear => (.ok none, s.clear)
  | .update op o =>
    let (result, s') := s.update op o
    ((fun _ => none) <$> result, s')

end StopWords

end FullText
