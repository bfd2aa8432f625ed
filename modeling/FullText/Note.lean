import FullText.Fault

/-!
# Notes

What a verbose run says about its work, in the order in which it happens.
-/

namespace FullText

inductive Note where
  | loaded (count : Nat) (path : String)
  | discarded (kind : NodeKind)
  | converted (query : Option String) (text : String)
  deriving DecidableEq, Repr

namespace Note

def message : Note → String
  | loaded count path => "Loaded " ++ toString count ++ " stop words from " ++ path
  | discarded kind => "Discarding excluded " ++ kind.name
  | converted query text =>
    "Converted " ++ (query.map Text.quoted).getD "None" ++ " to " ++ Text.quoted text

/-- The part of the program that a note comes from. -/
def logger : Note → String
  | loaded _ _ => "easyfts.stopwords"
  | discarded _ => "easyfts.query.normalizer"
  | converted _ _ => "easyfts.convert"

def line (n : Note) : String := n.logger ++ ": " ++ n.message ++ "\n"

end Note

end FullText
