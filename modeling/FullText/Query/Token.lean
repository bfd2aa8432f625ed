import FullText.Tree.Render

/-!
# Tokens of a query

The tokens that a tree is written as, and a reader that finds the tokens in the text of a query. A
quoted operand ends at the next quote, and one in parentheses at the next closing parenthesis.
-/

namespace FullText

namespace Query

inductive Token where
  | opening
  | closing
  | conjunction (c : Conjunction)
  | negation
  | operand (form : TermForm) (word : List Char)
  deriving DecidableEq, Repr

/-- The operand of a term, behind its negation. -/
def ofTerm (t : Term) : List Token :=
  if t.exclude then [.negation, .operand t.form t.word.toList] else [.operand t.form t.word.toList]

/-- The tokens of a tree in their order. -/
def ofTree : Tree → List Token
  | .term t => ofTerm t
  | .leaf _ => []
  | .join l r c g _ =>
    if g then .opening :: ofTree l ++ .conjunction c :: ofTree r ++ [.closing]
    else ofTree l ++ .conjunction c :: ofTree r

/-- The texts that start a token or are one, with what ends the word of an operand. -/
def starts : List (List Char × (Token ⊕ TermForm × Char)) :=
  [("FORMSOF(INFLECTIONAL, ".toList, .inr (.inflectional, ')')),
   ("FORMSOF(THESAURUS, ".toList, .inr (.thesaurus, ')')),
   ("\"".toList, .inr (.literal, '"')),
   ("(".toList, .inl .opening),
   (")".toList, .inl .closing),
   ("AND".toList, .inl (.conjunction .and)),
   ("OR".toList, .inl (.conjunction .or)),
   ("NEAR".toList, .inl (.conjunction .near)),
   ("NOT".toList, .inl .negation)]

/-- What is left of a text behind its start, if it starts so. -/
def dropStart? (start cs : List Char) : Option (List Char) :=
  if start.isPrefixOf cs then some (cs.drop start.length) else none

/-- The token at the front of a text, and what follows it. -/
def take? (cs : List Char) : Option (Token × List Char) :=
  starts.findSome? fun (start, kind) =>
    match dropStart? start cs, kind with
    | none, _ => none
    | some rest, .inl token => some (token, rest)
    | some rest, .inr (form, stop) =>
      match rest.dropWhile (· != stop) with
      | [] => none
      | _ :: behind => some (.operand form (rest.takeWhile (· != stop)), behind)

/-- The tokens of a query, in at most the given number of steps. -/
def readFrom : Nat → List Char → Option (List Token)
  | 0, _ => none
  | _ + 1, [] => some []
  | steps + 1, ' ' :: cs => readFrom steps cs
  | steps + 1, cs =>
    match take? cs with
    | none => none
    | some (token, rest) => (readFrom steps rest).map (token :: ·)

/-- The tokens of a query, if it is made of nothing else and spaces. -/
def read? (query : String) : Option (List Token) :=
  readFrom (query.toList.length + 1) query.toList

end Query

end FullText
