import FullText.Search.Parse

/-!
# Search expressions in one pass

A search expression as a list of tokens, found in one pass over the text, and the tree that the
tokens build. A block is what stands between two brackets of one kind among the tokens, so it is
never read a second time.
-/

namespace FullText

namespace Search

inductive Token where
  /-- A word, with the star behind it if there is one. -/
  | word (cs : List Char) (starred : Bool)
  | phrase (cs : List Char)
  | mark (c : Char)
  deriving DecidableEq, Repr

/-- The token that `c` starts in front of `cs`, and what follows it. -/
def Token.take (c : Char) (cs : List Char) : Token × List Char :=
  if isWordChar c then
    match cs.dropWhile isWordChar with
    | '*' :: rest => (.word (c :: cs.takeWhile isWordChar ++ ['*']) true, rest)
    | rest => (.word (c :: cs.takeWhile isWordChar) false, rest)
  else if c = '"' then (.phrase (cs.takeWhile (· != '"')), (cs.dropWhile (· != '"')).drop 1)
  else (.mark c, cs)

theorem length_take_le (c : Char) (cs : List Char) :
    (Token.take c cs).2.length ≤ cs.length := by
  unfold Token.take
  have hw := (List.dropWhile_suffix (l := cs) isWordChar).length_le
  have hq := (List.dropWhile_suffix (l := cs) (· != '"')).length_le
  split
  · split
    · next h => simp only [h, List.length_cons] at hw ⊢; omega
    · exact hw
  · split
    · simp only [List.length_drop]; omega
    · exact Nat.le_refl _

/-- The tokens of a text. -/
def tokens : List Char → List Token
  | [] => []
  | c :: cs =>
    if Text.isBlank c then tokens cs
    else (Token.take c cs).1 :: tokens (Token.take c cs).2
termination_by cs => cs.length
decreasing_by
  · simp
  · exact Nat.lt_of_le_of_lt (length_take_le c cs) (by simp)

/-- The tokens up to the bracket that closes a block inside which `inner` further ones of its kind
are open, and the tokens behind that bracket. -/
def splitBlock (b : Bracket) (inner : Nat) : List Token → List Token × List Token
  | [] => ([], [])
  | t :: ts =>
    if t = .mark b.opener then
      let (inside, rest) := splitBlock b (inner + 1) ts
      (t :: inside, rest)
    else if t = .mark b.closer then
      match inner with
      | 0 => ([], ts)
      | inner + 1 =>
        let (inside, rest) := splitBlock b inner ts
        (t :: inside, rest)
    else
      let (inside, rest) := splitBlock b inner ts
      (t :: inside, rest)

theorem length_splitBlock (b : Bracket) (inner : Nat) (ts : List Token) :
    (splitBlock b inner ts).1.length + (splitBlock b inner ts).2.length ≤ ts.length := by
  fun_induction splitBlock b inner ts <;> simp_all <;> omega

/-- Joins a node to the right of what has been read, if there is a node. -/
def attach (root node : Tree) (c : Conjunction) : Tree :=
  match root, node with
  | root, .absent => root
  | .absent, node => node
  | root, node => .join root node c false (root.isExcluded && node.isExcluded)

/-- The tree of one term, absent if it is empty or a stop word. -/
def termTree (words : StopWords) (cs : List Char) (m : Modifiers) : Tree :=
  if cs = [] ∨ words.contains (String.ofList cs) then .absent
  else .term { word := String.ofList cs, form := m.form, exclude := m.exclude }

/-- The tree that tokens build. `m` holds for the next term, and `root` is what has been built so
far. -/
def build (words : StopWords) (default : Conjunction) (m : Modifiers) (root : Tree) :
    List Token → Tree
  | [] => root
  | .word cs starred :: ts =>
    match Keyword.ofWord? cs with
    | some k => build words default (m.apply k) root ts
    | none =>
      build words default { conjunction := default }
        (attach root (termTree words cs (m.literalIf starred)) m.conjunction) ts
  | .phrase cs :: ts =>
    build words default { conjunction := default }
      (attach root (termTree words (Text.stripChars cs) (m.literalIf true)) m.conjunction) ts
  | .mark c :: ts =>
    match Bracket.ofOpener? c with
    | none => build words default (m.mark c) root ts
    | some b =>
      let inside := (splitBlock b 0 ts).1
      let inner := b.default default
      let node := build words inner { conjunction := inner } .absent inside
      build words default { conjunction := default }
        (attach root (node.withGroup b.groups) m.conjunction) (splitBlock b 0 ts).2
termination_by ts => ts.length
decreasing_by
  · simp
  · simp
  · simp
  · simp
  · have := length_splitBlock b 0 ts
    simp only [List.length_cons]
    omega
  · have := length_splitBlock b 0 ts
    simp only [List.length_cons]
    omega

/-- The tree of a text, by way of its tokens. -/
def buildText (text : String) (default : Conjunction) (words : StopWords) : Tree :=
  build words default { conjunction := default } .absent (tokens text.toList)

end Search

end FullText
