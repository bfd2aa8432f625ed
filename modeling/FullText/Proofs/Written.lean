import FullText.Proofs.Built
import FullText.Query.Token

/-!
# The text of a query, token by token

A join is written from the texts of its children (`render_join`). The text of a whole tree is
`Query.write` of its tokens (`render_of_whole`): one after the other, a conjunction between two
spaces and a negation in front of one.
-/

namespace FullText

namespace Query

/-- What one token adds to the text of a query. -/
def Token.write : Token → List Char
  | .opening => ['(']
  | .closing => [')']
  | .conjunction c => ' ' :: c.keyword.toList ++ [' ']
  | .negation => "NOT ".toList
  | .operand form word => (form.write (String.ofList word)).toList

/-- The text that tokens make. -/
def write (ts : List Token) : List Char := ts.flatMap Token.write

@[simp] theorem write_nil : write [] = [] := rfl

@[simp] theorem write_cons (t : Token) (ts : List Token) :
    write (t :: ts) = t.write ++ write ts := by
  simp [write]

@[simp] theorem write_append (ts us : List Token) : write (ts ++ us) = write ts ++ write us := by
  simp [write]

theorem write_ofTerm (t : Term) : write (ofTerm t) = t.write.toList := by
  unfold ofTerm Term.write
  split <;> simp [Token.write]

end Query

namespace Tree

variable {t : Tree}

/-! ## One join at a time -/

/-- The parentheses that open on a left side. -/
def opening (levels : List (Level (Except Fault String))) : String :=
  String.ofList (List.replicate (levels.countP (·.grouped)) '(')

theorem opening_cons (level : Level (Except Fault String))
    (levels : List (Level (Except Fault String))) :
    opening (level :: levels) = opening levels ++ opening [level] := by
  apply String.toList_injective
  simp [opening, List.countP_cons]

/-- What stands in front of the left operand is left alone. -/
theorem writeLevel_append (front text : String) (level : Level (Except Fault String)) :
    writeLevel (front ++ text) level = (front ++ ·) <$> writeLevel text level := by
  unfold writeLevel
  cases level.right with
  | error f => rfl
  | ok right =>
    show Except.ok _ = Except.ok _
    split <;> simp [String.append_assoc]

/-- The levels above a tree are written around its own text. -/
theorem walk_writeFrom (t : Tree) (levels : List (Level (Except Fault String))) :
    t.walk writeFrom levels =
      t.render >>= fun text => levels.foldlM writeLevel (opening levels ++ text) := by
  apply walk_eq_above fun levels text =>
    text >>= fun text => levels.foldlM writeLevel (opening levels ++ text)
  · intro l levels
    simp only [writeFrom]
    cases l.write with
    | error f => rfl
    | ok text => simp [opening]
  · intro level levels text
    rw [bind_assoc]
    congr 1
    funext text
    rw [List.foldlM_cons, opening_cons, String.append_assoc, writeLevel_append]
    simp

theorem render_join (l r : Tree) (c : Conjunction) (g e : Bool) :
    (join l r c g e).render = do
      let left ← l.render
      let right ← r.render
      let text := left ++ " " ++ c.keyword ++ " " ++ right
      return if g then "(" ++ text ++ ")" else text := by
  show l.walk writeFrom [_] = _
  rw [walk_writeFrom]
  congr 1
  funext left
  simp only [List.foldlM_cons, List.foldlM_nil, bind_pure]
  cases g <;> simp [opening, writeLevel, render, String.append_assoc]

/-! ## Tokens -/

theorem render_of_whole (h : Whole t ∨ t = absent) :
    t.render = .ok (String.ofList (Query.write (Query.ofTree t))) := by
  induction t with
  | leaf l =>
    cases l with
    | absent => rfl
    | term u =>
      show Except.ok ("" ++ u.write) = _
      rw [show Query.ofTree (term u) = Query.ofTerm u from rfl, Query.write_ofTerm]
      simp
    | foreign f => exact absurd h (by simp [Whole])
  | join l r c g e ihl ihr =>
    obtain ⟨hl, hr, -⟩ := h.resolve_right (by simp)
    rw [render_join, ihl (.inl hl), ihr (.inl hr)]
    show Except.ok _ = Except.ok _
    congr 1
    apply String.toList_injective
    cases g <;> simp [Query.ofTree, Query.Token.write]

end Tree

end FullText
