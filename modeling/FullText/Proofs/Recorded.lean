import FullText.Proofs.Built
import FullText.Tree.Record

/-!
# Records, one join at a time

The record of a join is put together from the records of its children (`record_join`), and a tree of
terms has one.
-/

namespace FullText

namespace Tree

variable {t : Tree}

/-- The levels above a tree are recorded around its own record. -/
theorem walk_recordFrom (t : Tree) (levels : List (Level (Except Fault Value))) :
    t.walk recordFrom levels = t.record >>= levels.foldlM recordLevel := by
  apply walk_eq_above fun levels v => v >>= levels.foldlM recordLevel
  · intro l levels
    simp only [recordFrom, List.foldlM_nil, bind_pure]
  · intro level levels v
    rw [bind_assoc]
    congr 1
    funext first
    simp

theorem record_join (l r : Tree) (c : Conjunction) (g e : Bool) :
    (join l r c g e).record = do
      let left ← l.record
      let right ← r.record
      return .record
        [("conjunction", .text c.name), ("exclude", .bool e), ("grouped", .bool g),
         ("left", left), ("right", right)] := by
  show l.walk recordFrom [_] = _
  rw [walk_recordFrom]
  congr 1
  funext left
  simp only [List.foldlM_cons, List.foldlM_nil, bind_pure]
  rfl

theorem Whole.exists_record (h : Whole t) : ∃ v, t.record = .ok v := by
  induction t with
  | leaf l =>
    cases l with
    | term u => exact ⟨u.record, rfl⟩
    | _ => exact h.elim
  | join l r c g e ihl ihr =>
    obtain ⟨left, hl⟩ := ihl h.1
    obtain ⟨right, hr⟩ := ihr h.2.1
    rw [record_join, hl, hr]
    exact ⟨_, rfl⟩

end Tree

end FullText
