import FullText.Proofs.Recorded
import FullText.Proofs.Repair
import FullText.Proofs.Written
import FullText.Tree.Plain

/-!
# Going up the left side, and plain recursion

Repair, text and record of a tree are put together on the way up its left side. They are what
recursion on both children gives (`normalize_eq_normalForm`, `render_record_eq_plain`), whatever
stands in the tree: where one has a fault, the other has the same one.
-/

namespace FullText

namespace Tree

/-! ## Repair -/

theorem normalize_leaf (l : Leaf) (top : Bool) :
    (leaf l).normalize top = (·.tree) <$> settle top (.leaf l) := by
  rw [normalize, repair_leaf]

/-- A join is repaired from its repaired children, neither of which is the whole query. -/
theorem normalize_join (l r : Tree) (c : Conjunction) (g e top : Bool) :
    (join l r c g e).normalize top = (do
      let left ← l.normalize false
      let right ← r.normalize false
      let whole ← combine c g left right
      (·.tree) <$> settle top whole) := by
  simp only [normalize, repair_join, map_bind, bind_map_left, map_pure]
  rfl

/-- **Repair by recursion.** Repairing the joins of a left side one after the other, on top of what
is below them, is repairing each join from its repaired children. -/
theorem normalize_eq_normalForm (t : Tree) (top : Bool) : t.normalize top = t.normalForm top := by
  induction t generalizing top with
  | leaf l => exact normalize_leaf l top
  | join l r c g e ihl ihr => rw [normalize_join, ihl, ihr, normalForm]

/-! ## Text and record -/

theorem render_leaf (l : Leaf) : (leaf l).render = l.write := by
  show l.write >>= (fun first => pure ("" ++ first)) = l.write
  simp

theorem render_eq_written (t : Tree) : t.render = t.written := by
  induction t with
  | leaf l => exact render_leaf l
  | join l r c g e ihl ihr => rw [render_join, ihl, ihr, written]

theorem record_leaf (l : Leaf) : (leaf l).record = l.record := bind_pure _

theorem record_eq_recorded (t : Tree) : t.record = t.recorded := by
  induction t with
  | leaf l => exact record_leaf l
  | join l r c g e ihl ihr => rw [record_join, ihl, ihr, recorded]

/-- **Text and record by recursion.** Opening all parentheses of a left side in front of its first
term and closing them one by one is writing each join around the texts of its children; and the
record that is built outwards from the bottom of the left side is that of each join around the
records of its children. -/
theorem render_record_eq_plain (t : Tree) : t.render = t.written ∧ t.record = t.recorded :=
  ⟨render_eq_written t, record_eq_recorded t⟩

end Tree

end FullText
