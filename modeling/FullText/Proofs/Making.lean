import FullText.Proofs.Except
import FullText.Proofs.Faultless
import FullText.Proofs.Positives
import FullText.Tree.Fields

/-!
# Trees made step by step

A step makes one tree: a term or a join from its fields, a node with some fields replaced, the tree
of a text, or the repaired form of a tree. From nodes that were made before, only trees are made
that can be built (`Step.built_of_run`), whatever the steps are and however many (`Runs.built`). So
a join stores that it is excluded exactly if all of its terms are (`exclusion_never_stale`).
-/

namespace FullText

variable {s t : Tree} {fs : Fields} {j : JoinFields} {f : String × Field}

/-! ## Steps -/

/-- The trees among the fields. -/
def Fields.trees (fs : Fields) : List Tree :=
  fs.filterMap fun
    | (_, .tree t) => some t
    | _ => none

theorem Fields.mem_trees {n : String} (h : (n, .tree t) ∈ fs) : t ∈ fs.trees :=
  List.mem_filterMap.mpr ⟨_, h, rfl⟩

namespace Tree

inductive Step where
  | term (fields : Fields)
  | join (fields : Fields)
  | replace (node : Tree) (changes : Fields)
  | parse (text : String) (default : Conjunction) (words : StopWords)
  | normalize (node : Tree) (top : Bool)

namespace Step

/-- The trees that a step is given. -/
def operands : Step → List Tree
  | .term fields => fields.trees
  | .join fields => fields.trees
  | .replace node changes => node :: changes.trees
  | .parse _ _ _ => []
  | .normalize node _ => [node]

/-- Carries out a step. -/
def run : Step → Except Fault Tree
  | .term fields => ofTermFields fields
  | .join fields => ofJoinFields fields
  | .replace node changes => node.replace changes
  | .parse text default words => Search.parse text default words
  | .normalize node top => node.normalize top

end Step

/-- Steps that succeed one after the other, and the trees that they make, the last ones first. A
step is given no trees but those that were made before it, with the nodes below them, and the absent
one. -/
inductive Runs : List Step → List Tree → Prop
  | nil : Runs [] []
  | cons {steps : List Step} {made : List Tree} {step : Step} {t : Tree} (h : Runs steps made)
    (hgiven : ∀ s ∈ step.operands, s = absent ∨ ∃ u ∈ made, IsSubtree s u)
    (hrun : step.run = .ok t) : Runs (step :: steps) (t :: made)

end Tree

/-! ## Nodes from fields -/

namespace JoinFields

/-- The children that are given for a join are built, or absent. -/
structure OfBuilt (j : JoinFields) : Prop where
  left : j.left.Built ∨ j.left = .absent
  right : j.right.Built ∨ j.right = .absent

theorem OfBuilt.put (hj : j.OfBuilt) (hf : ∀ t, f.2 = .tree t → t.Built ∨ t = .absent) :
    (j.put f).OfBuilt := by
  unfold JoinFields.put
  split
  · exact ⟨hf _ rfl, hj.right⟩
  · exact ⟨hj.left, hf _ rfl⟩
  all_goals exact ⟨hj.left, hj.right⟩

theorem OfBuilt.foldl_put (hj : j.OfBuilt) (hfs : ∀ t ∈ fs.trees, t.Built ∨ t = .absent) :
    (fs.foldl JoinFields.put j).OfBuilt := by
  apply List.foldlRecOn fs _ hj
  intro j hj f hf
  apply hj.put
  intro t ht
  obtain ⟨n, field⟩ := f
  obtain rfl : field = .tree t := ht
  exact hfs t (Fields.mem_trees hf)

/-- An absent left child has no exclusion to read, so no join of it is built. -/
theorem OfBuilt.built (hj : j.OfBuilt) (h : j.build = .ok t) : t.Built := by
  unfold JoinFields.build at h
  rcases hj.left with hl | hl
  · exact hl.of_joined hj.right h
  · rw [hl] at h
    exact nomatch h

end JoinFields

namespace Tree

theorem built_of_ofTermFields (h : ofTermFields fs = .ok t) : Built t := by
  obtain ⟨-, -, h⟩ := Except.bind_eq_ok_iff.mp h
  obtain ⟨-, -, h⟩ := Except.bind_eq_ok_iff.mp h
  obtain rfl := Except.ok.inj h
  trivial

theorem built_of_ofJoinFields (hfs : ∀ t ∈ fs.trees, Built t ∨ t = absent)
    (h : ofJoinFields fs = .ok t) : Built t := by
  obtain ⟨-, -, h⟩ := Except.bind_eq_ok_iff.mp h
  obtain ⟨-, -, h⟩ := Except.bind_eq_ok_iff.mp h
  have hempty : JoinFields.OfBuilt { left := absent, right := absent } := ⟨.inr rfl, .inr rfl⟩
  exact (hempty.foldl_put hfs).built h

theorem built_of_replace (hs : Built s ∨ s = absent) (hfs : ∀ t ∈ fs.trees, Built t ∨ t = absent)
    (h : s.replace fs = .ok t) : Built t := by
  rcases hs with hs | rfl
  · cases s with
    | leaf l =>
      cases l with
      | term u =>
        obtain ⟨-, -, h⟩ := Except.bind_eq_ok_iff.mp h
        obtain rfl := Except.ok.inj h
        trivial
      | _ => exact hs.elim
    | join l r c g e =>
      obtain ⟨hl, hr⟩ := hs.operands
      have hchildren : JoinFields.OfBuilt ⟨l, r, c, g⟩ := ⟨.inl hl, hr⟩
      simp only [Tree.replace] at h
      split at h
      · exact nomatch h
      · obtain ⟨-, -, h⟩ := Except.bind_eq_ok_iff.mp h
        exact (hchildren.foldl_put hfs).built h
  · exact nomatch h

/-! ## One step -/

theorem Step.built_of_run {step : Step} (hgiven : ∀ s ∈ step.operands, Built s ∨ s = absent)
    (h : step.run = .ok t) : Built t ∨ t = absent := by
  cases step with
  | term fields => exact .inl (built_of_ofTermFields h)
  | join fields => exact .inl (built_of_ofJoinFields hgiven h)
  | replace node changes =>
    obtain ⟨hnode, hchanges⟩ := List.forall_mem_cons.mp hgiven
    exact .inl (built_of_replace hnode hchanges h)
  | parse text default words => exact (Search.parsed_of_parseFrom h).imp_left Whole.built
  | normalize node top =>
    have hnode := hgiven node List.mem_cons_self
    obtain rfl := Except.ok.inj ((normalize_of_built hnode top).symm.trans h)
    exact (repaired_settled hnode top).built

/-! ## All steps -/

variable {steps : List Step} {made : List Tree} {l r : Tree} {c : Conjunction} {g e : Bool}

theorem Built.of_isSubtree (h : Built t ∨ t = absent) (hs : IsSubtree s t) :
    Built s ∨ s = absent := by
  apply hs.of_operands (P := fun t => Built t ∨ t = absent) _ h
  intro l r c g e hjoin
  obtain ⟨hl, hr⟩ := (hjoin.resolve_right (by simp)).operands
  exact ⟨.inl hl, hr⟩

theorem Runs.built (h : Runs steps made) : ∀ t ∈ made, Built t ∨ t = absent := by
  induction h with
  | nil => simp
  | cons _ hgiven hrun ih =>
    -- what a step is given lies below a tree that is built, as far as it is there at all
    refine List.forall_mem_cons.mpr ⟨Step.built_of_run ?_ hrun, ih⟩
    intro s hs
    rcases hgiven s hs with rfl | ⟨u, hu, hsub⟩
    · exact .inr rfl
    · exact Built.of_isSubtree (ih u hu) hsub

/-- **The exclusion of a join is never stale.** Whatever trees are made, step by step, each join in
them stores that it is excluded exactly if all terms below it are. -/
theorem exclusion_never_stale (h : Runs steps made) (ht : t ∈ made)
    (hs : IsSubtree (.join l r c g e) t) :
    e = true ↔ ∀ u ∈ (join l r c g e).terms, u.exclude = true := by
  have hbuilt := (Built.of_isSubtree (h.built t ht) hs).resolve_right (by simp)
  rw [← positives_eq_nil_iff]
  exact hbuilt.isExcluded_iff

/-- A join becomes excluded when its left child is replaced, and the join that is built on it is
repaired for that reason. -/
theorem replaced_child_counted :
    ∃ a b both whole : Tree, a = term { word := "a" } ∧ b = term { word := "b", exclude := true } ∧
      both = .join b b .and false true ∧ whole = .join a both .and false false ∧
      Runs
        [.normalize (.join both a .and false false) true,
          .join [("left", .tree both), ("right", .tree a)],
          .replace (.join a b .and false false) [("left", .tree b)],
          .join [("left", .tree a), ("right", .tree b)],
          .term [("term", .word "b"), ("exclude", .flag true)], .term [("term", .word "a")]]
        [whole, .join both a .and false false, both, .join a b .and false false, b, a] ∧
      IsSubtree both whole ∧ (true = true ↔ ∀ u ∈ both.terms, u.exclude = true) := by
  have hmade {s : Tree} {made : List Tree} (h : s ∈ made) :
      s = absent ∨ ∃ u ∈ made, IsSubtree s u := .inr ⟨s, h, isSubtree_refl s⟩
  have htwo {s t : Tree} {made : List Tree} (hs : s ∈ made) (ht : t ∈ made) :
      ∀ s' ∈ [s, t], s' = absent ∨ ∃ u ∈ made, IsSubtree s' u :=
    List.forall_mem_cons.mpr ⟨hmade hs, List.forall_mem_singleton.mpr (hmade ht)⟩
  refine ⟨_, _, _, _, rfl, rfl, rfl, rfl, ?_⟩
  refine (fun hruns => ⟨hruns, .inr (.inr (isSubtree_refl _)), exclusion_never_stale hruns
    List.mem_cons_self (.inr (.inr (isSubtree_refl _)))⟩) ?_
  refine .cons (.cons (.cons (.cons (.cons (.cons .nil ?a rfl) ?b rfl) ?join rfl) ?replace rfl)
    ?whole rfl) ?normalize rfl
  case a | b => simp [Step.operands, Fields.trees]
  case join | replace | whole => exact htwo (by simp) (by simp)
  case normalize => exact List.forall_mem_singleton.mpr (hmade (by simp))

end Tree

end FullText
