import Mathlib.Data.List.Forall2
import FullText.Export
import FullText.Proofs.Except
import FullText.Proofs.JsonText
import FullText.Proofs.Positives
import FullText.Proofs.Recorded
import FullText.Proofs.Subtree

/-!
# Nothing is lost in an export

A tree of terms has a record (`asRecord`), from which the tree is read back, and every exclusion in
the record is the one that is computed from what stands below it. `export_lossless`: what any
conversions are exported to is read back as their texts, their trees and the two counts.
-/

namespace FullText

/-! ## Records -/

namespace Value

/-- The value of the field of a record that has the name. -/
def field? (v : Value) (name : String) : Option Value :=
  match v with
  | record fields => fields.lookup name
  | _ => none

/-- The value itself, or a value inside it. -/
inductive Within : Value → Value → Prop
  | self (v : Value) : Within v v
  | item {w v : Value} {vs : List Value} (hv : v ∈ vs) (h : Within w v) : Within w (.list vs)
  | field {w : Value} {f : String × Value} {fs : List (String × Value)} (hf : f ∈ fs)
    (h : Within w f.2) : Within w (.record fs)

variable {w : Value} {fs : List (String × Value)}

/-- In what is no collection stands nothing else. -/
theorem Within.eq_null (h : Within w .null) : w = .null := by
  cases h
  rfl

theorem Within.eq_text {s : String} (h : Within w (.text s)) : w = .text s := by
  cases h
  rfl

theorem Within.eq_bool {b : Bool} (h : Within w (.bool b)) : w = .bool b := by
  cases h
  rfl

theorem within_record : Within w (.record fs) ↔ w = .record fs ∨ ∃ f ∈ fs, Within w f.2 := by
  constructor
  · rintro (_ | _ | ⟨hf, h⟩)
    · exact .inl rfl
    · exact .inr ⟨_, hf, h⟩
  · rintro (rfl | ⟨f, hf, h⟩)
    · exact .self _
    · exact .field hf h

end Value

namespace Tree

open Value (Within)

variable {t : Tree} {v w : Value}

/-- The record of a tree of terms, null for an absent one. -/
def asRecord : Tree → Value
  | term u => u.record
  | .leaf _ => .null
  | .join l r c g e =>
    .record
      [("conjunction", .text c.name), ("exclude", .bool e), ("grouped", .bool g),
       ("left", l.asRecord), ("right", r.asRecord)]

theorem Whole.record_eq (h : Whole t) : t.record = .ok t.asRecord := by
  induction t with
  | leaf l =>
    cases l with
    | term u => rfl
    | _ => exact h.elim
  | join l r c g e ihl ihr =>
    rw [record_join, ihl h.1, ihr h.2.1]
    rfl

theorem isAbsent_iff : t.isAbsent = true ↔ t = absent := by
  unfold isAbsent
  split <;> simp_all

theorem recordOrNull_eq (h : Whole t ∨ t = absent) : t.recordOrNull = .ok t.asRecord := by
  rcases h with h | rfl
  · rw [← h.record_eq]
    unfold recordOrNull
    split
    · exact absurd rfl h.ne_absent
    · rfl
  · rfl

/-- **Reading records back.** -/
theorem Whole.ofRecord?_asRecord (h : Whole t) : ofRecord? t.asRecord = some t := by
  induction t with
  | leaf l =>
    cases l with
    | term u => exact ofRecord?_term u
    | _ => exact h.elim
  | join l r c g e ihl ihr =>
    obtain ⟨hl, hr, hjoined⟩ := h
    rw [asRecord, ofRecord?, Conjunction.ofValue_name, ihl hl, ihr hr]
    show (joined l r c g).toOption = _
    rw [hjoined]
    rfl

theorem Whole.asRecord_ne_null (h : Whole t) : t.asRecord ≠ .null := by
  cases t with
  | leaf l =>
    cases l with
    | term u => exact Value.noConfusion
    | _ => exact h.elim
  | join l r c g e => exact Value.noConfusion

theorem ofRecordOrNull?_asRecord (h : Whole t ∨ t = absent) :
    ofRecordOrNull? t.asRecord = some t := by
  rcases h with h | rfl
  · rw [← h.ofRecord?_asRecord]
    unfold ofRecordOrNull?
    split
    · next hnull => exact absurd hnull h.asRecord_ne_null
    · rfl
  · rfl

theorem asRecord_eq_null_iff (h : Whole t ∨ t = absent) : t.asRecord = .null ↔ t = absent := by
  rcases h with h | rfl
  · exact iff_of_false h.asRecord_ne_null h.ne_absent
  · exact iff_of_true rfl rfl

/-- A value in the record of a tree that records an exclusion is the record of a subtree, with the
exclusion of that subtree. -/
theorem Whole.exclusion_asRecord (h : Whole t) (hw : Within w t.asRecord)
    (he : w.field? "exclude" = some v) :
    ∃ s, IsSubtree s t ∧ ofRecord? w = some s ∧ v = .bool s.isExcluded := by
  induction t with
  | leaf l =>
    cases l with
    | term u =>
      rcases Value.within_record.mp hw with rfl | ⟨f, hf, hw⟩
      · exact ⟨_, isSubtree_refl _, ofRecord?_term u, (Option.some.inj he).symm⟩
      · simp only [List.mem_cons, List.not_mem_nil, or_false] at hf
        rcases hf with rfl | rfl | rfl | rfl
        · exact absurd he (by simp [hw.eq_text, Value.field?])
        · exact absurd he (by simp [hw.eq_text, Value.field?])
        · exact absurd he (by simp [hw.eq_bool, Value.field?])
        · exact absurd he (by simp [hw.eq_bool, Value.field?])
    | _ => exact h.elim
  | join l r c g e ihl ihr =>
    rcases Value.within_record.mp hw with rfl | ⟨f, hf, hw⟩
    · exact ⟨_, isSubtree_refl _, h.ofRecord?_asRecord, (Option.some.inj he).symm⟩
    · simp only [List.mem_cons, List.not_mem_nil, or_false] at hf
      rcases hf with rfl | rfl | rfl | rfl | rfl
      · exact absurd he (by simp [hw.eq_text, Value.field?])
      · exact absurd he (by simp [hw.eq_bool, Value.field?])
      · exact absurd he (by simp [hw.eq_bool, Value.field?])
      · obtain ⟨s, hs, hread⟩ := ihl h.1 hw
        exact ⟨s, .inr (.inl hs), hread⟩
      · obtain ⟨s, hs, hread⟩ := ihr h.2.1 hw
        exact ⟨s, .inr (.inr hs), hread⟩

open Json (FloatFree)

theorem floatFree_asRecord (t : Tree) : FloatFree t.asRecord := by
  induction t with
  | leaf l =>
    cases l with
    | term u =>
      refine .record ?_
      simp [FloatFree.text, FloatFree.bool]
    | _ => exact .null
  | join l r c g e ihl ihr =>
    refine .record ?_
    simp [FloatFree.text, FloatFree.bool, ihl, ihr]

end Tree

/-! ## Conversions -/

namespace Conversion

open Json (FloatFree)

variable {words : StopWords} {query : Option String} {c : Conversion}

/-- The conversion of an expression. -/
def outcomeOf (words : StopWords) (query : Option String) : Conversion :=
  ⟨query, String.ofList (Query.write (Query.ofTree (treeOf words query))), treeOf words query⟩

theorem ofQuery_outcomeOf (words : StopWords) (query : Option String) :
    ofQuery words query = .ok (outcomeOf words query) := ofQuery_eq words query

theorem whole_outcomeOf (words : StopWords) (query : Option String) :
    (outcomeOf words query).tree.Whole ∨ (outcomeOf words query).tree = .absent :=
  (treeOf_settled words query).whole

/-- Empty are the conversions with no tree. -/
theorem isEmpty_outcomeOf (words : StopWords) (query : Option String) :
    (outcomeOf words query).isEmpty = (outcomeOf words query).tree.isAbsent := by
  rw [Bool.eq_iff_iff, Tree.isEmpty_iff_of_ofQuery (ofQuery_outcomeOf words query),
    Tree.isAbsent_iff]

/-- The record of a conversion. -/
def asRecord (c : Conversion) : Value :=
  .record
    [("query", (c.query.map Value.text).getD .null), ("fts_query", .text c.text),
     ("tree", c.tree.asRecord)]

theorem record_eq (h : c.tree.Whole ∨ c.tree = .absent) : c.record = .ok c.asRecord := by
  unfold record
  rw [Tree.recordOrNull_eq h]
  rfl

theorem floatFree_asRecord (c : Conversion) : FloatFree c.asRecord := by
  refine .record ?_
  cases hq : c.query <;>
    simp [FloatFree.null, FloatFree.text, Tree.floatFree_asRecord]

/-- A record tells all about a conversion: its expression, its text, and its tree with the exclusion
of each subtree. -/
structure Tells (record : Value) (c : Conversion) : Prop where
  query : record.field? "query" = some ((c.query.map Value.text).getD .null)
  text : record.field? "fts_query" = some (.text c.text)
  tree : ∃ tree, record.field? "tree" = some tree ∧ Tree.ofRecordOrNull? tree = some c.tree ∧
    (tree = .null ↔ c.tree = .absent) ∧
    ∀ w, Value.Within w tree → ∀ v, w.field? "exclude" = some v →
      ∃ s, Tree.ofRecord? w = some s ∧ v = .bool s.isExcluded
  rendered : c.tree.render = .ok c.text

theorem tells_asRecord (words : StopWords) (query : Option String) :
    Tells (outcomeOf words query).asRecord (outcomeOf words query) where
  query := rfl
  text := rfl
  tree := by
    have hwhole := whole_outcomeOf words query
    refine ⟨_, rfl, Tree.ofRecordOrNull?_asRecord hwhole, Tree.asRecord_eq_null_iff hwhole, ?_⟩
    intro w hw v hv
    rcases hwhole with h | h
    · obtain ⟨s, -, hs⟩ := h.exclusion_asRecord hw hv
      exact ⟨s, hs⟩
    · rw [h] at hw
      obtain rfl : w = .null := hw.eq_null
      exact absurd hv (by simp [Value.field?])
  rendered := Tree.render_of_whole (whole_outcomeOf words query)

end Conversion

/-! ## Documents -/

namespace Format

open Json (FloatFree)

/-- The document of what expressions are converted to. -/
theorem document_outcomes (jobs : List (StopWords × Option String)) :
    document (jobs.map fun j => Conversion.outcomeOf j.1 j.2) = .ok (.record
      [("results", .list (jobs.map fun j => (Conversion.outcomeOf j.1 j.2).asRecord)),
       ("total", .int (jobs.map fun j => Conversion.outcomeOf j.1 j.2).length),
       ("empty", .int
        ((jobs.map fun j => Conversion.outcomeOf j.1 j.2).countP (·.tree.isAbsent)))]) := by
  have hwhole : ∀ c ∈ jobs.map fun j => Conversion.outcomeOf j.1 j.2,
      c.tree.Whole ∨ c.tree = .absent :=
    List.forall_mem_map.mpr fun j _ => Conversion.whole_outcomeOf j.1 j.2
  unfold document
  rw [Except.mapM_eq_ok fun c hc => Conversion.record_eq (hwhole c hc)]
  simp only [List.countP_map, List.map_map, Function.comp_def, Conversion.isEmpty_outcomeOf]
  rfl

/-- **Nothing is lost.** Whatever is converted, with whatever stop words, and however the document
is indented: read back, it tells of each conversion in turn all that it is, how many there are, and
how many have no tree. -/
theorem export_lossless (jobs : List (StopWords × Option String)) (indent : Option Int) :
    ∃ conversions text records,
      jobs.mapM (fun j => Conversion.ofQuery j.1 j.2) = .ok conversions ∧
      (json indent).render conversions = .ok text ∧
      Json.parse? text = some (.record
        [("results", .list records), ("total", .int conversions.length),
         ("empty", .int (conversions.countP (·.tree.isAbsent)))]) ∧
      List.Forall₂ Conversion.Tells records conversions := by
  have hdocument := document_outcomes jobs
  refine ⟨jobs.map fun j => Conversion.outcomeOf j.1 j.2, _,
    jobs.map fun j => (Conversion.outcomeOf j.1 j.2).asRecord,
    Except.mapM_eq_ok fun j _ => Conversion.ofQuery_outcomeOf j.1 j.2, ?_,
    Json.parse?_render ?_ indent, ?_⟩
  · rw [render, hdocument]
    rfl
  · have hrecords : FloatFree
        (.list (jobs.map fun j => (Conversion.outcomeOf j.1 j.2).asRecord)) :=
      .list (List.forall_mem_map.mpr fun j _ => Conversion.floatFree_asRecord _)
    refine .record ?_
    simp [FloatFree.int, hrecords]
  · rw [List.forall₂_map_left_iff, List.forall₂_map_right_iff]
    exact List.forall₂_same.mpr fun j _ => Conversion.tells_asRecord j.1 j.2

end Format

end FullText
