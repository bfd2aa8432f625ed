import Mathlib.Data.List.Nodup
import FullText.Proofs.Repair

/-!
# Terms told apart by their places

Repair does not read the words of terms: it commutes with changing them (`repaired_mapWords`). So
the words of a tree can be replaced by names of their places (`placed`), which are all different
(`nodup_terms_placed`), to see which terms of the tree a repaired tree has; with the words put back
it is the tree repaired (`repaired_placed`).
-/

namespace FullText

/-- The term with another word. -/
def Term.mapWord (f : String → String) (u : Term) : Term := { u with word := f u.word }

namespace Tree

variable {l r t : Tree} {c : Conjunction} {g e top : Bool} {f : String → String}

/-! ## Words that are replaced -/

def mapWords (f : String → String) : Tree → Tree
  | term u => term (u.mapWord f)
  | .leaf l => .leaf l
  | .join l r c g e => .join (l.mapWords f) (r.mapWords f) c g e

@[simp] theorem isExcluded_mapWords (f : String → String) (t : Tree) :
    (t.mapWords f).isExcluded = t.isExcluded := by
  cases t with
  | leaf l => cases l <;> rfl
  | join => rfl

@[simp] theorem isGrouped_mapWords (f : String → String) (t : Tree) :
    (t.mapWords f).isGrouped = t.isGrouped := by
  cases t with
  | leaf l => cases l <;> rfl
  | join => rfl

@[simp] theorem isLiteralTerm_mapWords (f : String → String) (t : Tree) :
    (t.mapWords f).isLiteralTerm = t.isLiteralTerm := by
  cases t with
  | leaf l => cases l <;> rfl
  | join => rfl

@[simp] theorem mapWords_eq_absent_iff : t.mapWords f = absent ↔ t = absent := by
  cases t with
  | leaf l => cases l <;> simp [mapWords]
  | join => simp [mapWords]

theorem whole_mapWords_iff : Whole (t.mapWords f) ↔ Whole t := by
  induction t with
  | leaf l => cases l <;> exact Iff.rfl
  | join l r c g e ihl ihr =>
    rw [mapWords, whole_join, whole_join, ihl, ihr, isExcluded_mapWords, isExcluded_mapWords]

theorem settled_mapWords (f : String → String) (top : Bool) (t : Tree) :
    settled top (t.mapWords f) = (settled top t).mapWords f := by
  unfold settled
  rw [isGrouped_mapWords, isExcluded_mapWords]
  split <;> rfl

theorem kept_mapWords (f : String → String) (c : Conjunction) (t : Tree) :
    kept c (t.mapWords f) = (kept c t).mapWords f := by
  unfold kept
  rw [isExcluded_mapWords]
  split <;> rfl

theorem allowed_mapWords (f : String → String) (l r : Tree) (c : Conjunction) :
    allowed (l.mapWords f) (r.mapWords f) c = allowed l r c := by
  cases c <;> simp [allowed]

theorem united_mapWords (f : String → String) (c : Conjunction) (g : Bool) (l r : Tree) :
    united c g (l.mapWords f) (r.mapWords f) = (united c g l r).mapWords f := by
  by_cases hl : l = absent
  · rw [hl]
    rfl
  by_cases hr : r = absent
  · rw [hr, united_absent_right]
    exact united_absent_right c g _
  · have hl' : l.mapWords f ≠ absent := fun h => hl (mapWords_eq_absent_iff.mp h)
    have hr' : r.mapWords f ≠ absent := fun h => hr (mapWords_eq_absent_iff.mp h)
    rw [united_of_ne_absent hl hr, united_of_ne_absent hl' hr']
    simp only [isExcluded_mapWords, allowed_mapWords]
    split <;> rfl

/-- Repair does not read words. -/
theorem repaired_mapWords (f : String → String) (t : Tree) (top : Bool) :
    (t.mapWords f).repaired top = (t.repaired top).mapWords f := by
  induction t generalizing top with
  | leaf l =>
    cases l with
    | term u => exact settled_mapWords f top (term u)
    | absent => exact settled_mapWords f top absent
    | foreign x => exact settled_mapWords f top (foreign x)
  | join l r c g e ihl ihr =>
    rw [mapWords, repaired, repaired, ihl, ihr, kept_mapWords, kept_mapWords, united_mapWords,
      settled_mapWords]

/-! ## Words that name places -/

/-- The name of a place: a stroke for each term in front of it. -/
def placeName (n : Nat) : String := String.ofList (List.replicate n '|')

theorem length_placeName (n : Nat) : (placeName n).length = n := by
  simp [placeName]

/-- The tree with the names of the places from `n` on for words. -/
def placedFrom : Nat → Tree → Tree
  | n, term u => term (u.mapWord fun _ => placeName n)
  | _, .leaf l => .leaf l
  | n, .join l r c g e => .join (l.placedFrom n) (r.placedFrom (n + l.terms.length)) c g e

/-- The tree with the names of their places for words. -/
def placed (t : Tree) : Tree := t.placedFrom 0

/-- The word at a place of the tree. -/
def wordAt (t : Tree) (place : String) : String :=
  ((t.terms.map Term.word)[place.length]?).getD ""

theorem words_placedFrom (n : Nat) (t : Tree) :
    (t.placedFrom n).terms.map Term.word = (List.range' n t.terms.length).map placeName := by
  induction t generalizing n with
  | leaf l => cases l <;> simp [placedFrom, terms, Term.mapWord]
  | join l r c g e ihl ihr =>
    simp only [placedFrom, terms, List.map_append, ihl, ihr, List.length_append]
    rw [← List.map_append, List.range'_append_1]

/-- No two terms of a placed tree are the same. -/
theorem nodup_terms_placed (t : Tree) : t.placed.terms.Nodup := by
  have hplace : Function.Injective placeName := fun m n h => by
    rw [← length_placeName m, h, length_placeName]
  refine List.Nodup.of_map Term.word ?_
  rw [placed, words_placedFrom]
  exact List.Nodup.map hplace List.nodup_range'

theorem mapWords_placedFrom (n : Nat) (t : Tree)
    (h : ∀ i, (hi : i < t.terms.length) → f (placeName (n + i)) = t.terms[i].word) :
    (t.placedFrom n).mapWords f = t := by
  induction t generalizing n with
  | leaf l =>
    cases l with
    | term u =>
      have hu : f (placeName n) = u.word := h 0 (by simp [terms])
      simp [placedFrom, mapWords, Term.mapWord, hu]
    | _ => rfl
  | join l r c g e ihl ihr =>
    rw [placedFrom, mapWords, ihl n fun i hi => ?_, ihr _ fun i hi => ?_]
    · have hlen : l.terms.length + i < (l.terms ++ r.terms).length := by simpa using hi
      have := h _ hlen
      simpa [terms, Nat.add_assoc] using this
    · have hlen : i < (l.terms ++ r.terms).length := by
        rw [List.length_append]
        omega
      have := h i hlen
      simpa [terms, List.getElem_append_left hi] using this

/-- With its words put back, a placed tree is the tree. -/
theorem mapWords_placed (t : Tree) : t.placed.mapWords t.wordAt = t := by
  refine mapWords_placedFrom 0 t fun i hi => ?_
  simp [wordAt, length_placeName, hi]

/-- The repaired tree is the placed tree repaired, with its words put back. -/
theorem repaired_placed (t : Tree) (top : Bool) :
    t.repaired top = (t.placed.repaired top).mapWords t.wordAt := by
  rw [← repaired_mapWords, mapWords_placed]

theorem Whole.placed (h : Whole t) : Whole t.placed := by
  rwa [← mapWords_placed t, whole_mapWords_iff] at h

end Tree

end FullText
