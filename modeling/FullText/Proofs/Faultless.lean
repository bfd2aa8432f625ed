import FullText.Proofs.Bounds
import FullText.Proofs.Reading
import FullText.Proofs.Recorded
import FullText.Proofs.Subtree
import FullText.Proofs.Written

/-!
# Every text is converted

Whatever the text, no stage of its conversion gives a fault (`conversion_never_fails`). Two
invariants carry this: the cursor stays inside the text, and no join gets an absent operand, neither
when the text is read nor when a tree is repaired.
-/

namespace FullText

/-! ## Trees -/

namespace Tree

variable {l r t : Tree} {c : Conjunction} {g e : Bool}

/-- The tree consists of terms and joins. -/
def OfTerms (t : Tree) : Prop := ∀ l, IsSubtree (.leaf l) t → ∃ x, l = .term x

theorem Whole.ofTerms (h : Whole t) : t.OfTerms := by
  intro l hl
  have hleaf := h.of_isSubtree hl
  cases l with
  | term x => exact ⟨x, rfl⟩
  | _ => exact hleaf.elim

theorem ofTerms_of_whole (h : Whole t ∨ t = absent) : t = absent ∨ t.OfTerms :=
  h.symm.imp_right Whole.ofTerms

/-- A join that is built when a tree is repaired, of repaired operands, has no absent operand: it
consists of terms and joins, like all that is repaired. -/
theorem Whole.combine_normalized (h : Whole t) (hs : IsSubtree (.join l r c g e) t) :
    ∃ l' r' u, l.normalize false = .ok l' ∧ r.normalize false = .ok r' ∧
      combine c g l' r' = .ok u ∧ (u = absent ∨ u.OfTerms) := by
  obtain ⟨hl, hr, -⟩ := h.of_isSubtree hs
  have hls := repaired_settled (.inl hl.built) false
  have hrs := repaired_settled (.inl hr.built) false
  refine ⟨l.repaired false, r.repaired false, _, normalize_of_built (.inl hl.built) false,
    normalize_of_built (.inl hr.built) false, hls.operand.combine_eq hrs.operand c g, ?_⟩
  exact ofTerms_of_whole (of_united (P := Whole) id
    (fun _ _ _ hl hr => whole_join.mpr ⟨hl, hr, rfl⟩) (of_kept hls.whole c) (of_kept hrs.whole c) c)

end Tree

/-! ## Reading -/

namespace Search

variable {words : StopWords} {default : Conjunction} {c d : Cursor} {m : Modifiers}
  {root tree : Tree}

/-- The cursors from which an item is read, and the trees that have been read by then, when an
expression is read from a cursor with a tree read so far. Blocks are read with cursors of their own,
from an absent tree. -/
inductive Visits (words : StopWords) :
    Conjunction → Cursor → Modifiers → Tree → Cursor → Tree → Prop
  | here {default : Conjunction} {c : Cursor} {m : Modifiers} {root : Tree} :
    Visits words default c m root c root
  | keyword {default : Conjunction} {c d e : Cursor} {m : Modifiers} {root tree : Tree}
    {cs : List Char} {starred : Bool} {k : Keyword} (hc : c.atEnd = false)
    (hi : c.nextItem = .ok (.word cs starred, d)) (hk : Keyword.ofWord? cs = some k)
    (h : Visits words default d (m.apply k) root e tree) : Visits words default c m root e tree
  | word {default : Conjunction} {c d e : Cursor} {m : Modifiers} {root next tree : Tree}
    {cs : List Char} {starred : Bool} (hc : c.atEnd = false)
    (hi : c.nextItem = .ok (.word cs starred, d)) (hk : Keyword.ofWord? cs = none)
    (ha : addTerm words root cs (m.literalIf starred) = .ok next)
    (h : Visits words default d { conjunction := default } next e tree) :
    Visits words default c m root e tree
  | phrase {default : Conjunction} {c d e : Cursor} {m : Modifiers} {root next tree : Tree}
    {cs : List Char} (hc : c.atEnd = false) (hi : c.nextItem = .ok (.phrase cs, d))
    (ha : addTerm words root cs (m.literalIf true) = .ok next)
    (h : Visits words default d { conjunction := default } next e tree) :
    Visits words default c m root e tree
  | inside {default : Conjunction} {c d e : Cursor} {m : Modifiers} {root tree : Tree}
    {b : Bracket} {cs : List Char} (hc : c.atEnd = false)
    (hi : c.nextItem = .ok (.block b cs, d))
    (h : Visits words (b.default default) (.ofChars cs) { conjunction := b.default default } .absent
      e tree) : Visits words default c m root e tree
  | block {default : Conjunction} {c d e : Cursor} {m : Modifiers} {root node next tree : Tree}
    {b : Bracket} {cs : List Char} (hc : c.atEnd = false)
    (hi : c.nextItem = .ok (.block b cs, d))
    (hn : parseFrom words (b.default default) (.ofChars cs) { conjunction := b.default default }
      .absent = .ok node)
    (ha : addNode root node m.conjunction b.groups = .ok next)
    (h : Visits words default d { conjunction := default } next e tree) :
    Visits words default c m root e tree
  | mark {default : Conjunction} {c d e : Cursor} {m : Modifiers} {root tree : Tree} {ch : Char}
    (hc : c.atEnd = false) (hi : c.nextItem = .ok (.mark ch, d))
    (h : Visits words default d (m.mark ch) root e tree) : Visits words default c m root e tree

/-- A tree of terms behind which a term or a block is put is one again. -/
theorem Parsed.of_addTerm {cs : List Char} (hr : Parsed root)
    (h : addTerm words root cs m = .ok tree) : Parsed tree := by
  rw [hr.addTerm_eq] at h
  obtain rfl := Except.ok.inj h
  exact hr.attach (parsed_termTree words cs m) _

theorem Parsed.of_addNode {node : Tree} {j : Conjunction} {g : Bool} (hr : Parsed root)
    (hn : Parsed node) (h : addNode root node j g = .ok tree) : Parsed tree := by
  rw [hr.addNode_eq hn] at h
  obtain rfl := Except.ok.inj h
  exact hr.attach (hn.withGroup g) j

theorem parsed_of_parseFrom {cs : List Char}
    (h : parseFrom words default (.ofChars cs) m .absent = .ok tree) : Parsed tree := by
  rw [Cursor.ofChars_eq_between, parseFrom_between (.inr rfl)] at h
  obtain rfl := Except.ok.inj h
  exact Parsed.build (.inr rfl) words default m _

/-- Whenever an item is read, the cursor is inside its text and what has been read so far is a tree
of terms. -/
theorem Visits.sound (h : Visits words default c m root d tree) (hc : c.Inside)
    (hr : Parsed root) : d.Inside ∧ Parsed tree := by
  induction h with
  | here => exact ⟨hc, hr⟩
  | keyword _ hi _ _ ih | mark _ hi _ ih => exact ih ((hc.ahead_nextItem hi).inside hc) hr
  | word _ hi _ ha _ ih | phrase _ hi ha _ ih =>
    exact ih ((hc.ahead_nextItem hi).inside hc) (hr.of_addTerm ha)
  | inside _ _ _ ih => exact ih (Cursor.inside_ofChars _) (.inr rfl)
  | block _ hi hn ha _ ih =>
    -- the tree of the block is known from the parser itself, not from the states inside
    exact ih ((hc.ahead_nextItem hi).inside hc) (hr.of_addNode (parsed_of_parseFrom hn) ha)

end Search

/-! ## Conversion -/

open Search in
/-- A text is read as the tree `t`, which is repaired to the tree `u`, without a fault and as the
operations that read a text, build a tree or go over one expect. -/
structure Converts (text : String) (default : Conjunction) (words : StopWords) (top : Bool)
    (t u : Tree) : Prop where
  parse : Search.parse text default words = .ok t
  normalize : t.normalize top = .ok u
  render : ∃ query, u.render = .ok query
  record : u ≠ .absent → ∃ v, u.record = .ok v
  /-- Characters are read inside the text, and no join built by then has an absent operand. -/
  visits : ∀ c root,
    Visits words default (.ofString text) { conjunction := default } .absent c root →
      (∀ d, c.NextReads d → d.Inside) ∧ (root = .absent ∨ root.OfTerms)
  parsed : t = .absent ∨ t.OfTerms
  /-- No join that is built while the tree is repaired has an absent operand. -/
  combined : ∀ l r c g e, Tree.IsSubtree (.join l r c g e) t →
    ∃ l' r' v, l.normalize false = .ok l' ∧ r.normalize false = .ok r' ∧
      Tree.combine c g l' r' = .ok v ∧ (v = .absent ∨ v.OfTerms)
  normalized : u = .absent ∨ u.OfTerms

/-- **Conversion never fails.** -/
theorem conversion_never_fails (query : Option String) (default : Conjunction) (words : StopWords)
    (top : Bool) : ∃ t u, Converts (query.getD "") default words top t u := by
  generalize query.getD "" = text
  have hparsed := Search.Parsed.build (.inr rfl) words default { conjunction := default }
    (Search.tokens text.toList)
  have hsettled := Tree.repaired_settled (hparsed.imp_left Tree.Whole.built) top
  refine ⟨_, _, ?parse, Tree.normalize_of_built (hparsed.imp_left Tree.Whole.built) top,
    ⟨_, Tree.render_of_whole hsettled.whole⟩, ?record, ?visits, Tree.ofTerms_of_whole hparsed,
    ?combined, Tree.ofTerms_of_whole hsettled.whole⟩
  case parse =>
    exact Search.parseFrom_between (.inr rfl) words default { conjunction := default } []
      text.toList
  case record =>
    intro hu
    exact (hsettled.whole.resolve_right hu).exists_record
  case visits =>
    intro c root hvisits
    obtain ⟨hc, hroot⟩ := hvisits.sound (Cursor.inside_ofChars _) (.inr rfl)
    exact ⟨fun d hd => hd.inside hc, Tree.ofTerms_of_whole hroot⟩
  case combined =>
    intro l r c g e hs
    rcases hparsed with hwhole | habsent
    · exact hwhole.combine_normalized hs
    · rw [habsent] at hs
      exact absurd hs (by simp [Tree.IsSubtree])

end FullText
