import FullText.Proofs.SetOperators
import FullText.StopWords.Change

/-!
# Histories of stop words

What happens to stop words, change after change, is what happens to the mathematical set of their
folded words (`history_on_sets`). A set has no order: the words may come in any when a change is
made, so taking one out may take any. Every sequence of changes can be carried out (`exists_runs`),
and what is asked of the set in the end is answered as the set of folded words says.
-/

namespace FullText.StopWords

open Text (fold)

variable {A B : Finset String} {s t s' : StopWords} {o : Operand} {change : Change}
  {answer : Answer}

/-! ## Changes of a set of words -/

/-- What a change does to a set of words: its answer, and the set afterwards. A change that fails
leaves the set as it was, but for the elements that union and difference had come to. -/
inductive Does : Finset String → Change → Answer → Finset String → Prop
  | add (A : Finset String) (w : String) :
    Does A (.add (.text w)) (.ok none) (insert (fold w) A)
  | add_error (A : Finset String) {v : Value} {f : Fault} (h : wordOf v = .error f) :
    Does A (.add v) (.error f) A
  | discard (A : Finset String) (w : String) :
    Does A (.discard (.text w)) (.ok none) (A.erase (fold w))
  | discard_error (A : Finset String) {v : Value} {f : Fault} (h : wordOf v = .error f) :
    Does A (.discard v) (.error f) A
  | remove {A : Finset String} {w : String} (h : fold w ∈ A) :
    Does A (.remove (.text w)) (.ok none) (A.erase (fold w))
  | remove_error {A : Finset String} {v : Value} (h : ∀ w, v = .text w → fold w ∉ A) :
    Does A (.remove v) (.error (.absentWord v.shown)) A
  | pop {A : Finset String} {w : String} (h : w ∈ A) : Does A .pop (.ok (some w)) (A.erase w)
  | pop_error : Does ∅ .pop (.error .noWords) ∅
  | clear (A : Finset String) : Does A .clear (.ok none) ∅
  | update (A : Finset String) {o : Operand} (op : SetOp) (ho : o.Worded) :
    Does A (.update op o) (.ok none) (op.apply A (o.members A))
  | update_error (A : Finset String) {v x : Value} {ws : List String} {back : List Value}
    {f : Fault} (op : SetOp) (h : v.elements? = some (ws.map .text ++ x :: back))
    (hx : wordOf x = .error f) :
    Does A (.update op (.value v)) (.error f) (op.partway A (folds ws))

/-- The operand of the change, if it has one, is a collection. -/
def Change.OnCollection : Change → Prop
  | .update _ o => o.Collection
  | _ => True

/-- Carries out the change on the words in some order. -/
def Makes (s : StopWords) (change : Change) (answer : Answer) (s' : StopWords) : Prop :=
  ∃ t : StopWords, s.words.Perm t.words ∧ t.run change = (answer, s')

/-- Steps one after the other, each with the change that is made and its answer. -/
inductive Runs {σ : Type} (step : σ → Change → Answer → σ → Prop) :
    σ → List (Change × Answer) → σ → Prop
  | nil (a : σ) : Runs step a [] a
  | cons {a b c : σ} {change : Change} {answer : Answer} {history : List (Change × Answer)}
    (h : step a change answer b) (hrest : Runs step b history c) :
    Runs step a ((change, answer) :: history) c

/-! ## One change -/

theorem wordOf_text_or (v : Value) : (∃ w, v = .text w) ∨ ∃ f, wordOf v = .error f := by
  cases v with
  | text w => exact .inl ⟨w, rfl⟩
  | _ => exact .inr ⟨_, rfl⟩

/-- Some values are all words, or one of them is the first that is none. -/
theorem map_text_or (vs : List Value) :
    (∃ ws : List String, vs = ws.map .text) ∨
      ∃ (ws : List String) (x : Value) (back : List Value) (f : Fault),
        vs = ws.map .text ++ x :: back ∧ wordOf x = .error f := by
  induction vs with
  | nil => exact .inl ⟨[], rfl⟩
  | cons v vs ih =>
    rcases wordOf_text_or v with ⟨w, rfl⟩ | ⟨f, hf⟩
    · rcases ih with ⟨ws, rfl⟩ | ⟨ws, x, back, f, rfl, hx⟩
      · exact .inl ⟨w :: ws, rfl⟩
      · exact .inr ⟨w :: ws, x, back, f, rfl, hx⟩
    · exact .inr ⟨[], v, vs, f, rfl, hf⟩

/-- The outcome of a change of `s` is folded, and the change is one of the set of words. -/
structure Follows (s : StopWords) (change : Change) (r : Outcome) : Prop where
  folded : r.2.Folded
  does : Does s.members change r.1 r.2.members

theorem follows_remove (hs : s.Folded) (v : Value) :
    Follows s (.remove v) (s.run (.remove v)) := by
  by_cases hv : s.containsValue v = true
  · obtain ⟨w, rfl, hw⟩ := containsValue_iff.mp hv
    have hrun : s.run (.remove (.text w)) = (.ok none, s.discard w) := by
      simp only [run, removeValue, if_pos hv]
      rfl
    rw [hrun]
    exact ⟨hs.discard w, members_discard hs w ▸ .remove hw⟩
  · have hrun : s.run (.remove v) = (.error (.absentWord v.shown), s) := by
      simp only [run, removeValue, if_neg hv]
      rfl
    rw [hrun]
    exact ⟨hs, .remove_error fun w hw hmem => hv (containsValue_iff.mpr ⟨w, hw, hmem⟩)⟩

theorem follows_pop (hs : s.Folded) : Follows s .pop (s.run .pop) := by
  rcases hwords : s.words with _ | ⟨w, ws⟩
  · obtain rfl := eq_empty_of_words hwords
    exact ⟨hs, .pop_error⟩
  · have hw : w ∈ s.words := by simp [hwords]
    have hrun : s.run .pop = (.ok (some w), s.discard w) := by simp only [run, pop, hwords]
    rw [hrun]
    refine ⟨hs.discard w, ?_⟩
    rw [members_discard hs, hs.fold_eq w hw]
    exact .pop (mem_members.mpr hw)

theorem follows_update (hs : s.Folded) (ho : o.Collection) (op : SetOp) :
    Follows s (.update op o) (s.run (.update op o)) := by
  have hworded (ho : o.Worded) : Follows s (.update op o) (s.run (.update op o)) := by
    obtain ⟨s', hrun, hs', hmembers⟩ := exists_update hs ho op
    simp only [run, hrun]
    exact ⟨hs', hmembers ▸ .update _ op ho⟩
  cases ho with
  | isWords h => exact hworded (.isWords h)
  | @values v vs h =>
    rcases map_text_or vs with ⟨ws, rfl⟩ | ⟨ws, x, back, f, rfl, hx⟩
    · exact hworded (.texts h)
    · obtain ⟨s', hrun, hs', hmembers⟩ := exists_update_error hs h hx op
      simp only [run, hrun]
      exact ⟨hs', hmembers ▸ .update_error _ op h hx⟩

theorem follows_run (hs : s.Folded) (hchange : change.OnCollection) :
    Follows s change (s.run change) := by
  cases change with
  | add v =>
    rcases wordOf_text_or v with ⟨w, rfl⟩ | ⟨f, hf⟩
    · exact ⟨hs.add w, members_add s w ▸ .add _ w⟩
    · simp only [run, addValue, hf]
      exact ⟨hs, .add_error _ hf⟩
  | discard v =>
    rcases wordOf_text_or v with ⟨w, rfl⟩ | ⟨f, hf⟩
    · exact ⟨hs.discard w, members_discard hs w ▸ .discard _ w⟩
    · simp only [run, discardValue, hf]
      exact ⟨hs, .discard_error _ hf⟩
  | remove v => exact follows_remove hs v
  | pop => exact follows_pop hs
  | clear => exact ⟨hs.clear, members_clear hs ▸ .clear _⟩
  | update op o => exact follows_update hs hchange op

/-- The same holds when the words come in another order. -/
theorem Makes.follows (h : Makes s change answer s') (hs : s.Folded)
    (hchange : change.OnCollection) : Follows s change (answer, s') := by
  obtain ⟨t, hperm, hrun⟩ := h
  obtain ⟨hfolded, hdoes⟩ := hrun ▸ follows_run (hs.of_perm hperm) hchange
  exact ⟨hfolded, members_of_perm hperm ▸ hdoes⟩

/-! ## All changes -/

theorem Runs.members {history : List (Change × Answer)} (h : Runs Makes s history s')
    (hs : s.Folded) (hhistory : ∀ p ∈ history, p.1.OnCollection) :
    s'.Folded ∧ Runs Does s.members history s'.members := by
  -- that the words are folded goes along: each change needs it of the set that it is made on
  induction h with
  | nil s => exact ⟨hs, .nil _⟩
  | cons hmakes hrest ih =>
    obtain ⟨hchange, hrest⟩ := List.forall_mem_cons.mp hhistory
    obtain ⟨hs', hdoes⟩ := hmakes.follows hs hchange
    obtain ⟨hs'', hruns⟩ := ih hs' hrest
    exact ⟨hs'', .cons hdoes hruns⟩

/-- Every sequence of changes can be carried out. -/
theorem exists_runs (s : StopWords) (changes : List Change) :
    ∃ history s', history.map Prod.fst = changes ∧ Runs Makes s history s' := by
  induction changes generalizing s with
  | nil => exact ⟨[], s, rfl, .nil s⟩
  | cons change changes ih =>
    obtain ⟨history, s', rfl, hruns⟩ := ih (s.run change).2
    exact ⟨(change, (s.run change).1) :: history, s', rfl, .cons ⟨s, .refl _, rfl⟩ hruns⟩

/-! ## Questions -/

/-- What is asked of the stop words is answered as the set `A` of folded words says. -/
structure Reads (s : StopWords) (A : Finset String) : Prop where
  contains (v : Value) : s.containsValue v = true ↔ ∃ w, v = .text w ∧ fold w ∈ A
  binary {o : Operand} (ho : o.Worded) (op : SetOp) (side : Side) :
    ∃ t, s.binary op side o = .ok t ∧ t.Folded ∧ t.members = op.applyAt side A (o.members A)
  inter {o : Operand} (ho : o.Collection) (side : Side) :
    ∃ t, s.binary .inter side o = .ok t ∧ t.Folded ∧ t.members = A ∩ o.members A
  binary_error {op : SetOp} {v x : Value} {ws : List String} {back : List Value} {f : Fault}
    (hop : op ≠ .inter) (h : v.elements? = some (ws.map .text ++ x :: back))
    (hx : wordOf x = .error f) (side : Side) : s.binary op side (.value v) = .error f
  isDisjoint {o : Operand} (ho : o.Collection) :
    ∃ b, s.isDisjoint o = .ok b ∧ (b = true ↔ Disjoint A (o.members A))
  compare {o : Operand} (ho : o.IsWords) (rel : SetRel) :
    ∃ b, s.compare rel o = .ok b ∧ (b = true ↔ rel.Holds A (o.members A))

theorem Folded.reads (hs : s.Folded) : s.Reads s.members where
  contains _ := containsValue_iff
  binary ho op side := by
    obtain ⟨ws, hws, hmembers⟩ := exists_binary hs ho op side
    exact ⟨_, hws, folded_ofList ws, (members_ofList ws).trans hmembers⟩
  inter ho side := by
    obtain ⟨ws, hws, hmembers⟩ := inter_collection hs ho side
    exact ⟨_, hws, folded_ofList ws, (members_ofList ws).trans hmembers⟩
  binary_error hop h hx side := StopWords.binary_error hop h hx side
  isDisjoint ho := exists_isDisjoint hs ho
  compare ho rel := exists_compare hs ho rel

/-- **Stop words are a set of folded words.** -/
theorem history_on_sets {ws : List String} {history : List (Change × Answer)}
    (hhistory : ∀ p ∈ history, p.1.OnCollection) (hruns : Runs Makes (ofList ws) history s) :
    ofValues (ws.map .text) = .ok (ofList ws) ∧ s.Folded ∧
      Runs Does (folds ws) history s.members ∧ s.Reads s.members := by
  obtain ⟨hs, hmembers⟩ := hruns.members (folded_ofList ws) hhistory
  rw [members_ofList] at hmembers
  exact ⟨ofValues_text ws, hs, hmembers, hs.reads⟩

/-- The second change stops at a value that is no word, and the word before it stays added; the
third finds that word again, in two letter cases, and takes it out once. -/
theorem articles_history_on_sets :
    Runs Does (folds ["The", "A"])
      [(.pop, .ok (some "the")),
        (.update .union (.value (.list [.text "OF", .null])),
          .error (.noAttribute "NoneType" "casefold")),
        (.update .symmDiff (.value (.list [.text "Of", .text "oF", .text "To"])), .ok none)]
      (members ⟨["to", "a"]⟩) := by
  refine (history_on_sets (s := ⟨["to", "a"]⟩) ?_ ?_).2.2.1
  · simp only [List.forall_mem_cons, List.not_mem_nil, false_implies, implies_true, and_true]
    exact ⟨trivial, .values rfl, .values rfl⟩
  · refine .cons ⟨⟨["the", "a"]⟩, ?_, rfl⟩ ?_
    · decide
    · exact .cons ⟨_, .refl _, rfl⟩ (.cons ⟨_, .refl _, rfl⟩ (.nil _))

end FullText.StopWords
