import FullText.Directory

/-!
# What is written is read back

Writing changes only what one path leads to (`entry?_put_of_ne`), so the directories on the way are
still there, and what was written is found at the end of the path (`read_of_write`). Where a path
cannot be read or written, the path is at fault, never the bytes (`isPathFault_of_read`,
`write_eq_error`).
-/

namespace FullText

namespace Directory

variable {d d' : Directory} {p : Path} {path : String} {parts here rest : List String}
  {e x : Entry} {bytes : List UInt8} {f : Fault}

/-! ## One entry -/

theorem lookup_filter_of_ne (h : here ≠ parts) (entries : List (List String × Entry)) :
    (entries.filter fun f => f.1 != parts).lookup here = entries.lookup here := by
  induction entries with
  | nil => rfl
  | cons f fs ih =>
    by_cases hf : f.1 = parts
    · have hkey : (here == f.1) = false := by simpa [hf] using h
      rw [List.filter_cons_of_neg (by simpa using hf), ih, List.lookup_cons, hkey]
    · rw [List.filter_cons_of_pos (by simpa using hf), List.lookup_cons, List.lookup_cons, ih]

theorem entry?_eq_directory (h : parts = ["/"] ∨ parts.all (· == "..") = true) :
    d.entry? parts = some .directory := if_pos h

theorem entry?_of_ne (h : ¬(parts = ["/"] ∨ parts.all (· == "..") = true)) :
    d.entry? parts = (d.entries.lookup parts).or
      (if d.entries.any fun e => parts.isPrefixOf e.1 then some .directory else none) := by
  unfold entry?
  rw [if_neg h]
  cases d.entries.lookup parts <;> rfl

/-- What another place holds stays as it is. -/
theorem entry?_put_of_ne (h : d.entry? here = some x) (hne : here ≠ parts) :
    entry? (d.put parts e) here = some x := by
  by_cases hup : here = ["/"] ∨ here.all (· == "..") = true
  · rwa [entry?_eq_directory hup] at h ⊢
  · have hlookup : (d.put parts e).entries.lookup here = d.entries.lookup here := by
      have hkey : (here == parts) = false := by simpa using hne
      show List.lookup here ((parts, e) :: _) = _
      rw [List.lookup_cons, hkey]
      exact lookup_filter_of_ne hne d.entries
    rw [entry?_of_ne hup] at h ⊢
    rw [hlookup]
    cases hd : d.entries.lookup here with
    | some y => rwa [hd] at h
    | none =>
      -- What stood below `here` still does, or something else stands in its place.
      rw [hd, Option.none_or, Option.ite_none_right_eq_some] at h
      rw [Option.none_or, Option.ite_none_right_eq_some]
      obtain ⟨hbelow, hx⟩ := h
      obtain ⟨f, hf, hprefix⟩ := List.any_eq_true.mp hbelow
      refine ⟨?_, hx⟩
      by_cases hfp : f.1 = parts
      · exact List.any_eq_true.mpr ⟨_, List.mem_cons_self, hfp ▸ hprefix⟩
      · exact List.any_eq_true.mpr ⟨f, List.mem_cons_of_mem _ (by simp [hf, hfp]), hprefix⟩

theorem entry?_put_self (h : d.entry? parts ≠ some .directory) :
    entry? (d.put parts e) parts = some e := by
  have hup : ¬(parts = ["/"] ∨ parts.all (· == "..") = true) := fun hup =>
    h (entry?_eq_directory hup)
  rw [entry?_of_ne hup]
  have hlookup : (d.put parts e).entries.lookup parts = some e := List.lookup_cons_self
  rw [hlookup]
  rfl

/-! ## Paths -/

theorem follow_cons_eq_ok {part : String} :
    d.follow path here (part :: rest) = .ok parts ↔ d.entry? here = some .directory ∧
      part.utf8ByteSize ≤ maxNameSize ∧ d.follow path (enter here part) rest = .ok parts := by
  rw [follow]
  split
  · next h => simp [h]
  · next h => simp [h]
  · next h => split <;> simp_all [Nat.not_le.mpr]

/-- The way to a place that holds no directory stays as it is when something is put there. -/
theorem follow_put (h : d.follow path here rest = .ok parts)
    (hparts : d.entry? parts ≠ some .directory) :
    (d.put parts e).follow path here rest = .ok parts := by
  induction rest generalizing here with
  | nil => exact h
  | cons part rest ih =>
    obtain ⟨hhere, hsize, hrest⟩ := follow_cons_eq_ok.mp h
    have hne : here ≠ parts := fun heq => hparts (heq ▸ hhere)
    exact follow_cons_eq_ok.mpr ⟨entry?_put_of_ne hhere hne, hsize, ih hrest⟩

theorem isPathFault_of_follow (h : d.follow path here rest = .error f) : f.isPathFault = true := by
  induction rest generalizing here with
  | nil => exact absurd h (by simp [follow])
  | cons part rest ih =>
    rw [follow] at h
    split at h
    · obtain rfl := Except.error.inj h
      rfl
    · obtain rfl := Except.error.inj h
      rfl
    · split at h
      · obtain rfl := Except.error.inj h
        rfl
      · exact ih h

theorem locate_of_nul (h : p.toString.contains '\x00' = true) :
    d.locate p = .error .nulInPath := if_pos h

theorem isPathFault_of_locate (hp : p.toString.contains '\x00' = false)
    (h : d.locate p = .error f) : f.isPathFault = true := by
  simp only [locate, hp, Bool.false_eq_true, if_false] at h
  split at h
  · obtain rfl := Except.error.inj h
    rfl
  · exact isPathFault_of_follow h

theorem locate_eq_ok : d.locate p = .ok parts ↔ p.toString.contains '\x00' = false ∧
    p.toString.utf8ByteSize ≤ maxPathSize ∧ d.follow p.toString p.start p.parts = .ok parts := by
  simp only [locate]
  split
  · next h => simp [h]
  · split <;> simp_all [Nat.not_le.mpr]

theorem locate_put (h : d.locate p = .ok parts) (hparts : d.entry? parts ≠ some .directory) :
    (d.put parts e).locate p = .ok parts := by
  obtain ⟨hnul, hsize, hfollow⟩ := locate_eq_ok.mp h
  exact locate_eq_ok.mpr ⟨hnul, hsize, follow_put hfollow hparts⟩

/-! ## Reading and writing -/

theorem read_of_nul (h : p.toString.contains '\x00' = true) : d.read p = .error .nulInPath := by
  rw [read, locate_of_nul h]

/-- A path without a NUL that cannot be read is at fault itself. -/
theorem isPathFault_of_read (hp : p.toString.contains '\x00' = false) (h : d.read p = .error f) :
    f.isPathFault = true := by
  unfold read at h
  split at h
  · next f' hlocate =>
    obtain rfl := Except.error.inj h
    exact isPathFault_of_locate hp hlocate
  · split at h
    · obtain rfl := Except.error.inj h
      rfl
    · obtain rfl := Except.error.inj h
      rfl
    · exact absurd h (by simp)

/-- Nothing can be written to the path: it leads nowhere, or to a directory. -/
def Unwritable (d : Directory) (p : Path) (f : Fault) : Prop :=
  d.locate p = .error f ∨
    ∃ parts, d.locate p = .ok parts ∧ d.entry? parts = some .directory ∧
      f = .isDirectory p.toString

theorem write_eq_error : d.write p bytes = .error f ↔ d.Unwritable p f := by
  unfold write Unwritable
  cases hp : d.locate p with
  | error f' => simp
  | ok parts =>
    cases he : d.entry? parts with
    | none => simp [he]
    | some e => cases e <;> simp [he, eq_comm]

/-- **What is written is read back.** -/
theorem read_of_write (h : d.write p bytes = .ok d') : d'.read p = .ok bytes := by
  unfold write at h
  split at h
  · exact absurd h (by simp)
  · next parts hp =>
    split at h
    · exact absurd h (by simp)
    · next hparts =>
      obtain rfl := Except.ok.inj h
      simp only [read, locate_put hp hparts, entry?_put_self hparts]

/-- Nothing but what the path leads to is changed. -/
theorem entry?_of_write (h : d.write p bytes = .ok d') (hx : d.entry? here = some x) :
    d'.entry? here = some x ∨ d.locate p = .ok here := by
  unfold write at h
  split at h
  · exact absurd h (by simp)
  · next parts hp =>
    split at h
    · exact absurd h (by simp)
    · obtain rfl := Except.ok.inj h
      by_cases hne : here = parts
      · exact .inr (hne ▸ hp)
      · exact .inl (entry?_put_of_ne hx hne)

end Directory

end FullText
