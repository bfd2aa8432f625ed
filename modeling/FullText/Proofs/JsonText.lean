import FullText.Json.Printer
import FullText.Json.Reader
import FullText.Proofs.Runs

/-!
# JSON is read back

The text that a value is written as stands for that value (`parse?_render`), whatever characters its
strings hold and however it is indented. Floating-point numbers are left out. What carries the proof
is that a value is written in front of any rest that cannot be taken for a part of a number, and
read up to just that rest.
-/

namespace FullText

namespace Json

variable {c : Char} {cs rest : List Char} {indent : Option Int} {level outer n : Nat} {v : Value}
  {vs : List Value} {k : String} {fs : List (String × Value)}

/-! ## Strings -/

theorem hexValue?_digitChar : ∀ d < 16, hexValue? (Nat.digitChar d) = some d := by decide

/-- Four digits are enough for a code below 65536. -/
theorem readCodes_hexDigits (hn : n < 0x10000) (codes : List Nat) (rest : List Char) :
    readCodes codes ('\\' :: 'u' :: Text.hexDigits 4 n ++ rest) = readCodes (n :: codes) rest := by
  have hdigit (m : Nat) : hexValue? (Nat.digitChar (m % 16)) = some (m % 16) :=
    hexValue?_digitChar _ (Nat.mod_lt _ (by decide))
  have hcode : hexCode? (Nat.digitChar (n / 16 / 16 / 16 % 16)) (Nat.digitChar (n / 16 / 16 % 16))
      (Nat.digitChar (n / 16 % 16)) (Nat.digitChar (n % 16)) = some n := by
    simp only [hexCode?, hdigit, Option.bind_eq_bind, Option.bind_some, pure, Option.some.injEq]
    omega
  have hdigits : '\\' :: 'u' :: Text.hexDigits 4 n ++ rest = '\\' :: 'u' ::
      Nat.digitChar (n / 16 / 16 / 16 % 16) :: Nat.digitChar (n / 16 / 16 % 16) ::
      Nat.digitChar (n / 16 % 16) :: Nat.digitChar (n % 16) :: rest := rfl
  rw [hdigits, readCodes]
  simp only [hcode]

theorem readCodes_of_plain (hq : c ≠ '"') (hb : c ≠ '\\') (hc : ¬c.toNat < 0x20)
    (codes : List Nat) (rest : List Char) :
    readCodes codes (c :: rest) = readCodes (c.toNat :: codes) rest := by
  rw [readCodes.eq_def]
  split <;> simp_all [Nat.not_lt.mpr]

/-- What is written for a character is read as its code. -/
theorem readCodes_escapeChar (codes : List Nat) (c : Char) (rest : List Char) :
    readCodes codes (escapeChar c ++ rest) = readCodes (c.toNat :: codes) rest := by
  unfold escapeChar
  by_cases hq : c = '"'
  · subst hq; rfl
  by_cases hb : c = '\\'
  · subst hb; rfl
  by_cases hn : c = '\n'
  · subst hn; rfl
  by_cases hr : c = '\r'
  · subst hr; rfl
  by_cases ht : c = '\t'
  · subst ht; rfl
  by_cases h8 : c = '\x08'
  · subst h8; rfl
  by_cases hc : c = '\x0c'
  · subst hc; rfl
  rw [if_neg hq, if_neg hb, if_neg hn, if_neg hr, if_neg ht, if_neg h8, if_neg hc]
  split
  · next hlow => exact readCodes_hexDigits (by omega) codes rest
  · next hlow => exact readCodes_of_plain hq hb hlow codes rest

theorem readCodes_flatMap (codes : List Nat) (cs rest : List Char) :
    readCodes codes (cs.flatMap escapeChar ++ '"' :: rest) =
      some (cs.reverse.map Char.toNat ++ codes, rest) := by
  induction cs generalizing codes with
  | nil => rfl
  | cons c cs ih =>
    rw [List.flatMap_cons, List.append_assoc, readCodes_escapeChar, ih]
    simp

/-- No character has the code of a surrogate. -/
theorem not_surrogate (c : Char) : ¬(0xD800 ≤ c.toNat ∧ c.toNat < 0xE000) := by
  have hvalid : c.toNat.isValidChar := c.valid
  unfold Nat.isValidChar at hvalid
  omega

theorem charsOfCodes_map (cs ds : List Char) :
    charsOfCodes cs (ds.map Char.toNat) = ds.reverse ++ cs := by
  induction ds generalizing cs with
  | nil => rfl
  | cons d ds ih =>
    cases ds with
    | nil => simp [charsOfCodes]
    | cons e ds =>
      have he := not_surrogate e
      have hpair :
          ¬(0xD800 ≤ e.toNat ∧ e.toNat < 0xDC00 ∧ 0xDC00 ≤ d.toNat ∧ d.toNat < 0xE000) := by
        omega
      rw [List.map_cons, List.map_cons, charsOfCodes, if_neg hpair, ← List.map_cons, ih]
      simp

/-- What is written of a string behind its opening quote is read as the string. -/
theorem readString_flatMap (s : String) (rest : List Char) :
    readString (s.toList.flatMap escapeChar ++ '"' :: rest) = some (s, rest) := by
  rw [readString, readCodes_flatMap, List.append_nil, Option.map_some, charsOfCodes_map]
  simp

/-! ## Spaces and ends -/

theorem skipSpace_of_not_isSpace (h : isSpace c = false) (cs : List Char) :
    skipSpace (c :: cs) = c :: cs := by
  simp [skipSpace, h]

theorem skipSpace_of_isSpace (h : isSpace c = true) (cs : List Char) :
    skipSpace (c :: cs) = skipSpace cs := by
  simp [skipSpace, h]

theorem skipSpace_lineBreak (indent : Option Int) (level : Nat) (cs : List Char) :
    skipSpace (lineBreak indent level cs) = skipSpace cs := by
  cases indent with
  | none => rfl
  | some width =>
    have hspaces : ∀ m, skipSpace (List.replicate m ' ' ++ cs) = skipSpace cs := by
      intro m
      induction m with
      | zero => rfl
      | succ m ih => exact ih
    exact hspaces _

/-- What follows cannot be taken for a part of a number. -/
def Ends (rest : List Char) : Prop := ∀ c ∈ rest.head?, c ∈ [',', '\n', ']', '\x7d']

theorem ends_bracket : Ends (']' :: rest) := by
  rintro c ⟨⟩
  decide

theorem ends_brace : Ends ('\x7d' :: rest) := by
  rintro c ⟨⟩
  decide

theorem ends_lineBreak (h : Ends rest) : Ends (lineBreak indent level rest) := by
  cases indent with
  | none => exact h
  | some width =>
    rintro c ⟨⟩
    decide

theorem ends_separator : Ends (separator indent level rest) := by
  cases indent <;>
  · rintro c ⟨⟩
    decide

/-! ## Numbers -/

theorem not_isDigit_of_ends (h : Ends rest) : ∀ c ∈ rest.head?, c.isDigit = false := by
  intro c hc
  have hc := h c hc
  simp only [List.mem_cons, List.not_mem_nil, or_false] at hc
  rcases hc with rfl | rfl | rfl | rfl <;> rfl

theorem isDigit_of_mem_toDigits : ∀ d ∈ Nat.toDigits 10 n, d.isDigit = true :=
  fun _ hd => Nat.isDigit_of_mem_toDigits (by decide) (by decide) hd

theorem readDigits_toDigits (n : Nat) (h : Ends rest) :
    readDigits (Nat.toDigits 10 n ++ rest) = some (Nat.toDigits 10 n, rest) := by
  unfold readDigits
  rw [takeWhile_run isDigit_of_mem_toDigits (not_isDigit_of_ends h),
    dropWhile_run isDigit_of_mem_toDigits (not_isDigit_of_ends h)]
  split
  · next hnil => exact absurd hnil Nat.toDigits_ne_nil
  · rfl

/-- A number of more than one digit does not start with a zero. -/
theorem toDigits_ne_zero_cons (n : Nat) (d : Char) (ds : List Char) :
    Nat.toDigits 10 n ≠ '0' :: d :: ds := by
  induction n using Nat.strongRecOn generalizing d ds with
  | ind n ih =>
    intro h
    by_cases hn : n < 10
    · rw [Nat.toDigits_of_lt_base hn] at h
      exact absurd (List.cons.inj h).2 (by simp)
    · rw [Nat.toDigits_of_base_le (by decide) (by omega)] at h
      have hlt : n / 10 < n := by omega
      match hfront : Nat.toDigits 10 (n / 10) with
      | [] => exact Nat.toDigits_ne_nil hfront
      | [e] =>
        rw [hfront] at h
        obtain rfl := (List.cons.inj h).1
        have hzero := Nat.ofDigitChars_ten_toDigits (n := n / 10)
        rw [hfront] at hzero
        have : (0 : Nat) = n / 10 := hzero
        omega
      | e :: f :: es =>
        rw [hfront] at h
        obtain rfl := (List.cons.inj h).1
        exact ih (n / 10) hlt f es hfront

theorem readWhole_toDigits (n : Nat) (h : Ends rest) :
    readWhole (Nat.toDigits 10 n ++ rest) = some (Nat.toDigits 10 n, rest) := by
  unfold readWhole
  rw [readDigits_toDigits n h]
  split
  · next hzero =>
    obtain ⟨hdigits, -⟩ := Prod.mk.inj (Option.some.inj hzero)
    exact absurd hdigits (toDigits_ne_zero_cons n _ _)
  · rfl

theorem digitsValue_toDigits (n : Nat) : digitsValue (Nat.toDigits 10 n) = n := by
  have hvalue := Nat.ofDigitChars_ten_toDigits (n := n)
  unfold Nat.ofDigitChars at hvalue
  simpa only [digitsValue, Nat.mul_comm] using hvalue

theorem readFraction_of_ends (h : Ends rest) : readFraction rest = some ([], rest) := by
  unfold readFraction
  split
  · exact absurd (h '.' rfl) (by decide)
  · rfl

theorem readExponent_of_ends (h : Ends rest) : readExponent rest = some (none, rest) := by
  cases rest with
  | nil => rfl
  | cons c cs =>
    have hc := h c rfl
    rw [readExponent.eq_def]
    refine if_neg ?_
    rintro (rfl | rfl) <;> exact absurd hc (by decide)

theorem readMagnitude_toDigits (negative : Bool) (n : Nat) (h : Ends rest) :
    readMagnitude negative (Nat.toDigits 10 n ++ rest) =
      some (.int (if negative then -n else n), rest) := by
  unfold readMagnitude
  simp only [readWhole_toDigits n h, readFraction_of_ends h, readExponent_of_ends h,
    Option.bind_eq_bind, Option.bind_some, List.append_nil, digitsValue_toDigits]
  rfl

/-! ## Values -/

/-- A value that holds no floating-point number. -/
inductive FloatFree : Value → Prop
  | null : FloatFree .null
  | bool (b : Bool) : FloatFree (.bool b)
  | int (n : Int) : FloatFree (.int n)
  | text (s : String) : FloatFree (.text s)
  | list {vs : List Value} (h : ∀ v ∈ vs, FloatFree v) : FloatFree (.list vs)
  | record {fs : List (String × Value)} (h : ∀ f ∈ fs, FloatFree f.2) : FloatFree (.record fs)

/-- The value is read from where it was written, in no more steps than it has characters. That its
text starts with a character of its own tells a list with items from an empty one. -/
structure ReadsBack (indent : Option Int) (v : Value) : Prop where
  start : ∀ level rest, ∃ c cs, write indent level v rest = c :: cs ∧ isSpace c = false ∧ c ≠ ']' ∧
    rest.length ≤ cs.length
  read : ∀ level n rest, Ends rest → (write indent level v rest).length ≤ n + rest.length →
    readValue n (write indent level v rest) = some (v, rest)

theorem ReadsBack.length_lt (h : ReadsBack indent v) (level : Nat) (rest : List Char) :
    rest.length < (write indent level v rest).length := by
  obtain ⟨c, cs, hw, -, -, hlen⟩ := h.start level rest
  rw [hw]
  exact Nat.lt_succ_of_le hlen

theorem ReadsBack.skipSpace_eq (h : ReadsBack indent v) (level : Nat) (rest : List Char) :
    skipSpace (write indent level v rest) = write indent level v rest := by
  obtain ⟨c, cs, hw, hspace, -⟩ := h.start level rest
  rw [hw, skipSpace_of_not_isSpace hspace]

/-- Spaces in front of a value make no difference. -/
theorem readValue_congr {cs ds : List Char} (h : skipSpace cs = skipSpace ds) (n : Nat) :
    readValue n cs = readValue n ds := by
  cases n with
  | zero => rfl
  | succ n => rw [readValue, readValue, h]

theorem readItems_congr {cs ds : List Char} (h : skipSpace cs = skipSpace ds) (n : Nat) :
    readItems n cs = readItems n ds := by
  cases n with
  | zero => rfl
  | succ n => rw [readItems, readItems, readValue_congr h]

theorem readFields_congr {cs ds : List Char} (h : skipSpace cs = skipSpace ds) (n : Nat) :
    readFields n cs = readFields n ds := by
  cases n with
  | zero => rfl
  | succ n => rw [readFields, readFields, h]

theorem length_le_lineBreak (indent : Option Int) (level : Nat) (rest : List Char) :
    rest.length ≤ (lineBreak indent level rest).length := by
  cases indent with
  | none => exact Nat.le_refl _
  | some width => simp [lineBreak]; omega

theorem length_lt_separator (indent : Option Int) (level : Nat) (rest : List Char) :
    rest.length < (separator indent level rest).length := by
  cases indent with
  | none => exact Nat.lt_add_of_pos_right (by decide : 0 < 2)
  | some width => exact Nat.lt_succ_of_le (length_le_lineBreak (some width) level rest)

theorem length_lt_writeString (k : String) (rest : List Char) :
    rest.length < (writeString k rest).length := by
  simp [writeString]
  omega

/-- Behind the comma of a separator come spaces only. -/
theorem separator_eq (indent : Option Int) (level : Nat) (rest : List Char) :
    ∃ cs, separator indent level rest = ',' :: cs ∧ skipSpace cs = skipSpace rest := by
  cases indent with
  | none => exact ⟨' ' :: rest, rfl, rfl⟩
  | some width => exact ⟨_, rfl, skipSpace_lineBreak _ _ _⟩

/-! ### Items -/

/-- The items of a list that is not empty, and the bracket behind them. -/
def itemsText (indent : Option Int) (level outer : Nat) (v : Value) (vs : List Value)
    (rest : List Char) : List Char :=
  write indent level v (writeItems indent level vs (lineBreak indent outer (']' :: rest)))

theorem itemsText_cons (w : Value) : itemsText indent level outer v (w :: vs) rest =
    write indent level v (separator indent level (itemsText indent level outer w vs rest)) := rfl

theorem length_lt_itemsText (hv : ReadsBack indent v) (hvs : ∀ w ∈ vs, ReadsBack indent w)
    (level outer : Nat) (rest : List Char) :
    rest.length + 1 < (itemsText indent level outer v vs rest).length := by
  induction vs generalizing v with
  | nil =>
    have hlt := hv.length_lt level (lineBreak indent outer (']' :: rest))
    have hclose := length_le_lineBreak indent outer (']' :: rest)
    rw [List.length_cons] at hclose
    exact Nat.lt_of_le_of_lt hclose hlt
  | cons w vs ih =>
    obtain ⟨hw, hvs⟩ := List.forall_mem_cons.mp hvs
    have hlt := hv.length_lt level (separator indent level (itemsText indent level outer w vs rest))
    have hcomma := length_lt_separator indent level (itemsText indent level outer w vs rest)
    have hitems := ih hw hvs
    rw [itemsText_cons]
    omega

/-- Items are read one after the other, up to the bracket behind the last. -/
theorem readItems_itemsText (hv : ReadsBack indent v) (hvs : ∀ w ∈ vs, ReadsBack indent w)
    (hn : (itemsText indent level outer v vs rest).length ≤ n + rest.length) :
    readItems n (itemsText indent level outer v vs rest) = some (v :: vs, rest) := by
  have hlt := length_lt_itemsText hv hvs level outer rest
  obtain ⟨m, rfl⟩ : ∃ m, n = m + 1 := ⟨n - 1, by omega⟩
  induction vs generalizing v m with
  | nil =>
    have hclose := length_le_lineBreak indent outer (']' :: rest)
    rw [List.length_cons] at hclose
    unfold itemsText writeItems at hn ⊢
    rw [readItems, hv.read level m _ (ends_lineBreak ends_bracket) (by omega)]
    simp only [skipSpace_lineBreak]
    rfl
  | cons w vs ih =>
    obtain ⟨hw, hvs⟩ := List.forall_mem_cons.mp hvs
    have hitems := length_lt_itemsText hw hvs level outer rest
    have hcomma := length_lt_separator indent level (itemsText indent level outer w vs rest)
    have hitem :=
      hv.length_lt level (separator indent level (itemsText indent level outer w vs rest))
    obtain ⟨cs, hcs, hspace⟩ :=
      separator_eq indent level (itemsText indent level outer w vs rest)
    rw [itemsText_cons] at hn ⊢
    obtain ⟨k, rfl⟩ : ∃ k, m = k + 1 := ⟨m - 1, by omega⟩
    rw [readItems, hv.read level (k + 1) _ ends_separator (by omega)]
    simp only [hcs]
    show (readItems (k + 1) cs).map _ = _
    rw [readItems_congr hspace, ih hw hvs hitems k (by omega)]
    rfl

/-! ### Fields -/

/-- The fields of a record that is not empty, and the brace behind them. -/
def fieldsText (indent : Option Int) (level outer : Nat) (k : String) (v : Value)
    (fs : List (String × Value)) (rest : List Char) : List Char :=
  writeString k (':' :: ' ' :: write indent level v
    (writeFields indent level fs (lineBreak indent outer ('\x7d' :: rest))))

theorem fieldsText_cons (f : String × Value) :
    fieldsText indent level outer k v (f :: fs) rest =
      writeString k (':' :: ' ' :: write indent level v
        (separator indent level (fieldsText indent level outer f.1 f.2 fs rest))) := rfl

theorem length_lt_field (hv : ReadsBack indent v) (k : String) (level : Nat) (rest : List Char) :
    rest.length < (write indent level v rest).length ∧
      (write indent level v rest).length + 2 <
        (writeString k (':' :: ' ' :: write indent level v rest)).length :=
  ⟨hv.length_lt level rest, length_lt_writeString k (':' :: ' ' :: write indent level v rest)⟩

theorem length_lt_fieldsText (hv : ReadsBack indent v) (hfs : ∀ f ∈ fs, ReadsBack indent f.2)
    (level outer : Nat) (k : String) (rest : List Char) :
    rest.length + 1 < (fieldsText indent level outer k v fs rest).length := by
  induction fs generalizing k v with
  | nil =>
    obtain ⟨hlt, hname⟩ := length_lt_field hv k level (lineBreak indent outer ('\x7d' :: rest))
    have hclose := length_le_lineBreak indent outer ('\x7d' :: rest)
    rw [List.length_cons] at hclose
    unfold fieldsText writeFields
    omega
  | cons f fs ih =>
    obtain ⟨hf, hfs⟩ := List.forall_mem_cons.mp hfs
    obtain ⟨hlt, hname⟩ := length_lt_field hv k level
      (separator indent level (fieldsText indent level outer f.1 f.2 fs rest))
    have hcomma := length_lt_separator indent level (fieldsText indent level outer f.1 f.2 fs rest)
    have hfields := ih hf hfs f.1
    rw [fieldsText_cons]
    omega

/-- A field is read name first, then its value, and then the fields behind it if there are any. -/
theorem readFields_name {ds : List Char} (hv : readValue n cs = some (v, ds))
    (h : (∃ es, skipSpace ds = ',' :: es ∧ readFields n es = some (fs, rest)) ∨
      skipSpace ds = '\x7d' :: rest ∧ fs = []) :
    readFields (n + 1) (writeString k (':' :: ' ' :: cs)) = some ((k, v) :: fs, rest) := by
  have hquote : skipSpace (writeString k (':' :: ' ' :: cs)) =
      '"' :: (k.toList.flatMap escapeChar ++ '"' :: ':' :: ' ' :: cs) := rfl
  have hcolon : skipSpace (':' :: ' ' :: cs) = ':' :: ' ' :: cs := rfl
  have hspace : readValue n (' ' :: cs) = some (v, ds) :=
    (readValue_congr (skipSpace_of_isSpace rfl cs) n).trans hv
  rw [readFields]
  simp only [hquote, readString_flatMap, hcolon, hspace]
  rcases h with ⟨es, hds, hes⟩ | ⟨hds, rfl⟩
  · simp only [hds, hes, Option.map_some]
  · simp only [hds]

/-- Fields are read one after the other, up to the brace behind the last. -/
theorem readFields_fieldsText (hv : ReadsBack indent v) (hfs : ∀ f ∈ fs, ReadsBack indent f.2)
    (hn : (fieldsText indent level outer k v fs rest).length ≤ n + rest.length) :
    readFields n (fieldsText indent level outer k v fs rest) = some ((k, v) :: fs, rest) := by
  have hlt := length_lt_fieldsText hv hfs level outer k rest
  obtain ⟨m, rfl⟩ : ∃ m, n = m + 1 := ⟨n - 1, by omega⟩
  induction fs generalizing k v m with
  | nil =>
    obtain ⟨-, hname⟩ := length_lt_field hv k level (lineBreak indent outer ('\x7d' :: rest))
    have hclose := length_le_lineBreak indent outer ('\x7d' :: rest)
    rw [List.length_cons] at hclose
    unfold fieldsText writeFields at hn ⊢
    exact readFields_name (hv.read level m _ (ends_lineBreak ends_brace) (by omega))
      (.inr ⟨skipSpace_lineBreak _ _ _, rfl⟩)
  | cons f fs ih =>
    obtain ⟨hf, hfs⟩ := List.forall_mem_cons.mp hfs
    have hfields := length_lt_fieldsText hf hfs level outer f.1 rest
    have hcomma := length_lt_separator indent level (fieldsText indent level outer f.1 f.2 fs rest)
    obtain ⟨hvalue, hname⟩ := length_lt_field hv k level
      (separator indent level (fieldsText indent level outer f.1 f.2 fs rest))
    obtain ⟨cs, hcs, hspace⟩ :=
      separator_eq indent level (fieldsText indent level outer f.1 f.2 fs rest)
    rw [fieldsText_cons] at hn ⊢
    obtain ⟨j, rfl⟩ : ∃ j, m = j + 1 := ⟨m - 1, by omega⟩
    refine readFields_name (hv.read level (j + 1) _ ends_separator (by omega))
      (.inl ⟨cs, ?_, ?_⟩)
    · rw [hcs, skipSpace_of_not_isSpace (by decide)]
    · rw [readFields_congr hspace, ih hf hfs hfields j (by omega)]

/-! ### One kind after the other -/

theorem isSpace_of_isDigit (h : c.isDigit = true) : isSpace c = false := by
  rw [← Bool.not_eq_true]
  intro hspace
  simp only [isSpace, Bool.or_eq_true, beq_iff_eq] at hspace
  rcases hspace with ((rfl | rfl) | rfl) | rfl <;> exact absurd h (by decide)

theorem exists_toDigits_cons (n : Nat) :
    ∃ d ds, Nat.toDigits 10 n = d :: ds ∧ d.isDigit = true := by
  obtain ⟨d, ds, hds⟩ := List.exists_cons_of_ne_nil (Nat.toDigits_ne_nil (n := n) (b := 10))
  exact ⟨d, ds, hds, isDigit_of_mem_toDigits (n := n) d (by simp [hds])⟩

theorem readValue_digit (h : c.isDigit = true) (n : Nat) (cs : List Char) :
    readValue (n + 1) (c :: cs) = readMagnitude false (c :: cs) := by
  have hne : ∀ d : Char, d.isDigit = false → c ≠ d := by
    rintro d hd rfl
    exact absurd (hd.symm.trans h) (by decide)
  rw [readValue, skipSpace_of_not_isSpace (isSpace_of_isDigit h)]
  split <;> simp_all [readNumber]

theorem readValue_minus (h : c.isDigit = true) (n : Nat) (cs : List Char) :
    readValue (n + 1) ('-' :: c :: cs) = readMagnitude true (c :: cs) := by
  have hne : c ≠ 'I' := by
    rintro rfl
    exact absurd h (by decide)
  rw [readValue, skipSpace_of_not_isSpace (by decide)]
  simp [readNumber, hne]

theorem readsBack_of_start {v : Value}
    (hstart : ∀ level rest, ∃ c cs, write indent level v rest = c :: cs ∧ isSpace c = false ∧
      c ≠ ']' ∧ rest.length ≤ cs.length)
    (hread : ∀ level n rest, Ends rest →
      (write indent level v rest).length ≤ n + 1 + rest.length →
        readValue (n + 1) (write indent level v rest) = some (v, rest)) :
    ReadsBack indent v where
  start := hstart
  read level n rest hends hn := by
    cases n with
    | zero =>
      obtain ⟨c, cs, hw, -, -, hlen⟩ := hstart level rest
      rw [hw, List.length_cons] at hn
      omega
    | succ n => exact hread level n rest hends hn

theorem readsBack_text (s : String) : ReadsBack indent (.text s) := by
  refine readsBack_of_start (fun level rest => ?_) fun level n rest _ _ => ?_
  · exact ⟨'"', _, rfl, by decide, by decide, by simp; omega⟩
  · show (readString (s.toList.flatMap escapeChar ++ '"' :: rest)).map _ = _
    rw [readString_flatMap]
    rfl

theorem readsBack_int (n : Int) : ReadsBack indent (.int n) := by
  obtain ⟨d, ds, hds, hd⟩ := exists_toDigits_cons n.natAbs
  by_cases hn : n < 0
  · have hwrite (level : Nat) (rest : List Char) :
        write indent level (.int n) rest = '-' :: (d :: ds ++ rest) := by
      rw [write, writeInt, if_pos hn, hds]
      rfl
    refine readsBack_of_start (fun level rest => ?_) fun level m rest hends _ => ?_
    · exact ⟨'-', _, hwrite level rest, by decide, by decide, by simp; omega⟩
    · rw [hwrite, List.cons_append, readValue_minus hd, ← List.cons_append, ← hds,
        readMagnitude_toDigits true n.natAbs hends]
      show some (Value.int (-(n.natAbs : Int)), rest) = _
      rw [show -(n.natAbs : Int) = n by omega]
  · have hwrite (level : Nat) (rest : List Char) :
        write indent level (.int n) rest = d :: (ds ++ rest) := by
      rw [write, writeInt, if_neg hn, hds]
      rfl
    refine readsBack_of_start (fun level rest => ?_) fun level m rest hends _ => ?_
    · refine ⟨d, _, hwrite level rest, isSpace_of_isDigit hd, ?_, by simp⟩
      rintro rfl
      exact absurd hd (by decide)
    · rw [hwrite, readValue_digit hd, ← List.cons_append, ← hds,
        readMagnitude_toDigits false n.natAbs hends]
      show some (Value.int (n.natAbs : Int), rest) = _
      rw [show (n.natAbs : Int) = n by omega]

theorem readsBack_list (h : ∀ v ∈ vs, ReadsBack indent v) : ReadsBack indent (.list vs) := by
  cases vs with
  | nil =>
    refine readsBack_of_start (fun level rest => ?_) fun level n rest _ _ => rfl
    exact ⟨'[', _, rfl, by decide, by decide, by simp⟩
  | cons v vs =>
    obtain ⟨hv, hvs⟩ := List.forall_mem_cons.mp h
    have hwrite (level : Nat) (rest : List Char) : write indent level (.list (v :: vs)) rest =
        '[' :: lineBreak indent (level + 1) (itemsText indent (level + 1) level v vs rest) := rfl
    have hlen (level : Nat) (rest : List Char) := length_le_lineBreak indent (level + 1)
      (itemsText indent (level + 1) level v vs rest)
    refine readsBack_of_start (fun level rest => ?_) fun level n rest _ hn => ?_
    · have hitems := length_lt_itemsText hv hvs (level + 1) level rest
      have hopen := hlen level rest
      exact ⟨'[', _, hwrite level rest, by decide, by decide, by omega⟩
    · have hopen := hlen level rest
      rw [hwrite, List.length_cons] at hn
      have hitems : readItems n (itemsText indent (level + 1) level v vs rest) =
          some (v :: vs, rest) := readItems_itemsText hv hvs (by omega)
      obtain ⟨c, cs, hc, -, hne, -⟩ := hv.start (level + 1)
        (writeItems indent (level + 1) vs (lineBreak indent level (']' :: rest)))
      have hspace : skipSpace (lineBreak indent (level + 1)
          (itemsText indent (level + 1) level v vs rest)) = c :: cs := by
        rw [skipSpace_lineBreak, itemsText, hv.skipSpace_eq, hc]
      rw [itemsText, hc] at hitems
      rw [hwrite, readValue, skipSpace_of_not_isSpace (by decide)]
      simp only [hspace]
      split
      · next hbracket => exact absurd (List.cons.inj hbracket).1 hne
      · rw [hitems]
        rfl

theorem readsBack_record (h : ∀ f ∈ fs, ReadsBack indent f.2) : ReadsBack indent (.record fs) := by
  cases fs with
  | nil =>
    refine readsBack_of_start (fun level rest => ?_) fun level n rest _ _ => rfl
    exact ⟨'\x7b', _, rfl, by decide, by decide, by simp⟩
  | cons f fs =>
    obtain ⟨hf, hfs⟩ := List.forall_mem_cons.mp h
    have hwrite (level : Nat) (rest : List Char) : write indent level (.record (f :: fs)) rest =
        '\x7b' :: lineBreak indent (level + 1)
          (fieldsText indent (level + 1) level f.1 f.2 fs rest) := rfl
    have hlen (level : Nat) (rest : List Char) := length_le_lineBreak indent (level + 1)
      (fieldsText indent (level + 1) level f.1 f.2 fs rest)
    refine readsBack_of_start (fun level rest => ?_) fun level n rest _ hn => ?_
    · have hfields := length_lt_fieldsText hf hfs (level + 1) level f.1 rest
      have hopen := hlen level rest
      exact ⟨'\x7b', _, hwrite level rest, by decide, by decide, by omega⟩
    · have hopen := hlen level rest
      rw [hwrite, List.length_cons] at hn
      have hfields : readFields n (fieldsText indent (level + 1) level f.1 f.2 fs rest) =
          some (f :: fs, rest) := readFields_fieldsText hf hfs (by omega)
      obtain ⟨cs, hcs⟩ : ∃ cs, fieldsText indent (level + 1) level f.1 f.2 fs rest = '"' :: cs :=
        ⟨_, rfl⟩
      have hspace : skipSpace (lineBreak indent (level + 1)
          (fieldsText indent (level + 1) level f.1 f.2 fs rest)) = '"' :: cs := by
        rw [skipSpace_lineBreak, hcs, skipSpace_of_not_isSpace (by decide)]
      rw [hcs] at hfields
      rw [hwrite, readValue, skipSpace_of_not_isSpace (by decide)]
      simp only [hspace]
      show (readFields n ('"' :: cs)).map _ = _
      rw [hfields]
      rfl

theorem FloatFree.readsBack (h : FloatFree v) : ReadsBack indent v := by
  induction h with
  | null =>
    refine readsBack_of_start (fun level rest => ?_) fun level n rest _ _ => rfl
    exact ⟨'n', _, rfl, by decide, by decide, by simp; omega⟩
  | bool b =>
    cases b with
    | true =>
      refine readsBack_of_start (fun level rest => ?_) fun level n rest _ _ => rfl
      exact ⟨'t', _, rfl, by decide, by decide, by simp; omega⟩
    | false =>
      refine readsBack_of_start (fun level rest => ?_) fun level n rest _ _ => rfl
      exact ⟨'f', _, rfl, by decide, by decide, by simp; omega⟩
  | int n => exact readsBack_int n
  | text s => exact readsBack_text s
  | list _ ih => exact readsBack_list ih
  | record _ ih => exact readsBack_record ih

/-- **Reading JSON back.** -/
theorem parse?_render (h : FloatFree v) (indent : Option Int) :
    parse? (render indent v) = some v := by
  have hends : Ends [] := by simp [Ends]
  have hback : ReadsBack indent v := h.readsBack
  have hread := hback.read 0 (2 * (write indent 0 v []).length + 1) [] hends (by simp; omega)
  rw [parse?, render, String.toList_ofList, hread]
  rfl

end Json

end FullText
