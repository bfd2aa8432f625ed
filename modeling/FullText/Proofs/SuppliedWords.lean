import FullText.Proofs.EncodedText
import FullText.Proofs.Outcomes
import FullText.Proofs.WordFiles
import FullText.Proofs.WordSets

/-!
# Stop words from several places

Stop words are given one by one, in a file, or by way of a setting. In which way they come does not
matter (`stop_words_supplied_alike`): what counts is which words are the same up to letter case.
-/

namespace FullText

open Text (fold)

variable {s t : StopWords} {w x : String} {ws written : List String}

/-! ## The same words -/

namespace Search

theorem termTree_congr (h : ∀ w, s.contains w = t.contains w) (cs : List Char) (m : Modifiers) :
    termTree s cs m = termTree t cs m := by
  rw [termTree, termTree, h]

/-- Stop words are asked for nothing but whether they contain a word. -/
theorem build_congr (h : ∀ w, s.contains w = t.contains w) (default : Conjunction) (m : Modifiers)
    (root : Tree) (ts : List Token) : build s default m root ts = build t default m root ts := by
  fun_induction build s default m root ts with
  | case1 => rw [build]
  | case2 default m root cs starred ts k hk ih => rw [build, hk, ih]
  | case3 default m root cs starred ts hk ih => rw [build, hk, ih, termTree_congr h]
  | case4 default m root cs ts ih => rw [build, ih, termTree_congr h]
  | case5 default m root c ts hb ih => rw [build, hb, ih]
  | case6 default m root c ts b hb inside inner node ihnode _ ih =>
    have hnode : node = build t inner { conjunction := inner } .absent inside := ihnode
    rw [build, hb, ih, hnode]

end Search

theorem Conversion.ofQueryNoting_congr (h : ∀ w, s.contains w = t.contains w)
    (query : Option String) : ofQueryNoting s query = ofQueryNoting t query := by
  have hparse := parse_query s query
  rw [Search.buildText, Search.build_congr h, ← Search.buildText, ← parse_query] at hparse
  unfold ofQueryNoting
  rw [hparse]

theorem Conversion.ofQuery_congr (h : ∀ w, s.contains w = t.contains w) (query : Option String) :
    ofQuery s query = ofQuery t query := by
  rw [ofQuery, ofQuery, ofQueryNoting_congr h]

namespace StopWords

theorem contains_ofList : (ofList ws).contains w = true ↔ ∃ x ∈ ws, fold w = fold x := by
  rw [contains_iff, mem_words_ofList]

/-- Adding the words of a set is adding what it was made of: they are only folded once more. -/
theorem contains_foldl_add : ((ofList ws).words.foldl add s).contains w = true ↔
    (∃ x ∈ ws, fold w = fold x) ∨ s.contains w = true := by
  rw [contains_iff, contains_iff, mem_words_foldl_add]
  refine or_congr_left ⟨?_, ?_⟩
  · rintro ⟨y, hy, hw⟩
    obtain ⟨x, hx, rfl⟩ := mem_words_ofList.mp hy
    exact ⟨x, hx, by rwa [Text.fold_fold] at hw⟩
  · rintro ⟨x, hx, hw⟩
    exact ⟨fold x, mem_words_ofList.mpr ⟨x, hx, rfl⟩, by rwa [Text.fold_fold]⟩

theorem Folded.perm (hs : s.Folded) (ht : t.Folded) (h : ∀ x, x ∈ s.words ↔ x ∈ t.words) :
    s.words.Perm t.words :=
  (List.perm_ext_iff_of_nodup hs.nodup ht.nodup).mpr h

theorem contains_of_perm (h : s.words.Perm t.words) (w : String) :
    s.contains w = t.contains w := by
  rw [Bool.eq_iff_iff, contains_iff, contains_iff, h.mem_iff]

/-- A set of stop words made from the words of one has the same words. -/
theorem Folded.ofList_perm (h : s.Folded) : (ofList s.words).words.Perm s.words := by
  refine (folded_ofList s.words).perm h fun x => ?_
  rw [mem_words_ofList]
  constructor
  · rintro ⟨y, hy, rfl⟩
    rwa [h.fold_eq y hy]
  · exact fun hx => ⟨x, hx, (h.fold_eq x hx).symm⟩

theorem ofList_perm (h : ∀ x, x ∈ written ↔ x ∈ ws) :
    (ofList written).words.Perm (ofList ws).words := by
  refine (folded_ofList written).perm (folded_ofList ws) fun x => ?_
  simp only [mem_words_ofList, h]

/-! ## Files -/

theorem load_of_read {d : Directory} {path : Path} {text : String}
    (h : d.read path = .ok (Text.encodeUtf8 text)) : load d path =
      .ok (ofText text.toList, .loaded (ofText text.toList).size path.toString) := by
  rw [load, h]
  simp only [Text.decodeUtf8_encodeUtf8]

theorem ofSetting_of_read {d : Directory} {path text : String} (hpath : path ≠ "")
    (h : d.read (.ofString path) = .ok (Text.encodeUtf8 text)) : ofSetting d (some path) =
      .ok (ofText text.toList,
        [.loaded (ofText text.toList).size (Path.ofString path).toString]) := by
  rw [ofSetting, load_of_read h]
  · rfl
  · exact hpath

theorem ofSetting_of_empty {setting : Option String} (h : setting.getD "" = "") (d : Directory) :
    ofSetting d setting = .ok (empty, []) := by
  cases setting with
  | none => rfl
  | some path =>
    rw [show path = "" from h]
    rfl

end StopWords

namespace Request

variable {r : Request} {around : Surroundings} {content : Option String}

/-- The text that stop words are taken from, if they are taken from a file: the one given, or the
one that the environment names if neither words nor a file are given. -/
inductive Reads (r : Request) (around : Surroundings) : Option String → Prop
  | file {file text : String} (hfile : r.stopWordsFile = some file)
    (hread : around.directory.read (.ofString file) = .ok (Text.encodeUtf8 text)) :
    Reads r around (some text)
  /-- Some words are given, or at least the list of them, and no file. -/
  | words {given : List String} (hwords : r.stopWords = some given)
    (hfile : r.stopWordsFile = none) : Reads r around none
  | setting {path text : String} (hwords : r.stopWords = none) (hfile : r.stopWordsFile = none)
    (hsetting : around.setting = some path) (hpath : path ≠ "")
    (hread : around.directory.read (.ofString path) = .ok (Text.encodeUtf8 text)) :
    Reads r around (some text)
  | unset (hwords : r.stopWords = none) (hfile : r.stopWordsFile = none)
    (hsetting : around.setting.getD "" = "") : Reads r around none

/-- The word is given, or stands in the text. -/
def Supplies (r : Request) (content : Option String) (x : String) : Prop :=
  x ∈ r.stopWords.getD [] ∨ ∃ text, content = some text ∧ StopWords.HoldsWord text.toList x

/-- The words given, and those of the text, are what a set of stop words is made of. -/
structure Made (r : Request) (content : Option String) (words : StopWords) : Prop where
  folded : words.Folded
  contains : ∀ w, words.contains w = true ↔ ∃ x, r.Supplies content x ∧ fold w = fold x

theorem made_of_text (r : Request) (text : String) :
    r.Made (some text) ((StopWords.ofText text.toList).words.foldl StopWords.add
      (.ofList (r.stopWords.getD []))) where
  folded := (StopWords.folded_ofList _).foldl StopWords.Folded.add _
  contains w := by
    rw [StopWords.ofText, StopWords.contains_foldl_add, StopWords.contains_ofList]
    simp only [StopWords.mem_wordLines, Supplies, Option.some.injEq]
    constructor
    · rintro (⟨x, hx, hw⟩ | ⟨x, hx, hw⟩)
      · exact ⟨x, .inr ⟨text, rfl, hx⟩, hw⟩
      · exact ⟨x, .inl hx, hw⟩
    · rintro ⟨x, hx | ⟨_, rfl, hx⟩, hw⟩
      · exact .inr ⟨x, hx, hw⟩
      · exact .inl ⟨x, hx, hw⟩

theorem made_of_none (r : Request) : r.Made none (.ofList (r.stopWords.getD [])) where
  folded := StopWords.folded_ofList _
  contains w := by simp [StopWords.contains_ofList, Supplies]

theorem Made.of_perm (h : r.Made content s) (hp : s.words.Perm t.words) : r.Made content t where
  folded := h.folded.of_perm hp
  contains w := by rw [← StopWords.contains_of_perm hp, h.contains]

theorem gather_of_reads (h : r.Reads around content) :
    ∃ words notes, r.gatherStopWords around = .ok (words, notes) ∧ r.Made content words := by
  unfold gatherStopWords
  cases h with
  | @file file text hfile hread =>
    refine ⟨_, [.loaded (StopWords.ofText text.toList).size (Path.ofString file).toString], ?_,
      r.made_of_text text⟩
    rw [hfile]
    cases r.stopWords <;>
      · simp only [StopWords.load_of_read hread]
        rfl
  | words hwords hfile => exact ⟨_, [], by rw [hwords, hfile], r.made_of_none⟩
  | @setting path text hwords hfile hsetting hpath hread =>
    have hmade := r.made_of_text text
    have hload := StopWords.ofSetting_of_read hpath hread
    rw [hwords] at hmade
    rw [hwords, hfile, hsetting]
    exact ⟨_, _, hload, hmade.of_perm (StopWords.folded_ofList _).ofList_perm⟩
  | unset hwords hfile hsetting =>
    have hmade := r.made_of_none
    rw [hwords] at hmade
    rw [hwords, hfile]
    exact ⟨_, _, StopWords.ofSetting_of_empty hsetting _, hmade⟩

end Request

/-- **Stop words from several places.** A request has the words that are given to it, those of the
file that is given to it, and those of the file that the environment names if neither is given, up
to letter case; it makes no difference if a set is made of them once more. Words written down in any
order, one a line, with blanks, line ends, empty lines and comments as one likes, are read as the
set of these words, with which every expression has the same conversion. -/
theorem stop_words_supplied_alike :
    (∀ (r : Request) (around : Surroundings) (content : Option String), r.Reads around content →
      ∃ words notes, r.gatherStopWords around = .ok (words, notes) ∧
        (∀ w, words.contains w = true ↔ ∃ x, r.Supplies content x ∧ fold w = fold x) ∧
        (StopWords.ofList words.words).words.Perm words.words ∧
        ∀ format, Format.ofName r.format = .ok format →
          r.run around = r.convert around format words notes) ∧
    ∀ ws : List String, (∀ x ∈ ws, StopWords.IsWord x ∧ Text.Unbroken x.toList) →
      (∃ text : String, StopWords.Sheet text.toList ws) ∧
      ∀ (written : List String) (text : String) (d : Directory) (path : Path),
        StopWords.Sheet text.toList written → (∀ x, x ∈ written ↔ x ∈ ws) →
        d.read path = .ok (Text.encodeUtf8 text) →
        ∃ loaded note, StopWords.load d path = .ok (loaded, note) ∧
          loaded.words.Perm (StopWords.ofList ws).words ∧
          ∀ query, Conversion.ofQuery loaded query = Conversion.ofQuery (.ofList ws) query := by
  refine ⟨fun r around content hreads => ?_, fun ws hws => ⟨?_, ?_⟩⟩
  · obtain ⟨words, notes, hgather, hmade⟩ := Request.gather_of_reads hreads
    refine ⟨words, notes, hgather, hmade.contains, hmade.folded.ofList_perm,
      fun format hformat => ?_⟩
    rw [Request.run, hformat, hgather]
  · obtain ⟨text, htext⟩ := StopWords.exists_sheet fun x hx => (hws x hx).2
    exact ⟨String.ofList text, by rwa [String.toList_ofList]⟩
  · intro written text d path hsheet hsame hread
    have hwritten : StopWords.wordLines text.toList = written :=
      StopWords.wordLines_of_sheet hsheet fun x hx => (hws x ((hsame x).mp hx)).1
    have hperm : (StopWords.ofText text.toList).words.Perm (StopWords.ofList ws).words := by
      rw [StopWords.ofText, hwritten]
      exact StopWords.ofList_perm hsame
    exact ⟨_, _, StopWords.load_of_read hread, hperm,
      fun query => Conversion.ofQuery_congr (StopWords.contains_of_perm hperm) query⟩

/-- A word in a file, above a comment and next to a word that is given. -/
theorem given_and_written_word_supplied :
    let d : Directory := ⟨[(["s.txt"], .file (Text.encodeUtf8 " The\r\n# no"))]⟩
    let r : Request := { stopWords := some ["Of"], stopWordsFile := some "s.txt" }
    (∃ words notes, r.gatherStopWords { directory := d, setting := some "t.txt" } =
        .ok (words, notes) ∧
      words.contains "THE" = true ∧ words.contains "of" = true ∧ words.contains "no" = false) ∧
    ∃ loaded note, StopWords.load d (.ofString "s.txt") = .ok (loaded, note) ∧
      loaded.words.Perm (StopWords.ofList ["The"]).words := by
  intro d r
  have hread : d.read (.ofString "s.txt") = .ok (Text.encodeUtf8 " The\r\n# no") := by
    have hlocate : d.locate (.ofString "s.txt") = .ok ["s.txt"] := by
      refine Directory.locate_eq_ok.mpr ⟨?_, by decide, by decide⟩
      rw [String.contains_char_eq]
      decide
    rw [Directory.read, hlocate]
    rfl
  have hholds {x : String} : StopWords.HoldsWord " The\r\n# no".toList x ↔ x ∈ ["The"] := by
    rw [← StopWords.mem_wordLines]
    exact iff_of_eq (congrArg (x ∈ ·) (by decide))
  obtain ⟨words, notes, hgather, hwords, -⟩ :=
    stop_words_supplied_alike.1 r { directory := d, setting := some "t.txt" }
      (some " The\r\n# no") (.file rfl hread)
  have hthe : r.Supplies (some " The\r\n# no") "The" :=
    .inr ⟨_, rfl, hholds.mpr (List.mem_singleton.mpr rfl)⟩
  have hof : r.Supplies (some " The\r\n# no") "Of" := .inl (List.mem_singleton.mpr rfl)
  have hsheet : StopWords.Sheet " The\r\n# no".toList ["The"] :=
    @StopWords.Sheet.row " The".toList "# no".toList (some "The") [] (by decide)
      (.word ⟨[' '], [], rfl, List.forall_mem_singleton.mpr (by decide)⟩) .pair
      (.last (by decide) (@StopWords.Row.comment [] (by simp) " no".toList))
  have hstrip : Text.stripChars "The".toList = "The".toList := by decide
  have hword : StopWords.IsWord "The" :=
    ⟨by decide, (Text.stripChars_eq_iff.mp hstrip).2, by decide⟩
  obtain ⟨loaded, note, hload, hperm, -⟩ :=
    (stop_words_supplied_alike.2 ["The"]
      (List.forall_mem_singleton.mpr ⟨hword, by decide⟩)).2 ["The"] " The\r\n# no" d
      (.ofString "s.txt") hsheet (fun x => Iff.rfl) hread
  refine ⟨⟨words, notes, hgather, (hwords _).mpr ⟨_, hthe, by decide⟩,
    (hwords _).mpr ⟨_, hof, by decide⟩, Bool.eq_false_iff.mpr fun hno => ?_⟩,
    loaded, note, hload, hperm⟩
  obtain ⟨x, hx | ⟨_, ⟨⟩, hx⟩, hfold⟩ := (hwords _).mp hno
  · rw [List.mem_singleton.mp hx] at hfold
    exact absurd hfold (by decide)
  · rw [List.mem_singleton.mp (hholds.mp hx)] at hfold
    exact absurd hfold (by decide)

end FullText
