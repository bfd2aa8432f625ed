import FullText.Command.Request
import FullText.Proofs.Exported
import FullText.Proofs.Stored

/-!
# How the command ends

`run_ends`: the command delivers the export of all queries, or ends with an error message and
leaves everything as it was, or stops at a fault that no message covers. Which requests do the last
is said by `Escapes`: stop words that cannot be decoded, a NUL in their path, and an output that
cannot be written.
-/

namespace FullText

/-! ## Conversions in a row -/

namespace Conversion

/-- The conversions of expressions with one set of stop words, and the notes on the way. -/
theorem exists_mapM_ofQueryNoting (words : StopWords) (queries : List String) :
    ∃ done, queries.mapM (fun q => ofQueryNoting words (some q)) = .ok done ∧
      done.map (·.1) = queries.map fun q => outcomeOf words (some q) := by
  have hall : queries.mapM (fun q => (·.1) <$> ofQueryNoting words (some q)) =
      .ok (queries.map fun q => outcomeOf words (some q)) :=
    Except.mapM_eq_ok fun q _ => ofQuery_outcomeOf words (some q)
  rw [Except.mapM_map_eq] at hall
  exact Except.map_eq_ok_iff.mp hall

end Conversion

/-- What expressions are converted to can be exported in every format. -/
theorem Format.exists_render (format : Format) (words : StopWords) (queries : List String) :
    ∃ text, format.render (queries.map fun q => Conversion.outcomeOf words (some q)) =
      .ok text := by
  cases format with
  | text => exact ⟨_, rfl⟩
  | json indent =>
    have hdocument := document_outcomes (queries.map fun q => (words, some q))
    rw [List.map_map] at hdocument
    exact ⟨_, congrArg (Json.render indent <$> ·) hdocument⟩

theorem Format.ofName_eq_error {name : String} {f : Fault} : Format.ofName name = .error f ↔
    name ≠ "text" ∧ name ≠ "json" ∧ f = .unknownFormat name := by
  unfold Format.ofName
  split
  · next h => simp [h]
  · next h => split <;> simp_all [eq_comm]

namespace StopWords

variable {d : Directory} {p : Path} {f : Fault}

theorem load_eq_error : load d p = .error f ↔ d.read p = .error f ∨
    ∃ bytes refusal, d.read p = .ok bytes ∧ Text.decodeUtf8 bytes = .error refusal ∧
      f = .undecodable refusal := by
  unfold load
  cases hread : d.read p with
  | error f' => simp
  | ok bytes =>
    cases hdecode : Text.decodeUtf8 bytes with
    | error refusal => simp [hdecode, eq_comm]
    | ok text => simp [hdecode]

end StopWords

namespace Request

variable {r : Request} {around : Surroundings} {f : Fault} {format : Format}

/-! ## Stop words -/

/-- The file that stop words are read from: the one given, or the one that the environment names
if neither words nor a file are given. -/
def stopWordsPath? (r : Request) (around : Surroundings) : Option Path :=
  match r.stopWords, r.stopWordsFile, around.setting with
  | _, some file, _ => some (.ofString file)
  | none, none, some setting => if setting = "" then none else some (.ofString setting)
  | _, none, _ => none

/-- What is gathered is what the file holds, in one way or another, or no file is read. -/
theorem gatherStopWords_cases (r : Request) (around : Surroundings) :
    r.stopWordsPath? around = none ∧ (∃ words, r.gatherStopWords around = .ok (words, [])) ∨
    ∃ p g, r.stopWordsPath? around = some p ∧
      r.gatherStopWords around = g <$> StopWords.load around.directory p := by
  unfold gatherStopWords stopWordsPath?
  cases r.stopWordsFile with
  | some file =>
    refine .inr ⟨.ofString file,
      fun l => (l.1.words.foldl StopWords.add (.ofList (r.stopWords.getD [])), [l.2]), ?_, ?_⟩
    · cases r.stopWords <;> rfl
    · cases r.stopWords <;> exact (map_eq_pure_bind _ _).symm
  | none =>
    cases r.stopWords with
    | some words => exact .inl ⟨rfl, _, rfl⟩
    | none =>
      cases around.setting with
      | none => exact .inl ⟨rfl, _, rfl⟩
      | some path =>
        by_cases hpath : path = ""
        · subst hpath
          exact .inl ⟨rfl, _, rfl⟩
        · refine .inr ⟨.ofString path, fun l => (l.1, [l.2]), if_neg hpath, ?_⟩
          simp [StopWords.ofSetting]

theorem gatherStopWords_eq_error : r.gatherStopWords around = .error f ↔
    ∃ p, r.stopWordsPath? around = some p ∧ StopWords.load around.directory p = .error f := by
  rcases r.gatherStopWords_cases around with ⟨hp, words, h⟩ | ⟨p, g, hp, h⟩
  · simp [hp, h]
  · rw [h, Except.map_eq_error_iff]
    simp [hp]

/-! ## Ends of the command -/

/-- The text is where it was asked for, printed or in the output file, and nothing else is
changed. -/
def Received (r : Request) (around : Surroundings) (text : String) (o : Outcome) : Prop :=
  match r.output with
  | none => o.stdout = text ++ "\n" ∧ o.directory = around.directory
  | some output =>
    o.stdout = "" ∧ o.directory.read (.ofString output) = .ok (Text.encodeUtf8 text) ∧
      ∀ parts e, around.directory.entry? parts = some e →
        o.directory.entry? parts = some e ∨ around.directory.locate (.ofString output) = .ok parts

/-- The command has exported the conversions of all queries, of which there are some. -/
structure Delivers (r : Request) (around : Surroundings) (o : Outcome) : Prop where
  exit : o.exit = 0
  queries : r.queries around ≠ []
  exported : ∃ format words notes conversions text, Format.ofName r.format = .ok format ∧
    r.gatherStopWords around = .ok (words, notes) ∧
    (r.queries around).mapM (fun q => Conversion.ofQuery words (some q)) = .ok conversions ∧
    format.render conversions = .ok text ∧ r.Received around text o

/-- What the command has a message for. -/
inductive Refusal (r : Request) (around : Surroundings) : String → Prop
  | format (htext : r.format ≠ "text") (hjson : r.format ≠ "json") :
    Refusal r around (Fault.unknownFormat r.format).message
  | stopWords {p : Path} {f : Fault} (hp : r.stopWordsPath? around = some p)
    (hread : around.directory.read p = .error f) (hf : f.isPathFault = true) :
    Refusal r around ("Cannot read stop words: " ++ f.message)
  | queries (h : r.queries around = []) :
    Refusal r around "No query provided. Use positional arg or pipe lines."

/-- The command has ended with an error message, behind what the log shows, and left everything as
it was. -/
structure Refuses (r : Request) (around : Surroundings) (o : Outcome) : Prop where
  exit : o.exit = 1
  stdout : o.stdout = ""
  directory : o.directory = around.directory
  stderr : ∃ notes message, o.stderr = r.log notes ++ "Error: " ++ message ++ "\n" ∧
    r.Refusal around message

/-- The faults that the command has no message for. -/
inductive Escapes (r : Request) (around : Surroundings) : Fault → Prop
  /-- The path of the stop words has a NUL in it. -/
  | nulInPath {format : Format} {p : Path} (hformat : Format.ofName r.format = .ok format)
    (hp : r.stopWordsPath? around = some p) (hnul : p.toString.contains '\x00' = true) :
    Escapes r around .nulInPath
  /-- The file of the stop words is not UTF-8. -/
  | undecodable {format : Format} {p : Path} {bytes : List UInt8} {refusal : Text.Utf8Refusal}
    (hformat : Format.ofName r.format = .ok format) (hp : r.stopWordsPath? around = some p)
    (hread : around.directory.read p = .ok bytes)
    (hdecode : Text.decodeUtf8 bytes = .error refusal) : Escapes r around (.undecodable refusal)
  /-- All is there to be exported, but it cannot be written to where it is asked for. -/
  | unwritable {format : Format} {words : StopWords} {notes : List Note} {output : String}
    {f : Fault} (hformat : Format.ofName r.format = .ok format)
    (hwords : r.gatherStopWords around = .ok (words, notes)) (hqueries : r.queries around ≠ [])
    (houtput : r.output = some output)
    (hwrite : around.directory.Unwritable (.ofString output) f) : Escapes r around f

theorem log_nil (r : Request) : r.log [] = "" := by
  unfold log
  split <;> rfl

theorem refuses_failure {notes : List Note} {message : String} (h : r.Refusal around message) :
    r.Refuses around (failure around (r.log notes) message) :=
  ⟨rfl, rfl, rfl, notes, message, rfl, h⟩

/-- Where there are queries, the command comes to deliver their conversions. -/
theorem convert_of_ne_nil (h : r.queries around ≠ []) (format : Format) (words : StopWords)
    (notes : List Note) : ∃ log, r.convert around format words notes = r.deliver around format log
      ((r.queries around).map fun q => Conversion.outcomeOf words (some q)) := by
  obtain ⟨done, hdone, hconversions⟩ :=
    Conversion.exists_mapM_ofQueryNoting words (r.queries around)
  refine ⟨r.log (notes ++ done.flatMap (·.2)), ?_⟩
  unfold convert
  split
  · next hnil => exact absurd hnil h
  · rw [hdone, ← hconversions]
    rfl

/-- With an output file, delivering comes down to writing it. -/
theorem deliver_of_output {output text : String} {conversions : List Conversion}
    (houtput : r.output = some output) (htext : format.render conversions = .ok text)
    (log : String) : ∃ message, r.deliver around format log conversions =
      (fun d => { exit := 0, stderr := message, directory := d }) <$>
        around.directory.write (.ofString output) (Text.encodeUtf8 text) := by
  refine ⟨log ++ ("Exported " ++ toString conversions.length ++ " queries to " ++
    (Path.ofString output).toString) ++ "\n", ?_⟩
  unfold deliver Format.save
  rw [houtput, htext]
  exact (map_eq_pure_bind _ _).symm

/-- How a run of the command ends. -/
inductive Ends (r : Request) (around : Surroundings) : Except Fault Outcome → Prop
  | delivers {o : Outcome} (h : r.Delivers around o) : Ends r around (.ok o)
  | refuses {o : Outcome} (h : r.Refuses around o) : Ends r around (.ok o)
  | escapes {f : Fault} (h : r.Escapes around f) : Ends r around (.error f)

theorem deliver_ends {words : StopWords} {notes : List Note}
    (hformat : Format.ofName r.format = .ok format)
    (hwords : r.gatherStopWords around = .ok (words, notes)) (hqueries : r.queries around ≠ [])
    (log : String) :
    r.Ends around (r.deliver around format log
      ((r.queries around).map fun q => Conversion.outcomeOf words (some q))) := by
  obtain ⟨text, htext⟩ := format.exists_render words (r.queries around)
  have hconversions : (r.queries around).mapM (fun q => Conversion.ofQuery words (some q)) =
      .ok ((r.queries around).map fun q => Conversion.outcomeOf words (some q)) :=
    Except.mapM_eq_ok fun q _ => Conversion.ofQuery_outcomeOf words (some q)
  have hdelivers {o : Outcome} (hexit : o.exit = 0) (h : r.Received around text o) :
      r.Delivers around o :=
    ⟨hexit, hqueries, format, words, notes, _, text, hformat, hwords, hconversions, htext, h⟩
  cases houtput : r.output with
  | none =>
    unfold deliver
    rw [houtput, htext]
    refine .delivers (hdelivers rfl ?_)
    unfold Received
    rw [houtput]
    exact ⟨rfl, rfl⟩
  | some output =>
    obtain ⟨message, hdeliver⟩ := deliver_of_output houtput htext log
    rw [hdeliver]
    cases hwrite : around.directory.write (.ofString output) (Text.encodeUtf8 text) with
    | error f =>
      have hunwritable := Directory.write_eq_error.mp hwrite
      exact .escapes (.unwritable hformat hwords hqueries houtput hunwritable)
    | ok d =>
      refine .delivers (hdelivers rfl ?_)
      unfold Received
      rw [houtput]
      exact ⟨rfl, Directory.read_of_write hwrite, fun _ _ => Directory.entry?_of_write hwrite⟩

theorem convert_ends {words : StopWords} {notes : List Note}
    (hformat : Format.ofName r.format = .ok format)
    (hwords : r.gatherStopWords around = .ok (words, notes)) :
    r.Ends around (r.convert around format words notes) := by
  by_cases hqueries : r.queries around = []
  · unfold convert
    rw [hqueries]
    exact .refuses (refuses_failure (.queries hqueries))
  · obtain ⟨log, hlog⟩ := convert_of_ne_nil hqueries format words notes
    rw [hlog]
    exact deliver_ends hformat hwords hqueries log

/-- **One of three ends.** A run delivers, refuses, or lets a fault escape. -/
theorem run_ends (r : Request) (around : Surroundings) : r.Ends around (r.run around) := by
  unfold run
  cases hformat : Format.ofName r.format with
  | error f =>
    obtain ⟨htext, hjson, rfl⟩ := Format.ofName_eq_error.mp hformat
    rw [← r.log_nil]
    exact .refuses (refuses_failure (.format htext hjson))
  | ok format =>
    cases hwords : r.gatherStopWords around with
    | ok gathered => exact convert_ends hformat hwords
    | error f =>
      obtain ⟨p, hp, hload⟩ := gatherStopWords_eq_error.mp hwords
      rcases StopWords.load_eq_error.mp hload with hread | ⟨bytes, refusal, hread, hdecode, rfl⟩
      · cases hnul : p.toString.contains '\x00' with
        | true =>
          rw [Directory.read_of_nul hnul] at hread
          obtain rfl := Except.error.inj hread
          exact .escapes (.nulInPath hformat hp hnul)
        | false =>
          have hf := Directory.isPathFault_of_read hnul hread
          show r.Ends around (if f.isPathFault then _ else _)
          rw [if_pos hf, ← r.log_nil]
          exact .refuses (refuses_failure (.stopWords hp hread hf))
      · exact .escapes (.undecodable hformat hp hread hdecode)

/-- Nothing on the way catches a fault that escapes. -/
theorem run_of_escapes (h : r.Escapes around f) : r.run around = .error f := by
  unfold run
  cases h with
  | nulInPath hformat hp hnul =>
    have hread := around.directory.read_of_nul hnul
    rw [hformat, gatherStopWords_eq_error.mpr ⟨_, hp, StopWords.load_eq_error.mpr (.inl hread)⟩]
    rfl
  | undecodable hformat hp hread hdecode =>
    have hload := StopWords.load_eq_error.mpr (.inr ⟨_, _, hread, hdecode, rfl⟩)
    rw [hformat, gatherStopWords_eq_error.mpr ⟨_, hp, hload⟩]
    rfl
  | @unwritable format words notes output f hformat hwords hqueries houtput hwrite =>
    obtain ⟨log, hlog⟩ := convert_of_ne_nil hqueries format words notes
    obtain ⟨text, htext⟩ := format.exists_render words (r.queries around)
    obtain ⟨message, hdeliver⟩ := deliver_of_output houtput htext log
    rw [hformat, hwords]
    show r.convert around format words notes = _
    rw [hlog, hdeliver, Directory.write_eq_error.mpr hwrite]
    rfl

/-- **How the command ends.** Unless a fault escapes, the conversions of all queries are exported to
where they were asked for, or the command exits with an error message, prints nothing and leaves
everything as it was. The faults that escape are those of stop words that cannot be decoded, of a
NUL in their path, and of an output that cannot be written. -/
theorem ends_as_announced (r : Request) (around : Surroundings) :
    ((∃ o, r.run around = .ok o ∧ (r.Delivers around o ∨ r.Refuses around o)) ↔
      ¬∃ f, r.Escapes around f) ∧
    ∀ f, r.run around = .error f ↔ r.Escapes around f := by
  have herror : ∀ f, r.run around = .error f ↔ r.Escapes around f := by
    intro f
    refine ⟨fun h => ?_, run_of_escapes⟩
    have hends := r.run_ends around
    rw [h] at hends
    cases hends
    assumption
  refine ⟨⟨?_, fun hno => ?_⟩, herror⟩
  · rintro ⟨o, ho, -⟩ ⟨f, hf⟩
    rw [run_of_escapes hf] at ho
    exact absurd ho (by simp)
  · have hends := r.run_ends around
    cases hrun : r.run around with
    | error f => exact absurd ⟨f, (herror f).mp hrun⟩ hno
    | ok o =>
      rw [hrun] at hends
      cases hends with
      | delivers h => exact ⟨o, rfl, .inl h⟩
      | refuses h => exact ⟨o, rfl, .inr h⟩

/-- Stop words that are not UTF-8 end the command without a message. -/
theorem undecodable_stop_words_escape :
    ({ query := some "a", stopWordsFile := some "s.txt" } : Request).run
        { directory := ⟨[(["s.txt"], .file [0xff])]⟩ } =
      .error (.undecodable ⟨0, [0xff], .badStart⟩) := by
  have hread : Directory.read ⟨[(["s.txt"], .file [0xff])]⟩ (.ofString "s.txt") = .ok [0xff] := by
    have hlocate : Directory.locate ⟨[(["s.txt"], .file [0xff])]⟩ (.ofString "s.txt") =
        .ok ["s.txt"] := by
      refine Directory.locate_eq_ok.mpr ⟨?_, by decide, by decide⟩
      rw [String.contains_char_eq]
      decide
    rw [Directory.read, hlocate]
    rfl
  exact run_of_escapes (.undecodable rfl rfl hread rfl)

end Request

end FullText
