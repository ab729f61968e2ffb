import Mathlib.Data.List.Forall2
import TypedJson.Command.Documents
import TypedJson.Proofs.Codec
import TypedJson.Proofs.Text.Lines
import TypedJson.Proofs.Value.Characters

/-!
# Files with a document a line

A `LineFile` is a file of lines: each is a document or holds nothing but white space, and is ended
by a line feed with or without a carriage return, the last one maybe by nothing. The documents are
found again, with the numbers of their lines, when each of their texts is `Inline`: on one line and
not blank (`lineDocuments_contents`).

Encoded texts are inline, since control characters in them are escaped and they start with a
visible character. So what an encoder has written line by line is loaded and decoded back
(`load_encoded`).
-/

set_option autoImplicit false

namespace TypedJson

/-! ## Lines -/

/-- White space that stays on its line. -/
structure Gap where
  chars : List Char
  blank : chars.all Text.isBlankChar = true
  inline : '\n' ∉ chars

/-- What stands on a line. -/
inductive Line where
  | document (text : String)
  | blank (gap : Gap)

/-- What ends a line. -/
inductive LineEnd where
  | feed
  | returnFeed

namespace Line

/-- The characters of a line. -/
def chars : Line → List Char
  | .document text => text.toList
  | .blank gap => gap.chars

/-- The document on a line. -/
def text? : Line → Option String
  | .document text => some text
  | .blank _ => none

end Line

/-- The characters of a line end. -/
def LineEnd.chars : LineEnd → List Char
  | .feed => ['\n']
  | .returnFeed => ['\r', '\n']

/-- The lines of a file, of which the last one may have no end. -/
structure LineFile where
  ended : List (Line × LineEnd)
  unended : Option Line

namespace LineFile

/-- The text of the file. -/
def contents (file : LineFile) : String :=
  String.ofList (file.ended.flatMap (fun line => line.1.chars ++ line.2.chars) ++
    file.unended.elim [] Line.chars)

/-- All lines, from the first on. -/
def lines (file : LineFile) : List Line :=
  file.ended.map Prod.fst ++ file.unended.toList

/-- The documents of lines, with the numbers of the lines from `n` on. -/
def numbered (n : Nat) (lines : List Line) : List (Nat × String) :=
  (lines.zipIdx n).filterMap fun line => line.1.text?.map fun text => (line.2, text)

/-- The documents of the file with the numbers of their lines. -/
def documents (file : LineFile) : List (Nat × String) :=
  numbered 1 file.lines

end LineFile

/-- A text that is one line of its own, whatever ends it. -/
structure Text.Inline (text : String) : Prop where
  noFeed : '\n' ∉ text.toList
  noReturn : '\r' ∉ text.toList
  visible : isBlank text = false

namespace Text

theorem isBlank_ofList_iff {line : List Char} :
    isBlank (String.ofList line) = true ↔ ∀ c ∈ line, isBlankChar c = true := by
  rw [isBlank, String.toList_ofList, List.all_eq_true]

/-- A line that is ended loses nothing but a carriage return. -/
theorem exists_lines_ended {body : List Char} (h : '\n' ∉ body) (ending : LineEnd)
    (rest : List Char) :
    ∃ line, (∀ c ∈ line, c ∈ body) ∧ ('\r' ∉ body → line = body) ∧
      lines (String.ofList (body ++ (ending.chars ++ rest))) =
        String.ofList line :: lines (String.ofList rest) := by
  cases ending with
  | feed =>
      exact ⟨dropReturn body, fun c => mem_of_mem_dropReturn, dropReturn_of_not_mem,
        lines_append h rest⟩
  | returnFeed =>
      refine ⟨body, fun c hc => hc, fun _ => rfl, ?_⟩
      have hreturn : '\n' ∉ body ++ ['\r'] := by simp [h]
      have hlines := lines_append hreturn rest
      rwa [dropReturn_concat, List.append_assoc] at hlines

/-- A compact text is a line of its own. -/
theorem inline_compact (v : Value) : Inline v.compact where
  noFeed hfeed := absurd (v.plain_compact _ hfeed) (by decide)
  noReturn hreturn := absurd (v.plain_compact _ hreturn) (by decide)
  visible := by
    obtain ⟨c, t, hcompact, hlow, hhigh⟩ := v.exists_visible_compact
    rw [isBlank, hcompact, List.all_cons, Bool.and_eq_false_iff]
    left
    simp only [isBlankChar, blanks, List.any_cons, List.any_nil, Bool.or_eq_false_iff,
      Bool.and_eq_false_iff, decide_eq_false_iff_not, and_true]
    omega

end Text

/-- Each document of the lines is a line of its own. -/
def Line.AllInline (lines : List Line) : Prop :=
  ∀ text, .document text ∈ lines → Text.Inline text

/-- A document on a numbered line of the file at a path. -/
def Document.onLine (path : String) (line : Nat × String) : Document :=
  ⟨path ++ ":" ++ toString line.1, line.2⟩

namespace LineFile

open Inputs

variable {path : String} {n : Nat} {line : Line} {lines : List Line}

theorem numbered_cons :
    numbered n (line :: lines) =
      (line.text?.map fun text => (n, text)).toList ++ numbered (n + 1) lines := by
  rw [numbered, List.zipIdx_cons, List.filterMap_cons]
  cases line <;> rfl

theorem noFeed_of_inline (h : ∀ text, line = .document text → Text.Inline text) :
    '\n' ∉ line.chars := by
  cases line with
  | document text => exact (h text rfl).noFeed
  | blank gap => exact gap.inline

/-- One line: a document is taken as it stands, and white space is passed over. -/
theorem lineDocuments_cons (h : ∀ text, line = .document text → Text.Inline text)
    {shown : List Char} (hsubset : ∀ c ∈ shown, c ∈ line.chars)
    (hwhole : '\r' ∉ line.chars → shown = line.chars) (more : List String) :
    lineDocuments path n (String.ofList shown :: more) =
      (line.text?.map fun text => (n, text)).toList.map (Document.onLine path) ++
        lineDocuments path (n + 1) more := by
  cases line with
  | document text =>
      obtain ⟨-, hreturn, hvisible⟩ := h text rfl
      rw [hwhole hreturn, Line.chars, String.ofList_toList, lineDocuments]
      simp only [hvisible]
      rfl
  | blank gap =>
      have hblank : Text.isBlank (String.ofList shown) = true :=
        Text.isBlank_ofList_iff.2 fun c hc => List.all_eq_true.1 gap.blank c (hsubset c hc)
      simp only [lineDocuments, hblank]
      rfl

/-- The last line, without an end; an empty one is no line at all. -/
theorem lineDocuments_unended (unended : Option Line) (h : Line.AllInline unended.toList) :
    lineDocuments path n (Text.lines (String.ofList (unended.elim [] Line.chars))) =
      (numbered n unended.toList).map (Document.onLine path) := by
  cases unended with
  | none => rfl
  | some line =>
      have hline : ∀ text, line = .document text → Text.Inline text :=
        fun text htext => h text (by simp [htext])
      rw [Option.elim_some, Text.lines_of_not_mem (noFeed_of_inline hline), Option.toList_some,
        numbered_cons, List.map_append]
      split
      next hempty =>
        cases line with
        | document text =>
            have hnil : text.toList = [] := List.isEmpty_iff.1 hempty
            have hvisible := (hline text rfl).visible
            rw [Text.isBlank, hnil] at hvisible
            cases hvisible
        | blank gap => rfl
      next => exact lineDocuments_cons hline (fun c hc => hc) (fun _ => rfl) []

/-- The documents of a file are found on their lines. The induction is on the lines that have an
end, and counts them. -/
theorem lineDocuments_contents (file : LineFile) (h : Line.AllInline file.lines) :
    lineDocuments path n (Text.lines file.contents) =
      (numbered n file.lines).map (Document.onLine path) := by
  obtain ⟨ended, unended⟩ := file
  induction ended generalizing n with
  | nil => exact lineDocuments_unended unended h
  | cons first ended ih =>
      obtain ⟨line, ending⟩ := first
      have hline : ∀ text, line = .document text → Text.Inline text :=
        fun text htext => h text (htext ▸ List.mem_cons_self)
      have hmore := ih (n := n + 1) fun text htext => h text (List.mem_cons_of_mem _ htext)
      obtain ⟨shown, hsubset, hwhole, hlines⟩ :=
        Text.exists_lines_ended (noFeed_of_inline hline) ending
          (LineFile.contents ⟨ended, unended⟩).toList
      have hcontents : LineFile.contents ⟨(line, ending) :: ended, unended⟩ = String.ofList
          (line.chars ++ (ending.chars ++ (LineFile.contents ⟨ended, unended⟩).toList)) := by
        simp [contents]
      rw [hcontents, hlines, String.ofList_toList, lineDocuments_cons hline hsubset hwhole, hmore,
        ← List.map_append, ← numbered_cons]
      rfl

end LineFile

/-! ## Encoded documents -/

namespace Inputs

variable {files : Files} {inputs : Inputs} {path contents : String}

theorem selectAll_none (documents : List Document) : selectAll none documents = .ok documents := by
  induction documents with
  | nil => rfl
  | cons document documents ih =>
      rw [selectAll, ih]
      rfl

/-- Without a pointer, the documents of a single file are those of its lines. -/
theorem load_perLine (hperLine : inputs.perLine = true) (hpointer : inputs.pointer = none)
    (hpath : resolveAll files inputs.patterns = .ok [path])
    (hread : files.read path = .ok contents) :
    inputs.load files = .ok (lineDocuments path 1 (Text.lines contents)) := by
  have hfile : inputs.loadFile files path = .ok (lineDocuments path 1 (Text.lines contents)) := by
    simp only [loadFile, hread, hpointer, hperLine, split, if_true, selectAll_none]
  simp [load, hpath, loadFiles, hfile, bind, Except.bind]

end Inputs

theorem LineFile.exists_mem_numbered {lines : List Line} {text : String}
    (h : .document text ∈ lines) (n : Nat) : ∃ k, (k, text) ∈ numbered n lines := by
  induction lines generalizing n with
  | nil => cases h
  | cons line lines ih =>
      rw [numbered_cons]
      rcases List.mem_cons.1 h with rfl | hmore
      · exact ⟨n, List.mem_append_left _ List.mem_cons_self⟩
      · obtain ⟨k, hk⟩ := ih hmore (n + 1)
        exact ⟨k, List.mem_append_right _ hk⟩

/-- What is encoded line by line is loaded and decoded back. Any line ends and any white space
between the lines leave the documents as they are, in order and with the numbers of their lines. -/
theorem Codec.load_encoded {codec : Codec} {files : Files} {inputs : Inputs} {path : String}
    {vs : List Value} (file : LineFile) (hperLine : inputs.perLine = true)
    (hpointer : inputs.pointer = none)
    (hpath : Inputs.resolveAll files inputs.patterns = .ok [path])
    (hread : files.read path = .ok file.contents)
    (hencoded : List.Forall₂ (fun v line => codec.encode v = .ok line.2) vs file.documents)
    (hreadable : ∀ v ∈ vs, v.Readable) :
    ∃ documents, inputs.load files = .ok documents ∧
      documents = file.documents.map (Document.onLine path) ∧
      List.Forall₂ (fun v document => codec.encode v = .ok document.text ∧
        codec.decode document.text = .ok ⟨v⟩) vs documents := by
  -- Every document of the file is the text of one of the values.
  have hinline : Line.AllInline file.lines := by
    intro text htext
    obtain ⟨n, hn⟩ := LineFile.exists_mem_numbered htext 1
    obtain ⟨v, -, hv⟩ := exists_left_of_forall₂ hencoded hn
    obtain ⟨-, rfl⟩ := Codec.encode_eq_ok_iff.1 hv
    exact Text.inline_compact v
  refine ⟨_, Inputs.load_perLine hperLine hpointer hpath hread,
    file.lineDocuments_contents hinline, ?_⟩
  rw [file.lineDocuments_contents hinline, List.forall₂_map_right_iff]
  refine ((List.forall₂_and_left _ _).2 ⟨hreadable, hencoded⟩).imp fun v line h => ⟨h.2, ?_⟩
  obtain ⟨hcheck, htext⟩ := Codec.encode_eq_ok_iff.1 h.2
  rw [Document.onLine, htext]
  exact Codec.decode_eq_ok_iff.2 ⟨parse_compact h.1, hcheck⟩

/-- Line ends of both kinds, blank lines before and between, a last line without an end, and line
breaks inside of keys and texts. -/
theorem Codec.load_encoded_mixed :
    let codec : Codec := ⟨.struct [] none, .json, {}⟩
    let first : Value := .object [("a\n", .string "\r\n"), ("b", .array [.bool true])]
    let text := "\x7b\"a\\n\":\"\\r\\n\",\"b\":[true]\x7d"
    let file : LineFile :=
      ⟨[(.blank ⟨[], by decide, by decide⟩, .returnFeed), (.document text, .returnFeed),
        (.blank ⟨[' ', '\r'], by decide, by decide⟩, .feed)], some (.document "\x7b\x7d")⟩
    let files := (Files.empty ["work"]).put ["work", "in"] (.text file.contents)
    let inputs : Inputs := ⟨true, none, ["in"]⟩
    file.contents = "\r\n" ++ text ++ "\r\n \r\n\x7b\x7d" ∧
      inputs.load files = .ok [⟨"in:2", text⟩, ⟨"in:4", "\x7b\x7d"⟩] ∧
      codec.encode first = .ok text ∧ codec.decode text = .ok ⟨first⟩ ∧
      codec.encode (.object []) = .ok "\x7b\x7d" ∧
      codec.decode "\x7b\x7d" = .ok ⟨.object []⟩ := by
  intro codec first text file files inputs
  have hfirst : codec.encode first = .ok text := by decide +kernel +zetaReduce
  have hsecond : codec.encode (.object []) = .ok "\x7b\x7d" := by decide +kernel +zetaReduce
  have hreadable : ∀ v ∈ [first, .object []], v.Readable := by
    intro v hv
    rcases List.mem_pair.1 hv with rfl | rfl
    all_goals exact ⟨by decide +kernel +zetaReduce, by decide +kernel +zetaReduce⟩
  have hpath : Inputs.resolveAll files inputs.patterns = .ok ["in"] := by
    decide +kernel +zetaReduce
  have hread : files.read "in" = .ok file.contents := by decide +kernel +zetaReduce
  have hencoded : List.Forall₂ (fun v line => codec.encode v = .ok line.2) [first, .object []]
      file.documents := .cons hfirst (.cons hsecond .nil)
  obtain ⟨documents, hload, hdocuments, hall⟩ :=
    Codec.load_encoded file rfl rfl hpath hread hencoded hreadable
  have hlines : documents = [⟨"in:2", text⟩, ⟨"in:4", "\x7b\x7d"⟩] :=
    hdocuments.trans (by decide +kernel +zetaReduce)
  subst hlines
  obtain ⟨⟨-, hone⟩, hmore⟩ := List.forall₂_cons.1 hall
  obtain ⟨⟨-, htwo⟩, -⟩ := List.forall₂_cons.1 hmore
  exact ⟨by decide +kernel +zetaReduce, hload, hfirst, hone, hsecond, htwo⟩

end TypedJson
