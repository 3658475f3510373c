import Relink.Conversion
import Relink.Proofs.Source.Nesting
import Relink.Proofs.Storage.Usable
import Relink.Proofs.Text.Canonical

/-!
The conversion of a stored file. A file read from disk is converted with its line ends unified, so
its octets give the same conversion where no carriage return occurs, and then all that changes is
the literals.
-/

namespace Relink

/-- A grammar whose trees have the ranges of their nodes nested, in order and between characters. -/
def Source.Grammar.WellFormed (grammar : Source.Grammar) : Prop :=
  ∀ dialect (text : Chars), (grammar dialect text.utf8).root.WellFormed text.utf8

/-- A fault of the converted file: it could not be read or decoded, or has an import that cannot be
rewritten. -/
inductive Conversion.Fault.OfFile : Conversion.Fault → Prop
  | unreadable {fault : Relink.Fault} (h : fault.kind ≠ .unusableName) : OfFile (.unreadable fault)
  | undecodable (path : Text) (defect : Utf8.Defect) : OfFile (.undecodable path defect)
  | badImport (file : Text) (line column : Nat) (snippet : Text) :
      OfFile (.source (.badImport file line column snippet))

theorem Conversion.Fault.OfFile.exists_message {fault : Conversion.Fault} (h : fault.OfFile) :
    ∃ message, fault.message? = some message := by
  cases h with
  | unreadable h => exact ⟨_, if_neg h⟩
  | undecodable => exact ⟨_, rfl⟩
  | badImport => exact ⟨_, rfl⟩

namespace Conversion.Report

def text? (report : Report) : Option Chars := report.result.toOption.map (·.text)

theorem text?_eq_some_iff {report : Report} {text : Chars} :
    report.text? = some text ↔ ∃ conversion, report.result = .ok conversion ∧
      conversion.text = text := by
  rw [text?]
  cases report.result <;> simp [Except.toOption]

end Conversion.Report

namespace Project

variable {project : Project} {grammar : Source.Grammar} {disk : Disk} {path : Text} {text : Chars}

theorem input_octets (project : Project) (path : Text) (text : Chars) :
    project.input path (.octets text.utf8) = .ok text.utf8 := by
  simp only [input, Utf8.decode_utf8]

theorem input_stored (onDisk : project.setting.storage = disk.storage)
    (file : disk.readBytes path = .ok text.utf8) :
    project.input path .stored = .ok text.unifyLineEnds.utf8 := by
  have hread : project.setting.storage.read path = .ok (text.unifyLineEnds.map .char) := by
    rw [onDisk]
    simp only [Disk.storage, Disk.readText, file, Utf8.decode_utf8]
  simp only [input, hread, inputOfText, Text.utf8?_map_char]
  rfl

theorem convertBy_stored (onDisk : project.setting.storage = disk.storage)
    (file : disk.readBytes path = .ok text.utf8) (extension : Option Json) :
    project.convertBy grammar path .stored extension =
      project.convertBy grammar path (.octets text.unifyLineEnds.utf8) extension := by
  rw [convertBy, convertBy, input_stored onDisk file, input_octets]

theorem convertBy_octets {extension : Option Json} {conversion : Conversion}
    (h : (project.convertBy grammar path (.octets text.utf8) extension).result = .ok conversion) :
    ∃ chosen, (project.convertTree path chosen text.utf8
      (grammar (Dialect.ofPath path) text.utf8).root).result = .ok conversion := by
  simp only [convertBy, input_octets] at h
  cases hextension : project.extensionFor extension with
  | error fault =>
    rw [hextension] at h
    cases h
  | ok chosen =>
    rw [hextension] at h
    exact ⟨chosen, h⟩

/-- The octets of a source and those of its conversion differ in literals that count, and nowhere
else. -/
def ChangesLiterals (source : Bytes) (root : Node) (conversion : Conversion) : Prop :=
  Edit.Replaces 0 source conversion.edits conversion.text.utf8 ∧
  ∀ edit ∈ conversion.edits, ∃ p literal, root.LiteralAt source false p literal ∧
    edit.start = literal.start ∧ edit.stop = literal.stop

theorem convertTree_changesLiterals {extension : Extension} {root : Node} {conversion : Conversion}
    (wellFormed : root.WellFormed text.utf8)
    (h : (project.convertTree path extension text.utf8 root).result = .ok conversion) :
    ChangesLiterals text.utf8 root conversion := by
  have hcases := Source.applyAll_edits_cases project.setting (project.context path extension)
    wellFormed
  obtain ⟨result, hresult, replaces⟩ | ⟨unencodable, -, hresult⟩ := hcases
  · simp only [convertTree, hresult] at h
    split at h
    · cases h
    · cases h
      refine ⟨replaces, ?_⟩
      intro edit hedit
      obtain ⟨entry, hentry, -, rfl⟩ := Source.exists_literal_of_edit _ _ hedit
      obtain ⟨hfront, -, -⟩ := Source.literals_of_spelled (project.context path extension).file
        (Source.spelled_of_wellFormed wellFormed)
      have hsite := hfront.subset (List.mem_map_of_mem hentry)
      obtain ⟨p, literal, hliteral, hstart, hstop⟩ := Node.exists_literalAt_of_literal hsite
      exact ⟨p, literal, hliteral, by simp [hstart], by simp [hstop]⟩
  · simp only [convertTree, hresult] at h
    split at h <;> cases h

/-- A file without carriage returns is converted as its octets are, and if the tree of its octets is
well formed, the text that comes out differs from the file in literals only. -/
theorem convertBy_stored_eq_octets (grammar : Source.Grammar)
    (onDisk : project.setting.storage = disk.storage)
    (file : disk.readBytes path = .ok text.utf8) (unified : '\r' ∉ text) (extension : Option Json) :
    project.convertBy grammar path .stored extension =
      project.convertBy grammar path (.octets text.utf8) extension ∧
    ((grammar (Dialect.ofPath path) text.utf8).root.WellFormed text.utf8 →
      ∀ conversion, (project.convertBy grammar path .stored extension).result = .ok conversion →
        ChangesLiterals text.utf8 (grammar (Dialect.ofPath path) text.utf8).root conversion) := by
  have same : project.convertBy grammar path .stored extension =
      project.convertBy grammar path (.octets text.utf8) extension := by
    rw [convertBy_stored onDisk file, Chars.unifyLineEnds_of_not_mem unified]
  refine ⟨same, ?_⟩
  intro wellFormed conversion hconversion
  rw [same] at hconversion
  obtain ⟨chosen, hchosen⟩ := convertBy_octets hconversion
  exact convertTree_changesLiterals wellFormed hchosen

theorem exists_chars_of_inputOfText {source : Text} {octets : Bytes}
    (h : inputOfText path source = .ok octets) : ∃ chars : Chars, octets = chars.utf8 := by
  rw [inputOfText] at h
  cases hutf8 : source.utf8? with
  | error unencodable =>
    rw [hutf8] at h
    cases h
  | ok found =>
    rw [hutf8] at h
    cases h
    obtain ⟨chars, -, hchars⟩ := Text.utf8?_eq_ok_iff.1 hutf8
    exact ⟨chars, hchars.symm⟩

theorem ofFile_of_inputOfText {source : Text} {fault : Conversion.Fault}
    (h : inputOfText path source = .error fault) : fault.OfFile := by
  rw [inputOfText] at h
  cases hutf8 : source.utf8? with
  | error unencodable =>
    rw [hutf8] at h
    cases h
    exact .undecodable _ _
  | ok octets =>
    rw [hutf8] at h
    cases h

theorem exists_chars_of_input {contents : Contents} {octets : Bytes}
    (h : project.input path contents = .ok octets) : ∃ chars : Chars, octets = chars.utf8 := by
  cases contents with
  | text source => exact exists_chars_of_inputOfText h
  | octets octets =>
    simp only [input] at h
    split at h
    · next chars hdecode =>
      cases h
      exact ⟨chars, Utf8.eq_utf8_of_decode hdecode⟩
    · cases h
  | stored =>
    simp only [input] at h
    split at h
    · exact exists_chars_of_inputOfText h
    · cases h
    · split at h <;> cases h

theorem ofFile_of_input {contents : Contents} {fault : Conversion.Fault}
    (usable : project.setting.storage.Usable path)
    (h : project.input path contents = .error fault) : fault.OfFile := by
  cases contents with
  | text source => exact ofFile_of_inputOfText h
  | octets octets =>
    simp only [input] at h
    split at h
    · cases h
    · cases h
      exact .undecodable _ _
  | stored =>
    simp only [input] at h
    split at h
    · exact ofFile_of_inputOfText h
    · cases h
      exact .undecodable _ _
    · next hread =>
      split at h
      · cases h
        exact .undecodable _ _
      · cases h
        exact .unreadable (usable _ hread)

/-- The literals of a file can be rewritten, but one of the texts for them has no encoding. -/
def Unwritable (project : Project) (grammar : Source.Grammar) (path : Text) (contents : Contents)
    (extension : Extension) : Prop :=
  ∃ octets, project.input path contents = .ok octets ∧
    let done := Source.rewriteTree project.setting (project.context path extension) octets
      (grammar (Dialect.ofPath path) octets).root
    done.fault = none ∧ ∃ edit ∈ done.edits, ¬edit.text.IsEncodable

section Cases

variable {contents : Contents} {extension : Extension} {fault : Conversion.Fault}
  (wellFormed : grammar.WellFormed)
include wellFormed

theorem convertTo_of_unwritable (h : project.Unwritable grammar path contents extension) :
    ∃ unencodable, (project.convertTo grammar path contents extension).result =
      .error (.edit (.unencodable unencodable)) := by
  obtain ⟨octets, hinput, hfault, edit, hedit, hlost⟩ := h
  obtain ⟨text, rfl⟩ := exists_chars_of_input hinput
  have hcases := Source.applyAll_edits_cases project.setting (project.context path extension)
    (wellFormed (Dialect.ofPath path) text)
  simp only [convertTo, hinput, convertInput, convertTree, hfault]
  obtain ⟨result, -, replaces⟩ | ⟨unencodable, -, hstop⟩ := hcases
  · exact absurd (replaces.isEncodable edit hedit) hlost
  · exact ⟨unencodable, by simp only [hstop]⟩

theorem ofFile_of_convertTo (usable : project.setting.storage.Usable path)
    (writable : ¬project.Unwritable grammar path contents extension)
    (h : (project.convertTo grammar path contents extension).result = .error fault) :
    fault.OfFile := by
  rw [convertTo] at h
  cases hinput : project.input path contents with
  | error found =>
    rw [hinput] at h
    cases h
    exact ofFile_of_input usable hinput
  | ok octets =>
    obtain ⟨text, rfl⟩ := exists_chars_of_input hinput
    have hroot := wellFormed (Dialect.ofPath path) text
    simp only [hinput, convertInput, convertTree] at h
    split at h
    · next found hfound =>
      cases h
      rw [Source.rewriteTree, Source.walk_root] at hfound
      obtain ⟨-, -, hnone | ⟨start, stop, line, column, snippet, -, hfault⟩⟩ :=
        Source.literals_of_spelled (project.context path extension).file
          (Source.spelled_of_wellFormed hroot)
      · cases hfound.symm.trans hnone
      · cases hfound.symm.trans hfault
        exact .badImport _ _ _ _
    · next hnone =>
      obtain ⟨result, hresult, -⟩ | ⟨unencodable, hfirst, -⟩ :=
        Source.applyAll_edits_cases project.setting (project.context path extension) hroot
      · rw [hresult] at h
        cases h
      · exact absurd ⟨_, hinput, hnone, hfirst.exists_edit⟩ writable

end Cases

theorem extensionFor_text (project : Project) (extension : Extension) :
    project.extensionFor (some (.string extension.text)) = .ok extension := by
  cases extension <;> rfl

theorem convertBy_text (project : Project) (grammar : Source.Grammar) (path : Text)
    (contents : Contents) (extension : Extension) :
    project.convertBy grammar path contents (some (.string extension.text)) =
      project.convertTo grammar path contents extension := by
  simp only [convertBy, convertTo, extensionFor_text]

theorem convertBy_none (project : Project) (grammar : Source.Grammar) (path : Text)
    (contents : Contents) : project.convertBy grammar path contents none =
      project.convertTo grammar path contents project.extension := rfl

def importWords : Chars := "import a from './b';"

def importChars : Chars := importWords ++ "\n"

def plainTree (size : Nat) : Node := ⟨.other "program", true, none, 0, size, []⟩

def importGrammar (words : Chars) : Source.Grammar := fun _ octets =>
  ⟨if words.isPrefixOf (Utf8.decodeLossy octets) then Source.importTree octets.length
    else plainTree octets.length, false⟩

def importDisk (text : Chars) : Disk where
  nodes := [(["p"], .directory), (["p", "a.ts"], .file text.utf8), (["p", "b.ts"], .file [])]
  here := ["p"]

def importProject (text : Chars) : Project where
  setting := ⟨.posix, (importDisk text).storage, "/p"⟩
  config := ⟨none, none, [], "/p"⟩
  aliases := ⟨[]⟩
  extension := .js

theorem readBytes_importDisk (text : Chars) :
    (importDisk text).readBytes "/p/a.ts" = .ok text.utf8 :=
  rfl

theorem plainTree_wellFormed (text : Chars) :
    (plainTree text.utf8.length).WellFormed text.utf8 := by
  intro node hnode
  rw [Node.preorder_eq] at hnode
  obtain rfl : node = plainTree text.utf8.length := by simpa [plainTree] using hnode
  exact ⟨Nat.zero_le _, Nat.le_refl _, .zero text,
    ⟨text, [], by simp, rfl⟩, by simp [plainTree], .nil⟩

theorem importGrammar_wellFormed {words : Chars}
    (single : ∀ n ≤ 20, (Chars.utf8 (words.take n)).length = n) :
    (importGrammar words).WellFormed := by
  intro dialect text
  simp only [importGrammar, Utf8.decodeLossy_utf8]
  split
  · next hprefix =>
    obtain ⟨rest, rfl⟩ := List.isPrefixOf_iff_prefix.1 hprefix
    exact Source.importTree_wellFormed single rest
  · exact plainTree_wellFormed text

theorem convertBy_stored_eq_octets_import :
    (importProject importChars).setting.storage = (importDisk importChars).storage ∧
    (importDisk importChars).readBytes "/p/a.ts" = .ok importChars.utf8 ∧ '\r' ∉ importChars ∧
    (importProject importChars).convertBy (importGrammar importWords) "/p/a.ts" .stored none =
      (importProject importChars).convertBy (importGrammar importWords) "/p/a.ts"
        (.octets importChars.utf8) none ∧
    ∃ conversion,
      ((importProject importChars).convertBy (importGrammar importWords) "/p/a.ts"
        .stored none).result =
        .ok conversion ∧
      conversion.text = "import a from './b.js';\n" ∧
      ChangesLiterals importChars.utf8
        (importGrammar importWords (Dialect.ofPath "/p/a.ts") importChars.utf8).root
          conversion := by
  have single : ∀ n ≤ 20, (Chars.utf8 (importWords.take n)).length = n := by decide
  have unified : '\r' ∉ importChars := by decide
  have onDisk : (importProject importChars).setting.storage =
      (importDisk importChars).storage := rfl
  obtain ⟨same, changes⟩ := convertBy_stored_eq_octets (importGrammar importWords) onDisk
    (readBytes_importDisk importChars) unified none
  have htext : ((importProject importChars).convertBy (importGrammar importWords) "/p/a.ts"
    .stored none).text? =
    some ("import a from './b.js';\n" : Chars) := by decide +kernel
  obtain ⟨conversion, hconversion, hwritten⟩ := Conversion.Report.text?_eq_some_iff.1 htext
  exact ⟨onDisk, rfl, unified, same, conversion, hconversion, hwritten,
    changes (importGrammar_wellFormed single _ _) conversion hconversion⟩

/-- A carriage return that the octets keep is lost when the file is read from disk, with whatever is
read as the tree of the octets. -/
theorem convertBy_stored_ne_octets_carriageReturn :
    (importDisk "import a from './b';\r\n").readBytes "/p/a.ts" =
      .ok (Chars.utf8 "import a from './b';\r\n") ∧
    ((importProject "import a from './b';\r\n").convertBy (importGrammar importWords) "/p/a.ts"
      .stored none).text? =
      some ("import a from './b.js';\n" : Chars) ∧
    ((importProject "import a from './b';\r\n").convertBy (importGrammar importWords) "/p/a.ts"
      (.octets (Chars.utf8 "import a from './b';\r\n")) none).text? =
        some ("import a from './b.js';\r\n" : Chars) := by
  refine ⟨rfl, ?_, ?_⟩ <;> decide +kernel

end Project

end Relink
