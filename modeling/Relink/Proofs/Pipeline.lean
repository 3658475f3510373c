import Relink.Pipeline
import Relink.Proofs.Conversion

/-!
A step of a pipeline over many items. Each item comes to an outcome of its own, whatever the others
are, and what can fail for an item is handed on with it. Only a text that cannot be written ends a
run.
-/

namespace Relink.Pipeline

variable {step : Step} {grammar : Source.Grammar} {item : Item}

/-- What an item comes to: the item that is handed on, and the fault that goes with it. -/
inductive Settles (step : Step) (grammar : Source.Grammar) (item : Item) :
    Item → Option Fault → Prop
  | passed (other : item.extension ∉ step.selected) : Settles step grammar item item none
  | stream (selected : item.extension ∈ step.selected) (stream : item.contents = none) :
      Settles step grammar item item (some (.stream (Path.Parts.ofText item.path).name))
  | failed {contents : Contents} {fault : Conversion.Fault}
      (selected : item.extension ∈ step.selected) (buffered : item.contents = some contents)
      (failure : (step.project.convertBy grammar item.path contents
        (some (.string step.extension.text))).result = .error fault) (ofFile : fault.OfFile) :
      Settles step grammar item item (some (.conversion fault))
  | converted {contents : Contents} {conversion : Conversion}
      (selected : item.extension ∈ step.selected) (buffered : item.contents = some contents)
      (success : (step.project.convertBy grammar item.path contents
        (some (.string step.extension.text))).result = .ok conversion) :
      Settles step grammar item { item with contents := some (.octets conversion.text.utf8) } none

/-- An item that is converted, and one of the texts for its literals has no encoding. -/
structure Halts (step : Step) (grammar : Source.Grammar) (item : Item) : Prop where
  selected : item.extension ∈ step.selected
  unwritable : ∃ contents, item.contents = some contents ∧
    step.project.Unwritable grammar item.path contents step.extension

theorem exists_outcome (wellFormed : grammar.WellFormed)
    (usable : step.project.setting.storage.Usable item.path) (h : ¬Halts step grammar item) :
    ∃ outcome, (step.process grammar item).1 = .ok outcome ∧
      Settles step grammar item (outcome.item item) outcome.fault? := by
  unfold Step.process
  split
  · next hother => exact ⟨.passed, rfl, .passed hother⟩
  next hselected =>
  have selected : item.extension ∈ step.selected := not_not.1 hselected
  split
  · next hstream => exact ⟨.failed _, rfl, .stream selected hstream⟩
  next contents hbuffered =>
  have writable : ¬step.project.Unwritable grammar item.path contents step.extension :=
    fun unwritable => h ⟨selected, contents, hbuffered, unwritable⟩
  have hconvert := step.project.convertBy_text grammar item.path contents step.extension
  dsimp only
  split
  · next conversion success =>
    rw [← hconvert] at success
    exact ⟨.converted conversion.text, rfl, .converted selected hbuffered success⟩
  · next fault failure =>
    have ofFile := Project.ofFile_of_convertTo wellFormed usable writable failure
    obtain ⟨message, hmessage⟩ := ofFile.exists_message
    rw [← hconvert] at failure
    rw [hmessage]
    exact ⟨.failed (.conversion fault), rfl, .failed selected hbuffered failure ofFile⟩

theorem Halts.process (wellFormed : grammar.WellFormed) (h : Halts step grammar item) :
    ∃ unencodable, (step.process grammar item).1 = .error (.edit (.unencodable unencodable)) := by
  obtain ⟨selected, contents, hbuffered, unwritable⟩ := h
  obtain ⟨unencodable, hresult⟩ := Project.convertTo_of_unwritable wellFormed unwritable
  refine ⟨unencodable, ?_⟩
  rw [Step.process, if_neg (not_not.2 selected), hbuffered]
  simp only [hresult]
  rfl

theorem runBy_append {outcome : Item → Outcome} {front : List Item} (rest : List Item)
    (h : ∀ item ∈ front, (step.process grammar item).1 = .ok (outcome item)) :
    (step.runBy grammar (front ++ rest)).results =
        (front.map fun item => (item, outcome item)) ++ (step.runBy grammar rest).results ∧
      (step.runBy grammar (front ++ rest)).fault = (step.runBy grammar rest).fault := by
  induction front with
  | nil => exact ⟨rfl, rfl⟩
  | cons item front ih =>
    obtain ⟨hitem, hfront⟩ := List.forall_mem_cons.1 h
    obtain ⟨hresults, hfault⟩ := ih hfront
    generalize hprocess : step.process grammar item = processed at hitem
    obtain ⟨result, log⟩ := processed
    subst hitem
    simp only [List.cons_append, Step.runBy, hprocess, hresults, hfault, List.map_cons, and_self]

theorem runBy_of_error {fault : Conversion.Fault} (rest : List Item)
    (h : (step.process grammar item).1 = .error fault) :
    (step.runBy grammar (item :: rest)).results = [] ∧
      (step.runBy grammar (item :: rest)).fault = some fault := by
  generalize hprocess : step.process grammar item = processed at h
  obtain ⟨result, log⟩ := processed
  subst h
  simp only [Step.runBy, hprocess, and_self]

def Step.outcome (step : Step) (grammar : Source.Grammar) (item : Item) : Outcome :=
  (step.process grammar item).1.toOption.getD .passed

theorem process_eq_outcome (wellFormed : grammar.WellFormed)
    (usable : step.project.setting.storage.Usable item.path) (h : ¬Halts step grammar item) :
    (step.process grammar item).1 = .ok (step.outcome grammar item) ∧
      Settles step grammar item ((step.outcome grammar item).item item)
        (step.outcome grammar item).fault? := by
  obtain ⟨outcome, houtcome, settles⟩ := exists_outcome wellFormed usable h
  rw [Step.outcome, houtcome]
  exact ⟨rfl, settles⟩

/-- Each item of a run comes to one outcome, in order, that is the same in every run. An item that
is not selected is handed on as it is, as is a stream or a file that cannot be converted, with the
fault; any other is handed on with the octets of its conversion. Only an item with a text that
cannot be written has no outcome: the first of these ends the run. -/
theorem run_settles (wellFormed : grammar.WellFormed) (step : Step) :
    ∃ outcome : Item → Outcome,
      (∀ item, step.project.setting.storage.Usable item.path → ¬Halts step grammar item →
        Settles step grammar item ((outcome item).item item) (outcome item).fault?) ∧
      ∀ items, (∀ item ∈ items, step.project.setting.storage.Usable item.path) →
        ((∀ item ∈ items, ¬Halts step grammar item) →
          (step.runBy grammar items).results = items.map (fun item => (item, outcome item)) ∧
          (step.runBy grammar items).fault = none) ∧
        ∀ front item rest, items = front ++ item :: rest →
          (∀ earlier ∈ front, ¬Halts step grammar earlier) → Halts step grammar item →
          (step.runBy grammar items).results = front.map (fun item => (item, outcome item)) ∧
          ∃ unencodable,
            (step.runBy grammar items).fault = some (.edit (.unencodable unencodable)) := by
  refine ⟨step.outcome grammar, ?_, ?_⟩
  · intro item usable h
    exact (process_eq_outcome wellFormed usable h).2
  · intro items usable
    refine ⟨?_, ?_⟩
    · intro h
      have hrun := runBy_append [] fun item hitem =>
        (process_eq_outcome wellFormed (usable item hitem) (h item hitem)).1
      rwa [List.append_nil, Step.runBy, List.append_nil] at hrun
    · rintro front item rest rfl hfront hitem
      obtain ⟨unencodable, hstop⟩ := hitem.process wellFormed
      obtain ⟨hempty, hfault⟩ := runBy_of_error rest hstop
      have hrun := runBy_append (item :: rest) fun earlier hearlier =>
        (process_eq_outcome wellFormed (usable earlier (List.mem_append_left _ hearlier))
          (hfront earlier hearlier)).1
      rw [hempty, List.append_nil, hfault] at hrun
      exact ⟨hrun.1, unencodable, hrun.2⟩

def importStep : Step := ⟨Project.importProject Project.importChars, .mjs, defaultSelected⟩

def importItems : List Item :=
  [.of "/p/a.ts" (some .stored) [], .of "/p/b.ts" none [], .of "/p/c.ts" (some (.octets [0xff])) [],
    .of "/p/notes.md" (some .stored) []]

theorem run_settles_import : (Project.importGrammar Project.importWords).WellFormed ∧
    (∀ item ∈ importItems, importStep.project.setting.storage.Usable item.path) ∧
    (∀ item ∈ importItems, ¬Halts importStep (Project.importGrammar Project.importWords) item) ∧
    ∃ outcome : Item → Outcome,
      (importStep.runBy (Project.importGrammar Project.importWords) importItems).results =
        importItems.map (fun item => (item, outcome item)) ∧
      ∀ item ∈ importItems, Settles importStep (Project.importGrammar Project.importWords) item
        ((outcome item).item item) (outcome item).fault? := by
  have wellFormed : (Project.importGrammar Project.importWords).WellFormed :=
    Project.importGrammar_wellFormed (by decide)
  have usable : ∀ item ∈ importItems, importStep.project.setting.storage.Usable item.path := by
    intro item hitem
    apply Disk.storage_usable_iff.2
    revert item
    decide
  have processed : ∀ item ∈ importItems,
      (importStep.process (Project.importGrammar Project.importWords) item).1.isOk = true := by
    decide +kernel
  have going : ∀ item ∈ importItems,
      ¬Halts importStep (Project.importGrammar Project.importWords) item := by
    intro item hitem halts
    obtain ⟨unencodable, hstop⟩ := halts.process wellFormed
    have hprocess := processed item hitem
    rw [hstop] at hprocess
    cases hprocess
  obtain ⟨outcome, settles, runs⟩ := run_settles wellFormed importStep
  exact ⟨wellFormed, usable, going, outcome, ((runs importItems usable).1 going).1,
    fun item hitem => settles item (usable item hitem) (going item hitem)⟩

def halvedStep : Step where
  project := { Project.importProject [] with aliases := Source.halvedContext.aliases }
  extension := .js
  selected := defaultSelected

def halvedItems : List Item :=
  [.of "/p/a.ts" (some (.text (Source.aliasedChars.map .char))) [], .of "/p/b.ts" (some .stored) []]

/-- The first item ends the run, and nothing comes of the second, which is converted by itself. -/
theorem runBy_halved :
    (Project.importGrammar Source.aliasedChars).WellFormed ∧
    (∀ item ∈ halvedItems, halvedStep.project.setting.storage.Usable item.path) ∧
    (halvedStep.runBy (Project.importGrammar Source.aliasedChars) halvedItems).results.length = 0 ∧
    (halvedStep.runBy (Project.importGrammar Source.aliasedChars) halvedItems).fault.isSome = true ∧
    (halvedStep.runBy (Project.importGrammar Source.aliasedChars)
      (halvedItems.drop 1)).results.length = 1 := by
  refine ⟨Project.importGrammar_wellFormed (by decide), ?_, ?_, ?_, ?_⟩
  · intro item hitem
    apply Disk.storage_usable_iff.2
    revert item
    decide
  · decide +kernel
  · decide +kernel
  · decide +kernel

end Relink.Pipeline
