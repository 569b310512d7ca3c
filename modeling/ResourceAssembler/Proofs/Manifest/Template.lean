import ResourceAssembler.Manifest
import ResourceAssembler.Proofs.Toml.Spelling
import ResourceAssembler.Proofs.Toml.Standing

/-!
# The manifest of a new project

A template puts the name of a project between quotes, as it is. What is read of the template is what
is meant exactly if every character of the name stands for itself in a basic string.
-/

namespace ResourceAssembler.Manifest

open Toml Toml.Scan

/-- The manifest that a new project of a name is meant to have. -/
def meantFor (name : String) : Manifest where
  project := { name }
  build := {
    input := some "src/main.kdl"
    output := some ("out/" ++ name)
    format := some .classic }

/-- The lines of a template, as plain lines. -/
def templateLines (name : String) : List PlainLine :=
  [.header "project".toList, .pair "name".toList name.toList, .blank,
    .header "build".toList, .pair "input".toList "src/main.kdl".toList,
    .pair "output".toList ("out/" ++ name).toList, .pair "format".toList "classic".toList]

theorem toList_template (name : String) :
    (template name).toList = (templateLines name).flatMap (·.written) := by
  have hopening : "[project]\nname = \"".toList =
      (PlainLine.header "project".toList).written ++ ("name".toList ++ [' ', '=', ' ', '"']) := by
    decide +kernel
  have hmiddle : "\"\n\n[build]\ninput = \"src/main.kdl\"\noutput = \"out/".toList =
      ['"', '\n'] ++ (PlainLine.blank.written ++ ((PlainLine.header "build".toList).written ++
        ((PlainLine.pair "input".toList "src/main.kdl".toList).written ++
          ("output".toList ++ ([' ', '=', ' ', '"'] ++ "out/".toList))))) := by
    decide +kernel
  have hending : "\"\n".toList ++ "format = \"classic\"\n".toList =
      ['"', '\n'] ++ (PlainLine.pair "format".toList "classic".toList).written := by
    decide +kernel
  have htext : template name = "[project]\nname = \"" ++ name ++
      "\"\n\n[build]\ninput = \"src/main.kdl\"\noutput = \"out/" ++ name ++ "\"\n" ++
        "format = \"classic\"\n" := rfl
  have hname : (PlainLine.pair "name".toList name.toList).written =
      "name".toList ++ [' ', '=', ' ', '"'] ++ name.toList ++ ['"', '\n'] := rfl
  have houtput : (PlainLine.pair "output".toList ("out/".toList ++ name.toList)).written =
      "output".toList ++ [' ', '=', ' ', '"'] ++ ("out/".toList ++ name.toList) ++ ['"', '\n'] :=
    rfl
  simp only [htext, String.toList_append, List.append_assoc, hending, hmiddle, hopening,
    templateLines, List.flatMap_cons, List.flatMap_nil, hname, houtput, List.append_nil]

theorem isSound_of_templateLines {name : String} (h : ∀ c ∈ name.toList, standsForItself c = true) :
    ∀ line ∈ templateLines name, line.isSound = true := by
  have hname : name.toList.all standsForItself = true := List.all_eq_true.mpr h
  have houtput : ("out/" ++ name).toList.all standsForItself = true := by
    rw [String.toList_append, List.all_append, hname]
    decide +kernel
  apply List.all_eq_true.mp
  simp only [templateLines, List.all_cons, List.all_nil, PlainLine.isSound, hname, houtput,
    Bool.and_true]
  decide +kernel

theorem parse?_template {name : String} (h : ∀ c ∈ name.toList, standsForItself c = true) :
    parse? (template name) = some (meantFor name) := by
  obtain ⟨read, hread, hparse⟩ :=
    parse?_of_plain (isSound_of_templateLines h) (toList_template name)
  have hlines : ∃ first second third fourth, read = [
      .header { path := [], key := "project", inArray := false },
      .pair { path := [], key := "name", value := .text name first },
      .blank,
      .header { path := [], key := "build", inArray := false },
      .pair { path := [], key := "input", value := .text "src/main.kdl" second },
      .pair { path := [], key := "output", value := .text ("out/" ++ name) third },
      .pair { path := [], key := "format", value := .text "classic" fourth }] := by
    rcases hread with _ | ⟨hproject, _ | ⟨hname, _ | ⟨hblank, _ | ⟨hbuild, _ | ⟨hinput,
      _ | ⟨houtput, _ | ⟨hformat, _ | _⟩⟩⟩⟩⟩⟩⟩
    simp only [PlainLine.Says,
      String.ofList_toList] at hproject hname hblank hbuild hinput houtput hformat
    obtain ⟨first, rfl⟩ := hname
    obtain ⟨second, rfl⟩ := hinput
    obtain ⟨third, rfl⟩ := houtput
    obtain ⟨fourth, rfl⟩ := hformat
    subst hproject hblank hbuild
    exact ⟨first, second, third, fourth, rfl⟩
  obtain ⟨first, second, third, fourth, rfl⟩ := hlines
  unfold parse?
  rw [hparse]
  rfl

/-! ## Names that are read back -/

/-- A project has the name that stands in its table. -/
theorem name_of_stands {entries : Entries} {content : String} {offset : Nat} {manifest : Manifest}
    (hstands : entries.Stands (.text content offset) ["project", "name"])
    (h : ofToml? entries = some manifest) : manifest.project.name = content := by
  obtain ⟨below, htable, htext⟩ : ∃ below : Entries,
      entries.get? "project" = some (.table .header below) ∧
      below.get? "name" = some (.text content offset) := by
    cases hstands with
    | within htable hbelow =>
        cases hbelow with
        | here htext => exact ⟨_, htable, htext⟩
        | within _ hnone => cases hnone
  have hproject : projectOfToml? (.table .header below) =
      (optional? Value.string? (below.get? "description")).bind fun description =>
        some { name := content, description } := by
    simp only [projectOfToml?, Value.fields?, Value.entries?, List.map_cons, List.map_nil, htext,
      Value.string?]
    rfl
  unfold ofToml? at h
  rw [htable] at h
  change ((projectOfToml? (.table .header below)).bind fun project => _) = _ at h
  rw [hproject] at h
  obtain ⟨project, hread, h⟩ := Option.bind_eq_some_iff.mp h
  obtain ⟨description, -, hread⟩ := Option.bind_eq_some_iff.mp hread
  obtain ⟨build, -, h⟩ := Option.bind_eq_some_iff.mp h
  cases hread
  cases h
  rfl

/-- Up to the next header a template says nothing but the name. -/
theorem exists_toList_template (name : String) : ∃ rest, (template name).toList =
    (PlainLine.header "project".toList).written ++ ("name".toList ++ [' ', '=', ' '] ++
      '"' :: (name.toList ++ '"' :: '\n' :: '\n' :: '[' :: rest)) := by
  rw [toList_template]
  refine ⟨"build".toList ++ ([']', '\n'] ++ ((templateLines name).drop 4).flatMap (·.written)), ?_⟩
  simp only [templateLines, List.drop_succ_cons, List.drop_zero, List.flatMap_cons,
    PlainLine.written, List.append_assoc, List.cons_append, List.nil_append]

/-- The name of the project is the string that stands where the template puts the name. -/
theorem exists_string_of_template {name : String} {manifest : Manifest} {rest : List Char}
    (htext : (template name).toList = (PlainLine.header "project".toList).written ++
      ("name".toList ++ [' ', '=', ' '] ++ '"' :: rest))
    (h : parse? (template name) = some manifest) :
    ∃ offset next, string (.before ('"' :: rest) offset) = some (manifest.project.name, next) := by
  obtain ⟨entries, hentries, hmanifest⟩ := Option.bind_eq_some_iff.mp h
  have hmark : (template name).toList.head? ≠ some '\ufeff' := by
    rw [htext]
    simp [PlainLine.written]
  obtain ⟨offset, read, last, hruns, hend, hread⟩ := exists_runs_of_parse? hmark hentries
  rw [htext] at hruns
  obtain ⟨header, _, read, rfl, hline, hruns⟩ := hruns.exists_step hend (by simp)
  have hsound : (PlainLine.header "project".toList).isSound = true := by decide +kernel
  obtain ⟨_, next, hproject, rfl⟩ := reads_line hsound _ offset
  cases hline.symm.trans hproject
  obtain ⟨pair, _, read, rfl, hline, -⟩ := hruns.exists_step hend (by simp)
  obtain ⟨hne, hbare⟩ : "name".toList ≠ [] ∧ ∀ c ∈ "name".toList, isBare c = true :=
    PlainLine.isSound_header_iff.mp (by decide +kernel)
  obtain ⟨start, content, behind, hstring, rfl⟩ := exists_string_of_line hne hbare hline
  have hstates : Draft.States content start "project" "name" {
      name := some { path := [], key := "project", inArray := false }
      entries := [("name", .text content start)] } :=
    .opened rfl (.here rfl)
  obtain rfl : manifest.project.name = content := name_of_stands (hstates.stands hread) hmanifest
  exact ⟨start, behind, hstring⟩

theorem standsForItself_of_parse? {name : String} {manifest : Manifest}
    (h : parse? (template name) = some manifest) (hname : manifest.project.name = name) :
    ∀ c ∈ name.toList, standsForItself c = true := by
  obtain ⟨rest, htext⟩ := exists_toList_template name
  obtain ⟨offset, next, hstring⟩ := exists_string_of_template htext h
  rw [hname, ← String.ofList_toList (s := name), String.toList_ofList] at hstring
  exact standsForItself_of_string hstring

/-- The template of a name is read as it is meant just if every character of the name stands for
itself between quotes. It is not read under the name in another way: of any other name the template
is not read at all, or gives a project that is named differently. -/
theorem template_read_back_iff (name : String) :
    (parse? (template name) = some (meantFor name) ↔ ∀ c ∈ name.toList, standsForItself c = true) ∧
      ((∃ manifest, parse? (template name) = some manifest ∧ manifest.project.name = name) ↔
        parse? (template name) = some (meantFor name)) := by
  refine ⟨⟨fun h => standsForItself_of_parse? h rfl, parse?_template⟩, ?_, ?_⟩
  · rintro ⟨manifest, h, hname⟩
    exact parse?_template (standsForItself_of_parse? h hname)
  · intro h
    exact ⟨meantFor name, h, rfl⟩

/-- A quote in the name ends the text that the name stands in. -/
theorem quote_spoils_template :
    parse? (template "a\"b") = none ∧ parse? (template "a\"b") ≠ some (meantFor "a\"b") := by
  have hnone : parse? (template "a\"b") = none := by decide +kernel
  refine ⟨hnone, ?_⟩
  rw [hnone]
  exact (Option.some_ne_none _).symm

end ResourceAssembler.Manifest
