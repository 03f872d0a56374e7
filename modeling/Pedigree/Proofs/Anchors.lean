import Pedigree.Proofs.Observers
import Pedigree.Rendering

/-! Runs under different settings. Settings come in after the reading: they say whom generations are
counted from. Main statement: two runs on one source hear the same and end in the same fault of the
source, if there is one; otherwise each fails exactly if its anchor is not declared, and what both
leave behind differs in generations only, which no timeline and no diagram of statements shows. -/

namespace Pedigree

def Person.withoutGeneration (p : Person) : Person := { p with generation := none }

namespace FamilyTree

def withoutGenerations (t : FamilyTree) : FamilyTree :=
  { t with persons := t.persons.map Person.withoutGeneration }

theorem withoutGenerations_assignGenerationsFrom (t : FamilyTree) (anchor : PersonId) :
    (t.assignGenerationsFrom anchor).withoutGenerations = t.withoutGenerations := by
  have hpersons : (t.assignGenerationsFrom anchor).persons.map Person.withoutGeneration =
      t.persons.map Person.withoutGeneration := by
    apply List.ext_getElem?
    intro i
    have hi := person?_assignGenerationsFrom t anchor i
    unfold person? at hi
    rw [List.getElem?_map, List.getElem?_map, hi, Option.map_map]
    rfl
  unfold withoutGenerations
  rw [hpersons]
  rfl

theorem withoutGenerations_assignGenerations (t : FamilyTree) :
    t.assignGenerations.withoutGenerations = t.withoutGenerations := by
  unfold assignGenerations
  cases t.root with
  | none => rfl
  | some r => exact t.withoutGenerations_assignGenerationsFrom r

theorem nameOf_withoutGenerations (t : FamilyTree) (i : PersonId) :
    t.withoutGenerations.nameOf i = t.nameOf i := by
  unfold nameOf person? withoutGenerations
  rw [List.getElem?_map, Option.map_map]
  rfl

theorem defaultTitle_withoutGenerations (t : FamilyTree) :
    t.withoutGenerations.defaultTitle = t.defaultTitle := by
  have hroot : t.withoutGenerations.root = t.root := rfl
  unfold defaultTitle
  rw [hroot]
  cases t.root with
  | none => rfl
  | some r =>
    dsimp only
    rw [nameOf_withoutGenerations]

theorem ofTree_withoutGenerations (t : FamilyTree) :
    Chronology.ofTree t.withoutGenerations = Chronology.ofTree t := by
  have hevents : t.withoutGenerations.persons.flatMap Person.events =
      t.persons.flatMap Person.events := List.flatMap_map ..
  unfold Chronology.ofTree
  rw [hevents]

theorem eventText_withoutGenerations (t : FamilyTree) :
    Event.text t.withoutGenerations = Event.text t := by
  have hnames : t.withoutGenerations.nameOf = t.nameOf := funext t.nameOf_withoutGenerations
  funext e
  unfold Event.text
  rw [hnames]

theorem timeline_withoutGenerations (t : FamilyTree) (title : String) :
    t.withoutGenerations.timeline title = t.timeline title := by
  unfold timeline
  dsimp only
  rw [ofTree_withoutGenerations, eventText_withoutGenerations]

end FamilyTree

namespace Source

theorem find?_eq_none_iff_of_read {source : String} {t : FamilyTree} (h : read source = .ok t)
    (name : String) :
    t.find? name = none ↔ ∀ d ∈ declarations (statementsOf source), d.name.value ≠ name := by
  rw [(Founded.of_enterAll (enterAll_of_read h)).find?_eq, List.findIdx?_eq_none_iff]
  simp only [decide_eq_false_iff_not, ne_eq]

end Source

namespace Settings

open Source

variable {s s' : Settings} {source : String} {t t' u : FamilyTree}

theorem place_eq_error_iff {failure : Failure} :
    s.place t = .error failure ↔
      ∃ name, s.anchor = some name ∧ t.find? name = none ∧ failure = .anchor name := by
  unfold place
  cases s.anchor with
  | none => simp
  | some name =>
    cases hfind : t.find? name with
    | none => simp [hfind, eq_comm]
    | some anchor => simp [hfind]

theorem withoutGenerations_of_place (h : s.place t = .ok u) :
    u.withoutGenerations = t.withoutGenerations := by
  unfold place at h
  split at h
  · obtain rfl := Except.ok.inj h
    exact t.withoutGenerations_assignGenerations
  · split at h
    · obtain rfl := Except.ok.inj h
      exact t.withoutGenerations_assignGenerationsFrom _
    · cases h

/-- A run is a reading, which knows no settings, and then the placing of what was read. -/
theorem readWith_eq {ω : Type} (observe : Notice → ω → ω) (o : ω) (s : Settings)
    (source : String) :
    s.readWith observe o source =
      (hear observe o (heard source),
        match Source.read source with
        | .ok t => s.place t
        | .error fault => .error (.source fault source)) := by
  have hresult := result_readWith observe o source
  have hobserver := observer_readWith observe o source
  unfold readWith
  rcases hread : Source.readWith observe o source with ⟨o', result⟩
  rw [hread] at hresult hobserver
  obtain rfl : o' = hear observe o (heard source) := hobserver
  obtain rfl : result = Source.read source := hresult
  cases Source.read source <;> rfl

theorem read_eq (s : Settings) (source : String) :
    s.read source =
      match Source.read source with
      | .ok t => s.place t
      | .error fault => .error (.source fault source) := by
  unfold read
  rw [readWith_eq]

theorem readWith_eq_hear {ω : Type} (observe : Notice → ω → ω) (o : ω) (s : Settings)
    (source : String) :
    s.readWith observe o source = (hear observe o (heard source), s.read source) := by
  rw [readWith_eq, read_eq]

theorem read_eq_source_error_iff {fault : Source.Fault} {text : String} :
    s.read source = .error (.source fault text) ↔
      Source.read source = .error fault ∧ source = text := by
  rw [read_eq]
  cases Source.read source with
  | error e => simp
  | ok t => simp [place_eq_error_iff]

theorem read_eq_ok_iff :
    s.read source = .ok u ↔ ∃ t, Source.read source = .ok t ∧ s.place t = .ok u := by
  rw [read_eq]
  cases Source.read source with
  | error e => simp
  | ok t => simp

theorem title_congr (ht : t.withoutGenerations = t'.withoutGenerations)
    (htitle : s.style.title = s'.style.title) : s.title t = s'.title t' := by
  unfold title
  rw [htitle, ← FamilyTree.defaultTitle_withoutGenerations, ht,
    FamilyTree.defaultTitle_withoutGenerations]

theorem timeline_congr (ht : t.withoutGenerations = t'.withoutGenerations)
    (htitle : s.title t = s'.title t') : s.timeline t = s'.timeline t' := by
  unfold timeline
  rw [htitle, ← FamilyTree.timeline_withoutGenerations, ht,
    FamilyTree.timeline_withoutGenerations]

theorem statementGraph_of_read (h : s.read source = .ok t) :
    s.statementGraph source =
      .ok (Diagram.Outline.graph
        (hear Diagram.Outline.hear Diagram.Outline.start (heard source))) := by
  unfold statementGraph
  rw [readWith_eq_hear, h]

theorem statementDiagram_of_graph [Dot.Printing] {g : Dot.Graph}
    (h : s.statementGraph source = .ok g) :
    s.statementDiagram source = .ok (Dot.Printing.print g) := by
  unfold statementDiagram
  rw [h]
  rfl

theorem exists_of_map_eq_ok {ε α β : Type} {x : Except ε α} {f : α → β} {b : β}
    (h : x.map f = .ok b) : ∃ a, x = .ok a ∧ f a = b := by
  cases x with
  | error e => cases h
  | ok a => exact ⟨a, rfl, Except.ok.inj h⟩

/-- The anchor decides on generations and on nothing else. -/
theorem anchor_changes_generations_only (s s' : Settings) (source : String) :
    (∃ notices, ∀ {ω : Type} (observe : Notice → ω → ω) (o : ω),
      s.readWith observe o source = (hear observe o notices, s.read source) ∧
      s'.readWith observe o source = (hear observe o notices, s'.read source)) ∧
    (∀ fault text,
      s.read source = .error (.source fault text) ↔
        s'.read source = .error (.source fault text)) ∧
    ((∀ fault text, s.read source ≠ .error (.source fault text)) →
      ∀ failure, s.read source = .error failure ↔
        ∃ name, s.anchor = some name ∧
          (∀ d ∈ declarations (statementsOf source), d.name.value ≠ name) ∧
          failure = .anchor name) ∧
    ∀ t t', s.read source = .ok t → s'.read source = .ok t' →
      t.withoutGenerations = t'.withoutGenerations ∧
      (s.style.title = s'.style.title → s.title t = s'.title t') ∧
      (s.title t = s'.title t' → s.timeline t = s'.timeline t') ∧
      ∃ graph, s.statementGraph source = .ok graph ∧ s'.statementGraph source = .ok graph ∧
        ∀ [Dot.Printing], s.statementDiagram source = .ok (Dot.Printing.print graph) ∧
          s'.statementDiagram source = .ok (Dot.Printing.print graph) := by
  refine ⟨⟨heard source, ?_⟩, ?_, ?_, ?_⟩
  · intro ω observe o
    exact ⟨s.readWith_eq_hear observe o source, s'.readWith_eq_hear observe o source⟩
  · intro fault text
    rw [read_eq_source_error_iff, read_eq_source_error_iff]
  · intro hno failure
    cases hread : Source.read source with
    | error fault =>
      exact absurd (read_eq_source_error_iff.mpr ⟨hread, rfl⟩) (hno fault source)
    | ok t =>
      have heq : s.read source = s.place t := by rw [read_eq, hread]
      simp only [heq, place_eq_error_iff, find?_eq_none_iff_of_read hread]
  · intro u u' hu hu'
    have hsame : u.withoutGenerations = u'.withoutGenerations := by
      obtain ⟨t, ht, hplace⟩ := read_eq_ok_iff.mp hu
      obtain ⟨t', ht', hplace'⟩ := read_eq_ok_iff.mp hu'
      obtain rfl : t = t' := Except.ok.inj (ht.symm.trans ht')
      rw [withoutGenerations_of_place hplace, withoutGenerations_of_place hplace']
    have hgraph := statementGraph_of_read hu
    have hgraph' := statementGraph_of_read hu'
    refine ⟨hsame, title_congr hsame, timeline_congr hsame, _, hgraph, hgraph', ?_⟩
    intro _
    exact ⟨statementDiagram_of_graph hgraph, statementDiagram_of_graph hgraph'⟩

def fatherAndSon : String := "family_tree\x7bJean(1/1/1900-);Luc(1/1/1935-);Jean->Luc;\x7d"

theorem fatherAndSon_under_anchors :
    (∃ t t', Settings.read {} fatherAndSon = .ok t ∧
      Settings.read { anchor := some "Luc" } fatherAndSon = .ok t' ∧
      t.generationOf 0 = some 0 ∧ t'.generationOf 0 = some 1 ∧
      t.withoutGenerations = t'.withoutGenerations ∧
      Settings.timeline {} t = Settings.timeline { anchor := some "Luc" } t') ∧
    Settings.read { anchor := some "Paul" } fatherAndSon = .error (.anchor "Paul") := by
  have hroot : (Settings.read {} fatherAndSon).map (·.generationOf 0) = .ok (some 0) := by
    decide +kernel
  have hson : (Settings.read { anchor := some "Luc" } fatherAndSon).map (·.generationOf 0) =
      .ok (some 1) := by
    decide +kernel
  have hundeclared : ∀ d ∈ declarations (statementsOf fatherAndSon), d.name.value ≠ "Paul" := by
    decide +kernel
  obtain ⟨t, ht, hroot⟩ := exists_of_map_eq_ok hroot
  obtain ⟨t', ht', hson⟩ := exists_of_map_eq_ok hson
  obtain ⟨-, -, -, hsame⟩ :=
    anchor_changes_generations_only {} { anchor := some "Luc" } fatherAndSon
  obtain ⟨htrees, htitle, htimeline, -⟩ := hsame t t' ht ht'
  obtain ⟨-, hfaults, hanchor, -⟩ :=
    anchor_changes_generations_only { anchor := some "Paul" } {} fatherAndSon
  have hnobody :
      Settings.read { anchor := some "Paul" } fatherAndSon = .error (.anchor "Paul") := by
    refine (hanchor ?_ _).mpr ⟨"Paul", rfl, hundeclared, rfl⟩
    intro fault text hfault
    cases ht.symm.trans ((hfaults fault text).mp hfault)
  exact ⟨⟨t, t', ht, ht', hroot, hson, htrees, htimeline (htitle rfl)⟩, hnobody⟩

end Settings
end Pedigree
