import Pedigree.Proofs.Descent
import Pedigree.Proofs.Graphs
import Pedigree.Proofs.Groupings

/-! Diagrams of the families that a history reaches, under names made of letters. Main statement:
boxes stand for persons and diamonds for couples, once each, and no edge and no rank names anything
else. -/

namespace Pedigree.FamilyTree

open Dot

def box (t : FamilyTree) (p : PersonId) : String := quoted (t.nameOf p)

def diamond (t : FamilyTree) (a b : PersonId) : String := quoted (t.coupleNode a b)

def marriageEdges (t : FamilyTree) (c : PersonId × PersonId) : List (String × String) :=
  [(t.box c.1, t.diamond c.1 c.2), (t.box c.2, t.diamond c.1 c.2)]

def descentEdges (t : FamilyTree) (p : Person) : List (String × String) :=
  (t.parentNodes p).map fun s => (quoted s, quoted p.name)

/-- The diagrams of a family differ in colors and title. -/
def IsDiagram (t : FamilyTree) (g : Graph) : Prop :=
  ∃ style rootHue coupleHue, g = t.graph style rootHue coupleHue

variable {t : FamilyTree} {g : Graph}

theorem exists_diagram [Color.Reading] (t : FamilyTree) {style : Style} {rootHue coupleHue : Color}
    (hr : style.rootHue = .ok rootHue) (hc : style.coupleHue = .ok coupleHue) :
    ∃ g, t.diagram style = .ok g ∧ t.IsDiagram g := by
  refine ⟨t.graph style rootHue coupleHue, ?_, style, rootHue, coupleHue, rfl⟩
  unfold diagram
  rw [hr, hc]
  rfl

theorem IsDiagram.items (h : t.IsDiagram g) :
    ∃ style rootHue coupleHue, g.items = Diagram.titleItem t style ::
      (t.persons.map (Diagram.personNode t rootHue) ++
        t.couples.flatMap (Diagram.coupleItems t coupleHue) ++
        t.persons.flatMap (Diagram.childEdges t) ++
        t.generationGroups.map (Diagram.generationRank t)) := by
  obtain ⟨style, rootHue, coupleHue, rfl⟩ := h
  exact ⟨style, rootHue, coupleHue, rfl⟩

section
open Diagram

theorem flatMap_nil_right {α β : Type} (xs : List α) : xs.flatMap (fun _ => ([] : List β)) = [] :=
  List.flatMap_eq_nil_iff.mpr fun _ _ => rfl

theorem WellKept.map_box (w : WellKept t) :
    t.persons.map (fun p => quoted p.name) = (List.range t.size).map t.box := by
  rw [← w.registered.map_id, List.map_map]
  apply List.map_congr_left
  intro p hp
  unfold Function.comp box
  rw [nameOf_of_person? (w.registered.mem_persons_iff.mp hp)]

theorem WellKept.boxes_diagram (w : WellKept t) (h : t.IsDiagram g) :
    g.nodesShaped "box" = (List.range t.size).map t.box := by
  obtain ⟨style, rootHue, coupleHue, hitems⟩ := h.items
  unfold Graph.nodesShaped
  rw [hitems, ← w.map_box]
  simp [Item.nodeShaped?, titleItem, personNode, coupleItems, childEdges, generationRank,
    List.filterMap_cons, List.filterMap_flatMap, Function.comp_def]

theorem diamonds_diagram (h : t.IsDiagram g) :
    g.nodesShaped "diamond" = t.couples.map fun c => t.diamond c.1 c.2 := by
  obtain ⟨style, rootHue, coupleHue, hitems⟩ := h.items
  unfold Graph.nodesShaped
  rw [hitems]
  simp [Item.nodeShaped?, titleItem, personNode, coupleItems, childEdges, generationRank, diamond,
    List.filterMap_cons, List.filterMap_flatMap, Function.comp_def, ← List.map_eq_flatMap,
    flatMap_nil_right]

theorem nodeIds_diagram (h : t.IsDiagram g) :
    g.nodeIds = g.nodesShaped "box" ++ g.nodesShaped "diamond" := by
  obtain ⟨style, rootHue, coupleHue, hitems⟩ := h.items
  unfold Graph.nodesShaped Graph.nodeIds
  rw [hitems]
  simp [Item.nodeShaped?, Item.nodeId?, titleItem, personNode, coupleItems, childEdges,
    generationRank, List.filterMap_cons, List.filterMap_flatMap, Function.comp_def,
    ← List.map_eq_flatMap, flatMap_nil_right]

theorem edges_diagram (h : t.IsDiagram g) :
    g.edges = t.couples.flatMap t.marriageEdges ++ t.persons.flatMap t.descentEdges := by
  obtain ⟨style, rootHue, coupleHue, hitems⟩ := h.items
  have hmarriage : t.marriageEdges = fun c => [(t.box c.1, t.diamond c.1 c.2),
    (t.box c.2, t.diamond c.1 c.2)] := rfl
  have hdescent : t.descentEdges = fun p => (t.parentNodes p).map fun s =>
    (quoted s, quoted p.name) := rfl
  unfold Graph.edges
  rw [hitems, hmarriage, hdescent]
  simp [Item.edge?, titleItem, personNode, coupleItems, childEdges, generationRank, diamond, box,
    List.filterMap_cons, List.filterMap_flatMap, Function.comp_def]

theorem ranked_diagram (h : t.IsDiagram g) :
    g.ranked = t.generationGroups.flatMap fun x => x.2.map t.box := by
  obtain ⟨style, rootHue, coupleHue, hitems⟩ := h.items
  have hbox : t.box = fun p => quoted (t.nameOf p) := rfl
  unfold Graph.ranked
  rw [hitems, hbox]
  simp [Item.members, titleItem, personNode, coupleItems, childEdges, generationRank,
    List.flatMap_map, List.flatMap_assoc, Function.comp_def, flatMap_nil_right]

theorem ranks_diagram (h : t.IsDiagram g) :
    g.ranks = t.generationGroups.map fun x => (s!"generation_{x.1}", x.2.map t.box) := by
  obtain ⟨style, rootHue, coupleHue, hitems⟩ := h.items
  have hbox : t.box = fun p => quoted (t.nameOf p) := rfl
  unfold Graph.ranks
  rw [hitems, hbox]
  simp [Item.rank?, titleItem, personNode, coupleItems, childEdges, generationRank,
    List.filterMap_cons, List.filterMap_flatMap, Function.comp_def, flatMap_nil_right]

end

theorem Registered.box_inj (r : Registered t) {p q : PersonId} (hp : p < t.size) (hq : q < t.size)
    (h : t.box p = t.box q) : p = q :=
  r.nameOf_inj hp hq (quoted_injective h)

theorem Registered.nodup_boxes (r : Registered t) : ((List.range t.size).map t.box).Nodup := by
  apply List.Nodup.map_on _ List.nodup_range
  intro p hp q hq h
  exact r.box_inj (List.mem_range.mp hp) (List.mem_range.mp hq) h

section
variable (l : Lettered t)
include l

theorem Lettered.diamond_ne_box {p : PersonId} (hp : p < t.size) (a b : PersonId) :
    t.diamond a b ≠ t.box p := by
  intro h
  exact l.coupleNode_ne_nameOf hp a b (quoted_injective h)

theorem Lettered.diamond_inj (w : WellKept t) {a b x y : PersonId} (h : t.spouseOf a = some b)
    (h' : t.spouseOf x = some y) (e : t.diamond a b = t.diamond x y) :
    a = x ∧ b = y ∨ a = y ∧ b = x := by
  obtain ⟨ha, hb⟩ := w.mirrored.lt_size h
  obtain ⟨hx, hy⟩ := w.mirrored.lt_size h'
  exact l.coupleNode_inj w.registered ha hb hx hy (quoted_injective e)

theorem Lettered.nodup_diamonds (w : WellKept t) :
    (t.couples.map fun c => t.diamond c.1 c.2).Nodup := by
  apply List.Nodup.map_on _ (w.registered.nodup_couples w.mirrored)
  intro c hc d hd h
  obtain ⟨hlt, hs⟩ := (w.registered.mem_couples_iff w.mirrored).mp hc
  obtain ⟨hlt', hs'⟩ := (w.registered.mem_couples_iff w.mirrored).mp hd
  rcases l.diamond_inj w hs hs' h with ⟨h1, h2⟩ | ⟨h1, h2⟩
  · exact Prod.ext h1 h2
  -- Both pairs begin with the smaller number.
  · rw [h1, h2] at hlt
    exact absurd hlt' hlt.asymm

end

theorem diamond_comm (t : FamilyTree) (a b : PersonId) : t.diamond a b = t.diamond b a :=
  congrArg quoted (t.coupleNode_comm a b)

theorem WellKept.mem_diamonds_iff (w : WellKept t) (h : t.IsDiagram g) {m : String} :
    m ∈ g.nodesShaped "diamond" ↔ ∃ a b, t.spouseOf a = some b ∧ m = t.diamond a b := by
  rw [diamonds_diagram h, List.mem_map]
  constructor
  · intro hm
    obtain ⟨c, hc, rfl⟩ := hm
    exact ⟨c.1, c.2, ((w.registered.mem_couples_iff w.mirrored).mp hc).2, rfl⟩
  · intro hm
    obtain ⟨a, b, hab, rfl⟩ := hm
    rcases w.mem_couples_or_swap hab with hc | hc
    · exact ⟨(a, b), hc, rfl⟩
    · exact ⟨(b, a), hc, t.diamond_comm b a⟩

theorem WellKept.mem_marriageEdges_iff (w : WellKept t) {x y : String} :
    (x, y) ∈ t.couples.flatMap t.marriageEdges ↔
      ∃ a b, t.spouseOf a = some b ∧ x = t.box a ∧ y = t.diamond a b := by
  rw [List.mem_flatMap]
  constructor
  · intro h
    obtain ⟨⟨a, b⟩, hc, he⟩ := h
    obtain ⟨-, hab⟩ := (w.registered.mem_couples_iff w.mirrored).mp hc
    simp only [marriageEdges, List.mem_cons, List.not_mem_nil, or_false, Prod.mk.injEq] at he
    rcases he with ⟨rfl, rfl⟩ | ⟨rfl, rfl⟩
    · exact ⟨a, b, hab, rfl, rfl⟩
    · exact ⟨b, a, w.mirrored.symm hab, rfl, t.diamond_comm a b⟩
  · intro h
    obtain ⟨a, b, hab, rfl, rfl⟩ := h
    rcases w.mem_couples_or_swap hab with hc | hc
    · exact ⟨(a, b), hc, by simp [marriageEdges]⟩
    · exact ⟨(b, a), hc, by simp [marriageEdges, t.diamond_comm a b]⟩

theorem WellKept.mem_descentEdges_iff (w : WellKept t) {x y : String} :
    (x, y) ∈ t.persons.flatMap t.descentEdges ↔
      (∃ c a b, t.BornTo c a b ∧ x = t.diamond a b ∧ y = t.box c) ∨
      ∃ c a, (∀ p q, ¬t.BornTo c p q) ∧ a ∈ t.parentsOf c ∧ x = t.box a ∧ y = t.box c := by
  have hedges {c : PersonId} {p : Person} (hp : t.person? c = some p) :
      t.descentEdges p = (t.parentNodes p).map fun s => (quoted s, t.box c) := by
    unfold descentEdges box
    rw [nameOf_of_person? hp]
  rw [List.mem_flatMap]
  constructor
  · intro h
    obtain ⟨p, hp, he⟩ := h
    have hperson : t.person? p.id = some p := w.registered.mem_persons_iff.mp hp
    rw [hedges hperson] at he
    by_cases hborn : ∃ a b, t.BornTo p.id a b
    · obtain ⟨a, b, hab⟩ := hborn
      rw [w.parentNodes_eq_of_bornTo hperson hab] at he
      obtain ⟨rfl, rfl⟩ := Prod.mk.inj (List.mem_singleton.mp he)
      exact Or.inl ⟨p.id, a, b, hab, rfl, rfl⟩
    · simp only [not_exists] at hborn
      rw [parentNodes_eq_of_not_bornTo hperson hborn, List.map_map] at he
      obtain ⟨a, ha, hxy⟩ := List.mem_map.mp he
      obtain ⟨rfl, rfl⟩ := Prod.mk.inj hxy
      exact Or.inr ⟨p.id, a, hborn, ha, rfl, rfl⟩
  · intro h
    rcases h with ⟨c, a, b, hab, rfl, rfl⟩ | ⟨c, a, hborn, ha, rfl, rfl⟩
    · obtain ⟨p, hp⟩ := exists_person? (lt_size_of_mem_parentsOf hab.1)
      refine ⟨p, List.mem_of_getElem? hp, ?_⟩
      rw [hedges hp, w.parentNodes_eq_of_bornTo hp hab]
      exact List.mem_singleton.mpr rfl
    · obtain ⟨p, hp⟩ := exists_person? (lt_size_of_mem_parentsOf ha)
      refine ⟨p, List.mem_of_getElem? hp, ?_⟩
      rw [hedges hp, parentNodes_eq_of_not_bornTo hp hborn, List.map_map]
      exact List.mem_map.mpr ⟨a, ha, rfl⟩

/-- Partners lead to their diamond; children hang from the diamond of their parents, or from each
parent if no two of them are married. -/
theorem WellKept.mem_edges_iff (w : WellKept t) (h : t.IsDiagram g) {x y : String} :
    (x, y) ∈ g.edges ↔
      (∃ a b, t.spouseOf a = some b ∧ x = t.box a ∧ y = t.diamond a b) ∨
      (∃ c a b, t.BornTo c a b ∧ x = t.diamond a b ∧ y = t.box c) ∨
      ∃ c a, (∀ p q, ¬t.BornTo c p q) ∧ a ∈ t.parentsOf c ∧ x = t.box a ∧ y = t.box c := by
  rw [edges_diagram h, List.mem_append, w.mem_marriageEdges_iff, w.mem_descentEdges_iff]

theorem WellKept.mem_boxes_iff (w : WellKept t) (h : t.IsDiagram g) {m : String} :
    m ∈ g.nodesShaped "box" ↔ ∃ p < t.size, m = t.box p := by
  rw [w.boxes_diagram h, List.mem_map]
  constructor
  · intro hm
    obtain ⟨p, hp, rfl⟩ := hm
    exact ⟨p, List.mem_range.mp hp, rfl⟩
  · intro hm
    obtain ⟨p, hp, rfl⟩ := hm
    exact ⟨p, List.mem_range.mpr hp, rfl⟩

theorem Lettered.nodup_nodeIds (l : Lettered t) (w : WellKept t) (h : t.IsDiagram g) :
    g.nodeIds.Nodup := by
  rw [nodeIds_diagram h, List.nodup_append']
  refine ⟨?_, ?_, ?_⟩
  · rw [w.boxes_diagram h]
    exact w.registered.nodup_boxes
  · rw [diamonds_diagram h]
    exact l.nodup_diamonds w
  · intro m hbox hdiamond
    obtain ⟨p, hp, rfl⟩ := (w.mem_boxes_iff h).mp hbox
    obtain ⟨a, b, -, he⟩ := (w.mem_diamonds_iff h).mp hdiamond
    exact l.diamond_ne_box hp a b he.symm

theorem WellKept.edge_ends_mem (w : WellKept t) (h : t.IsDiagram g) {x y : String}
    (he : (x, y) ∈ g.edges) : x ∈ g.nodeIds ∧ y ∈ g.nodeIds := by
  have hbox {p : PersonId} (hp : p < t.size) : t.box p ∈ g.nodeIds := by
    rw [nodeIds_diagram h]
    exact List.mem_append_left _ ((w.mem_boxes_iff h).mpr ⟨p, hp, rfl⟩)
  have hdiamond {a b : PersonId} (hab : t.spouseOf a = some b) : t.diamond a b ∈ g.nodeIds := by
    rw [nodeIds_diagram h]
    exact List.mem_append_right _ ((w.mem_diamonds_iff h).mpr ⟨a, b, hab, rfl⟩)
  rcases (w.mem_edges_iff h).mp he with
    ⟨a, b, hab, rfl, rfl⟩ | ⟨c, a, b, hborn, rfl, rfl⟩ | ⟨c, a, -, ha, rfl, rfl⟩
  · exact ⟨hbox (w.mirrored.lt_size hab).1, hdiamond hab⟩
  · exact ⟨hdiamond hborn.2.2, hbox (lt_size_of_mem_parentsOf hborn.1)⟩
  · exact ⟨hbox (w.parentsDeclared ha), hbox (lt_size_of_mem_parentsOf ha)⟩

theorem WellKept.ranked_mem (w : WellKept t) (h : t.IsDiagram g) {m : String}
    (hm : m ∈ g.ranked) : m ∈ g.nodesShaped "box" := by
  rw [ranked_diagram h] at hm
  obtain ⟨x, hx, hmx⟩ := List.mem_flatMap.mp hm
  obtain ⟨p, hp, rfl⟩ := List.mem_map.mp hmx
  have hgroup : (x.1, p) ∈ Grouping.toList t.generationGroups :=
    List.mem_flatMap.mpr ⟨x, hx, List.mem_map.mpr ⟨p, hp, rfl⟩⟩
  have hentry := (Grouping.toList_ofList_perm _).mem_iff.mp hgroup
  obtain ⟨q, hq, hlabel⟩ := List.mem_filterMap.mp hentry
  obtain ⟨n, -, hnp⟩ := Option.map_eq_some_iff.mp hlabel
  obtain ⟨-, rfl⟩ := Prod.mk.inj hnp
  have hid : q.id ∈ List.range t.size := w.registered.map_id ▸ List.mem_map_of_mem hq
  exact (w.mem_boxes_iff h).mpr ⟨q.id, List.mem_range.mp hid, rfl⟩

/-- The nodes of the diagram of a family are a box for each person and a diamond for each couple.
Their ids are all different, and every end of an edge and every member of a rank is one of them. -/
theorem diagram_nodes_are_persons_and_couples {cs : List Change} (h : Fitting cs)
    (l : Lettered (ofHistory cs)) [Color.Reading] {style : Style} {rootHue coupleHue : Color}
    (hr : style.rootHue = .ok rootHue) (hc : style.coupleHue = .ok coupleHue) :
    ∃ g, (ofHistory cs).diagram style = .ok g ∧ g.nodeIds.Nodup ∧
      g.nodeIds = g.nodesShaped "box" ++ g.nodesShaped "diamond" ∧
      g.nodesShaped "box" =
        (List.range (ofHistory cs).size).map (fun p => quoted ((ofHistory cs).nameOf p)) ∧
      g.nodesShaped "diamond" =
        (ofHistory cs).couples.map (fun c => (ofHistory cs).diamond c.1 c.2) ∧
      (ofHistory cs).couples.Nodup ∧
      (∀ a b, (a, b) ∈ (ofHistory cs).couples ↔ a < b ∧ (ofHistory cs).spouseOf a = some b) ∧
      (∀ e ∈ g.edges, e.1 ∈ g.nodeIds ∧ e.2 ∈ g.nodeIds) ∧
      ∀ m ∈ g.ranked, m ∈ g.nodeIds := by
  have w := wellKept_ofHistory h
  generalize ofHistory cs = t at l w ⊢
  obtain ⟨g, hok, hg⟩ := t.exists_diagram hr hc
  refine ⟨g, hok, l.nodup_nodeIds w hg, nodeIds_diagram hg, w.boxes_diagram hg,
    diamonds_diagram hg, (w.registered.nodup_couples w.mirrored), ?_, ?_, ?_⟩
  · intro a b
    exact w.registered.mem_couples_iff w.mirrored
  · intro e he
    exact w.edge_ends_mem hg he
  · intro m hm
    rw [nodeIds_diagram hg]
    exact List.mem_append_left _ (w.ranked_mem hg hm)

def patchwork : List Change :=
  [.declare "Clara" ⟨1930, 1, 1⟩ none, .declare "Anne" ⟨1900, 1, 1⟩ none,
    .declare "Bruno" ⟨1900, 1, 1⟩ none, .declare "David" ⟨1900, 1, 1⟩ none,
    .declare "Emil" ⟨1925, 1, 1⟩ none, .declare "Fritz" ⟨1928, 1, 1⟩ none,
    .linkChild 2 0, .linkChild 1 0, .linkSpouses 3 1 none, .linkChild 1 4,
    .linkSpouses 2 1 (some ⟨1935, 1, 1⟩), .linkChild 3 5, .assignGenerations 0]

@[reducible]
def twoColors : Color.Reading where
  read text :=
    if text = "red" then .ok ⟨255, 0, 0⟩
    else if text = "pink" then .ok ⟨255, 192, 203⟩
    else .error "unknown color identifier"

theorem nodes_of_patchwork :
    letI := twoColors
    Fitting patchwork ∧ Lettered (ofHistory patchwork) ∧
      (default : Style).rootHue = .ok ⟨255, 0, 0⟩ ∧
      (default : Style).coupleHue = .ok ⟨255, 192, 203⟩ ∧
      ∃ g, (ofHistory patchwork).diagram default = .ok g ∧ g.nodeIds.Nodup ∧
        g.nodeIds.length = 7 ∧ g.nodesShaped "diamond" = [quoted "marriage_Anne_Bruno"] := by
  let := twoColors
  have fit : Fitting patchwork := by decide
  have letters : Lettered (ofHistory patchwork) := by decide
  have hr : (default : Style).rootHue = .ok ⟨255, 0, 0⟩ := by decide
  have hc : (default : Style).coupleHue = .ok ⟨255, 192, 203⟩ := by decide
  obtain ⟨g, hg, hnodup, hids, hboxes, hdiamonds, -⟩ :=
    diagram_nodes_are_persons_and_couples fit letters hr hc
  refine ⟨fit, letters, hr, hc, g, hg, hnodup, ?_, ?_⟩
  · rw [hids, hboxes, hdiamonds]
    decide
  · rw [hdiamonds]
    decide

end Pedigree.FamilyTree
