import Pedigree.Proofs.FamilyDiagrams

/-! The edges of the diagrams of families. Main statement: they are the parents and the marriages of
the tree, once each, and parents who are married to each other lead to their child through their
diamond only. -/

namespace Pedigree.FamilyTree

open Dot

variable {t : FamilyTree} {g : Graph}

theorem nodup_flatMap_of_key {α β γ : Type} {xs : List α} {f : α → List β} (key : α → γ)
    (keyOf : β → γ) (hparts : ∀ x ∈ xs, (f x).Nodup) (hkey : ∀ x ∈ xs, ∀ y ∈ f x, keyOf y = key x)
    (hkeys : (xs.map key).Nodup) : (xs.flatMap f).Nodup := by
  rw [List.nodup_flatMap]
  refine ⟨hparts, (List.pairwise_map.mp hkeys).imp_of_mem ?_⟩
  intro x x' hx hx' hne y hy hy'
  exact hne ((hkey x hx y hy).symm.trans (hkey x' hx' y hy'))

theorem nodup_parentNodes (w : WellKept t) {c : PersonId} {p : Person}
    (hp : t.person? c = some p) : (t.parentNodes p).Nodup := by
  by_cases hborn : ∃ a b, t.BornTo c a b
  · obtain ⟨a, b, hab⟩ := hborn
    rw [w.parentNodes_eq_of_bornTo hp hab]
    exact List.nodup_singleton _
  · simp only [not_exists] at hborn
    rw [parentNodes_eq_of_not_bornTo hp hborn]
    apply (w.nodup_parentsOf c).map_on
    intro a ha b hb hname
    exact w.registered.nameOf_inj (w.parentsDeclared ha) (w.parentsDeclared hb) hname

theorem Lettered.nodup_edges (l : Lettered t) (w : WellKept t) (h : t.IsDiagram g) :
    g.edges.Nodup := by
  have hmarriages : (t.couples.flatMap t.marriageEdges).Nodup := by
    refine nodup_flatMap_of_key _ Prod.snd ?_ ?_ (l.nodup_diamonds w)
    · intro c hc
      obtain ⟨hlt, hs⟩ := (w.registered.mem_couples_iff w.mirrored).mp hc
      obtain ⟨ha, hb⟩ := w.mirrored.lt_size hs
      have hne : t.box c.1 ≠ t.box c.2 := by
        intro e
        exact Nat.ne_of_lt hlt (w.registered.box_inj ha hb e)
      simp [marriageEdges, hne]
    · intro c _ e he
      simp only [marriageEdges, List.mem_cons, List.not_mem_nil, or_false] at he
      rcases he with rfl | rfl <;> rfl
  have hdescents : (t.persons.flatMap t.descentEdges).Nodup := by
    refine nodup_flatMap_of_key (fun p => quoted p.name) Prod.snd ?_ ?_ ?_
    · intro p hp
      have hnodes := nodup_parentNodes w (w.registered.mem_persons_iff.mp hp)
      apply hnodes.map
      intro s s' hs
      exact quoted_injective (Prod.mk.inj hs).1
    · intro p _ e he
      obtain ⟨s, -, rfl⟩ := List.mem_map.mp he
      rfl
    · rw [w.map_box]
      exact w.registered.nodup_boxes
  rw [edges_diagram h, List.nodup_append']
  refine ⟨hmarriages, hdescents, ?_⟩
  -- Edges of the first kind end at a diamond, those of the second at a box.
  intro e he he'
  obtain ⟨x, y⟩ := e
  obtain ⟨a, b, -, -, hy⟩ := w.mem_marriageEdges_iff.mp he
  rcases w.mem_descentEdges_iff.mp he' with ⟨c, p, q, hpq, -, hy'⟩ | ⟨c, p, -, hp, -, hy'⟩
  · exact l.diamond_ne_box (lt_size_of_mem_parentsOf hpq.1) a b (hy.symm.trans hy')
  · exact l.diamond_ne_box (lt_size_of_mem_parentsOf hp) a b (hy.symm.trans hy')

section
variable (l : Lettered t) (w : WellKept t) (h : t.IsDiagram g)
include l w h

theorem Lettered.parent_edge_iff {p c : PersonId} (hp : p < t.size) (hc : c < t.size) :
    (t.box p, t.box c) ∈ g.edges ↔ p ∈ t.parentsOf c ∧ ∀ a b, ¬t.BornTo c a b := by
  rw [w.mem_edges_iff h]
  constructor
  · intro he
    rcases he with ⟨a, b, -, -, hy⟩ | ⟨d, a, b, -, hx, -⟩ | ⟨d, a, hborn, ha, hx, hy⟩
    · exact absurd hy.symm (l.diamond_ne_box hc a b)
    · exact absurd hx.symm (l.diamond_ne_box hp a b)
    · have hpa : p = a := w.registered.box_inj hp (w.parentsDeclared ha) hx
      have hcd : c = d := w.registered.box_inj hc (lt_size_of_mem_parentsOf ha) hy
      subst hpa hcd
      exact ⟨ha, hborn⟩
  · intro he
    exact Or.inr (Or.inr ⟨c, p, he.2, he.1, rfl, rfl⟩)

theorem Lettered.partner_edge_iff {p a b : PersonId} (hp : p < t.size)
    (hab : t.spouseOf a = some b) : (t.box p, t.diamond a b) ∈ g.edges ↔ p = a ∨ p = b := by
  rw [w.mem_edges_iff h]
  constructor
  · intro he
    rcases he with ⟨x, y, hxy, hx, hy⟩ | ⟨d, x, y, -, hx, -⟩ | ⟨d, x, -, hx', -, hy⟩
    · have hpx : p = x := w.registered.box_inj hp (w.mirrored.lt_size hxy).1 hx
      exact (l.diamond_inj w hab hxy hy).imp (fun e => hpx.trans e.1.symm)
        (fun e => hpx.trans e.2.symm)
    · exact absurd hx.symm (l.diamond_ne_box hp x y)
    · exact absurd hy (l.diamond_ne_box (lt_size_of_mem_parentsOf hx') a b)
  · intro he
    rcases he with rfl | rfl
    · exact Or.inl ⟨p, b, hab, rfl, rfl⟩
    · exact Or.inl ⟨p, a, w.mirrored.symm hab, rfl, t.diamond_comm a p⟩

theorem Lettered.offspring_edge_iff {a b c : PersonId} (hab : t.spouseOf a = some b)
    (hc : c < t.size) : (t.diamond a b, t.box c) ∈ g.edges ↔ t.BornTo c a b := by
  rw [w.mem_edges_iff h]
  constructor
  · intro he
    rcases he with ⟨x, y, -, -, hy⟩ | ⟨d, x, y, hborn, hx, hy⟩ | ⟨d, x, -, hx', hx, -⟩
    · exact absurd hy.symm (l.diamond_ne_box hc x y)
    · have hcd : c = d := w.registered.box_inj hc (lt_size_of_mem_parentsOf hborn.1) hy
      subst hcd
      rcases l.diamond_inj w hab hborn.2.2 hx with ⟨rfl, rfl⟩ | ⟨rfl, rfl⟩
      · exact hborn
      · exact hborn.swap w.mirrored
    · exact absurd hx (l.diamond_ne_box (w.parentsDeclared hx') a b)
  · intro he
    exact Or.inr (Or.inl ⟨c, a, b, he, rfl, rfl⟩)

theorem Lettered.mem_parentsOf_iff_edges {p c : PersonId} (hp : p < t.size) (hc : c < t.size) :
    p ∈ t.parentsOf c ↔ (t.box p, t.box c) ∈ g.edges ∨
      ∃ m ∈ g.nodesShaped "diamond", (t.box p, m) ∈ g.edges ∧ (m, t.box c) ∈ g.edges := by
  constructor
  · intro hparent
    by_cases hborn : ∃ a b, t.BornTo c a b
    · obtain ⟨a, b, hab⟩ := hborn
      have hm : t.diamond a b ∈ g.nodesShaped "diamond" :=
        (w.mem_diamonds_iff h).mpr ⟨a, b, hab.2.2, rfl⟩
      refine Or.inr ⟨t.diamond a b, hm, ?_, ?_⟩
      · exact (l.partner_edge_iff w h hp hab.2.2).mpr (w.parent_of_bornTo hab hparent)
      · exact (l.offspring_edge_iff w h hab.2.2 hc).mpr hab
    · simp only [not_exists] at hborn
      exact Or.inl ((l.parent_edge_iff w h hp hc).mpr ⟨hparent, hborn⟩)
  · intro hedges
    rcases hedges with he | ⟨m, hm, hpm, hmc⟩
    · exact ((l.parent_edge_iff w h hp hc).mp he).1
    · obtain ⟨a, b, hab, rfl⟩ := (w.mem_diamonds_iff h).mp hm
      have hborn := (l.offspring_edge_iff w h hab hc).mp hmc
      rcases (l.partner_edge_iff w h hp hab).mp hpm with rfl | rfl
      · exact hborn.1
      · exact hborn.2.1

theorem Lettered.diamond_edge_iff_of_bornTo {a b c : PersonId} (hborn : t.BornTo c a b)
    {m : String} (hm : m ∈ g.nodesShaped "diamond") :
    (m, t.box c) ∈ g.edges ↔ m = t.diamond a b := by
  have hc : c < t.size := lt_size_of_mem_parentsOf hborn.1
  constructor
  · intro he
    obtain ⟨x, y, hxy, rfl⟩ := (w.mem_diamonds_iff h).mp hm
    have hborn' : t.BornTo c x y := (l.offspring_edge_iff w h hxy hc).mp he
    rcases w.bornTo_unique hborn hborn' with ⟨rfl, rfl⟩ | ⟨rfl, rfl⟩
    · rfl
    · exact t.diamond_comm x y
  · intro e
    rw [e]
    exact (l.offspring_edge_iff w h hborn.2.2 hc).mpr hborn

theorem Lettered.married_iff_share_diamond {p q : PersonId} (hp : p < t.size) (hq : q < t.size)
    (hpq : p ≠ q) : t.spouseOf p = some q ↔
      ∃ m ∈ g.nodesShaped "diamond", (t.box p, m) ∈ g.edges ∧ (t.box q, m) ∈ g.edges := by
  constructor
  · intro hs
    have hm : t.diamond p q ∈ g.nodesShaped "diamond" :=
      (w.mem_diamonds_iff h).mpr ⟨p, q, hs, rfl⟩
    refine ⟨t.diamond p q, hm, ?_, ?_⟩
    · exact (l.partner_edge_iff w h hp hs).mpr (Or.inl rfl)
    · exact (l.partner_edge_iff w h hq hs).mpr (Or.inr rfl)
  · intro hshared
    obtain ⟨m, hm, hpm, hqm⟩ := hshared
    obtain ⟨a, b, hab, rfl⟩ := (w.mem_diamonds_iff h).mp hm
    have hqab := (l.partner_edge_iff w h hq hab).mp hqm
    rcases (l.partner_edge_iff w h hp hab).mp hpm with rfl | rfl
    · obtain rfl := hqab.resolve_left (Ne.symm hpq)
      exact hab
    · obtain rfl := hqab.resolve_right (Ne.symm hpq)
      exact w.mirrored.symm hab

end

/-- In the diagram of a family an edge leads from each parent to the child, or from each parent to
the diamond of both and from there to the child: the latter if the two are married to each other,
and only then. Two persons lead to one diamond if they are married. No edge is drawn twice. -/
theorem diagram_edges_show_kinship {cs : List Change} (h : Fitting cs)
    (l : Lettered (ofHistory cs)) [Color.Reading] {style : Style} {rootHue coupleHue : Color}
    (hr : style.rootHue = .ok rootHue) (hc : style.coupleHue = .ok coupleHue) :
    ∃ g, (ofHistory cs).diagram style = .ok g ∧ g.edges.Nodup ∧
      (∀ p < (ofHistory cs).size, ∀ c < (ofHistory cs).size,
        (p ∈ (ofHistory cs).parentsOf c ↔
          ((ofHistory cs).box p, (ofHistory cs).box c) ∈ g.edges ∨
          ∃ m ∈ g.nodesShaped "diamond",
            ((ofHistory cs).box p, m) ∈ g.edges ∧ (m, (ofHistory cs).box c) ∈ g.edges)) ∧
      (∀ c a b, a ∈ (ofHistory cs).parentsOf c → b ∈ (ofHistory cs).parentsOf c →
        (ofHistory cs).spouseOf a = some b →
          (∀ p < (ofHistory cs).size,
            ((ofHistory cs).box p, (ofHistory cs).box c) ∉ g.edges) ∧
          ∀ m ∈ g.nodesShaped "diamond",
            ((m, (ofHistory cs).box c) ∈ g.edges ↔ m = (ofHistory cs).diamond a b)) ∧
      (∀ c < (ofHistory cs).size,
        (∀ a ∈ (ofHistory cs).parentsOf c, ∀ b ∈ (ofHistory cs).parentsOf c,
          (ofHistory cs).spouseOf a ≠ some b) →
        ∀ m ∈ g.nodesShaped "diamond", (m, (ofHistory cs).box c) ∉ g.edges) ∧
      ∀ p < (ofHistory cs).size, ∀ q < (ofHistory cs).size, p ≠ q →
        ((ofHistory cs).spouseOf p = some q ↔
          ∃ m ∈ g.nodesShaped "diamond",
            ((ofHistory cs).box p, m) ∈ g.edges ∧ ((ofHistory cs).box q, m) ∈ g.edges) := by
  have w := wellKept_ofHistory h
  generalize ofHistory cs = t at l w ⊢
  obtain ⟨g, hok, hg⟩ := t.exists_diagram hr hc
  refine ⟨g, hok, l.nodup_edges w hg, ?_, ?_, ?_, ?_⟩
  · intro p hp c hc
    exact l.mem_parentsOf_iff_edges w hg hp hc
  · intro c a b ha hb hab
    have hborn : t.BornTo c a b := ⟨ha, hb, hab⟩
    refine ⟨?_, fun m hm => l.diamond_edge_iff_of_bornTo w hg hborn hm⟩
    intro p hp he
    exact ((l.parent_edge_iff w hg hp (lt_size_of_mem_parentsOf ha)).mp he).2 a b hborn
  · intro c hc hapart m hm he
    obtain ⟨a, b, hab, rfl⟩ := (w.mem_diamonds_iff hg).mp hm
    have hborn : t.BornTo c a b := (l.offspring_edge_iff w hg hab hc).mp he
    exact hapart a hborn.1 b hborn.2.1 hab
  · intro p hp q hq hpq
    exact l.married_iff_share_diamond w hg hp hq hpq

theorem edges_of_patchwork :
    letI := twoColors
    Fitting patchwork ∧ Lettered (ofHistory patchwork) ∧
      (default : Style).rootHue = .ok ⟨255, 0, 0⟩ ∧
      (default : Style).coupleHue = .ok ⟨255, 192, 203⟩ ∧
      (ofHistory patchwork).parentsOf 0 = [2, 1] ∧ (ofHistory patchwork).spouseOf 2 = some 1 ∧
      (ofHistory patchwork).parentsOf 4 = [1, 3] ∧
      ∃ g, (ofHistory patchwork).diagram default = .ok g ∧ g.edges.Nodup ∧
        (quoted "Bruno", quoted "Clara") ∉ g.edges ∧
        (quoted "Anne", quoted "Emil") ∈ g.edges := by
  let := twoColors
  have fit : Fitting patchwork := by decide
  have letters : Lettered (ofHistory patchwork) := by decide
  have hr : (default : Style).rootHue = .ok ⟨255, 0, 0⟩ := by decide
  have hc : (default : Style).coupleHue = .ok ⟨255, 192, 203⟩ := by decide
  obtain ⟨g, hg, hnodup, hparents, hwedded, hapart, -⟩ :=
    diagram_edges_show_kinship fit letters hr hc
  have hfirst := (hwedded 0 2 1 (by decide) (by decide) (by decide)).1 2 (by decide)
  have hmother := (hparents 1 (by decide) 4 (by decide)).mp (by decide)
  have hnone := hapart 4 (by decide) (by decide)
  refine ⟨fit, letters, hr, hc, by decide, by decide, by decide, g, hg, hnodup, hfirst, ?_⟩
  rcases hmother with he | ⟨m, hm, -, he⟩
  · exact he
  · exact absurd he (hnone m hm)

end Pedigree.FamilyTree
