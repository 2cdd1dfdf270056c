import Execlaw.MemoryEffects
/-!
# MemoryLineage — what an assertion stands on

Two walks decide what must disappear.  Forward: an assertion is derived from an event if it has evidence of it or
supersedes one that is.  Backward: the lineage of a retraction is what the retracted assertion supersedes and the
summaries derived from any of it.  New rows leave both walks where they are, unless a new row takes up one of their
ends.
-/
namespace Execlaw

open Table Closure Relation

namespace Lineage

variable {as as' : List MemoryAssertion} {es es' : List MemoryEvidenceRecord} {rs rs' : List AssertionReview}

theorem mem_childEdges {p c : String} :
    (p, c) ∈ childEdges as ↔ ∃ a ∈ as, a.assertionId = c ∧ a.supersedesId = some p := by
  simp only [childEdges, List.mem_filterMap, Option.map_eq_some_iff, Prod.mk.injEq]
  constructor
  · rintro ⟨a, ha, q, hq, rfl, rfl⟩
    exact ⟨a, ha, rfl, hq⟩
  · rintro ⟨a, ha, rfl, hq⟩
    exact ⟨a, ha, p, hq, rfl, rfl⟩

theorem mem_ancestorEdges {p c : String} :
    (c, p) ∈ ancestorEdges as ↔ ∃ a ∈ as, a.assertionId = c ∧ a.supersedesId = some p := by
  simp only [ancestorEdges, List.mem_filterMap, Option.map_eq_some_iff, Prod.mk.injEq]
  constructor
  · rintro ⟨a, ha, q, hq, rfl, rfl⟩
    exact ⟨a, ha, rfl, hq⟩
  · rintro ⟨a, ha, rfl, hq⟩
    exact ⟨a, ha, p, hq, rfl, rfl⟩

theorem mem_summaryEdges {s d : String} : (s, d) ∈ summaryEdges as es ↔
    ∃ derived ∈ es, derived.evidenceKind = .derived ∧ derived.assertionId = d ∧
      (∃ a ∈ as, a.assertionId = d ∧ a.kind = .summary) ∧
      ∃ source ∈ es, source.event = derived.event ∧ source.assertionId = s := by
  simp only [summaryEdges, List.mem_flatMap]
  constructor
  · rintro ⟨derived, hderived, hmem⟩
    split at hmem
    · next hcond =>
      obtain ⟨a, ha, hsummary⟩ := List.any_eq_true.1 hcond.2
      simp only [List.mem_map, List.mem_filter, Prod.mk.injEq, beq_iff_eq] at hmem
      obtain ⟨source, ⟨hsource, hevent⟩, rfl, rfl⟩ := hmem
      simp only [Bool.and_eq_true, beq_iff_eq] at hsummary
      exact ⟨derived, hderived, hcond.1, rfl, ⟨a, ha, hsummary⟩, source, hsource, hevent, rfl⟩
    · cases hmem
  · rintro ⟨derived, hderived, hkind, rfl, ⟨a, ha, hid, hsummary⟩, source, hsource, hevent, rfl⟩
    refine ⟨derived, hderived, ?_⟩
    have hany : as.any (fun d => d.assertionId == derived.assertionId && d.kind == .summary) = true :=
      List.any_eq_true.2 ⟨a, ha, by simp [hid, hsummary]⟩
    rw [if_pos ⟨hkind, hany⟩]
    exact List.mem_map.2 ⟨source, List.mem_filter.2 ⟨hsource, by simp [hevent]⟩, rfl⟩

theorem mem_retractions {x : String} : x ∈ retractions rs ↔ ∃ r ∈ rs, r.decision = .retracted ∧ r.assertionId = x := by
  simp [retractions, List.mem_map, List.mem_filter, and_assoc]

theorem edges_subset (has : as ⊆ as') (hes : es ⊆ es') : edges as es ⊆ edges as' es' := by
  rintro ⟨x, y⟩ h
  rcases List.mem_append.1 h with h | h
  · obtain ⟨a, ha, hlink⟩ := mem_ancestorEdges.1 h
    exact List.mem_append_left _ (mem_ancestorEdges.2 ⟨a, has ha, hlink⟩)
  · obtain ⟨derived, hderived, hkind, hid, ⟨a, ha, hsummary⟩, source, hsource, hevent⟩ := mem_summaryEdges.1 h
    exact List.mem_append_right _ (mem_summaryEdges.2
      ⟨derived, hes hderived, hkind, hid, ⟨a, has ha, hsummary⟩, source, hes hsource, hevent⟩)

theorem retracted_subset (has : as ⊆ as') (hes : es ⊆ es') : retracted as es rs ⊆ retracted as' es' rs := by
  intro x hx
  obtain ⟨r, hr, hpath⟩ := mem_closure.1 hx
  exact mem_closure.2 ⟨r, hr, ReflTransGen.mono (fun _ _ h => edges_subset has hes h) _ _ hpath⟩

theorem retracted_append_review {r : AssertionReview} {x : String} (hx : x ∈ retracted as es (rs ++ [r])) :
    x ∈ retracted as es rs ∨ r.decision = .retracted ∧ x ∈ closure (edges as es) [r.assertionId] := by
  obtain ⟨root, hroot, hpath⟩ := mem_closure.1 hx
  obtain ⟨q, hq, hdecision, rfl⟩ := mem_retractions.1 hroot
  rcases List.mem_append.1 hq with hq | hq
  · exact .inl (mem_closure.2 ⟨_, mem_retractions.2 ⟨q, hq, hdecision, rfl⟩, hpath⟩)
  · obtain rfl := List.mem_singleton.1 hq
    exact .inr ⟨hdecision, mem_closure.2 ⟨_, List.mem_singleton_self _, hpath⟩⟩

end Lineage

namespace MemoryTables

open Lineage

variable {t t' : MemoryTables} {event : String × Int} {a : Option MemoryAssertion} {es : List MemoryEvidenceRecord}

def Supersedes (t : MemoryTables) (x p : String) : Prop :=
  ∃ a ∈ t.assertions.rows, a.assertionId = x ∧ a.supersedesId = some p

def DerivedFrom (t : MemoryTables) (event : String × Int) (x : String) : Prop :=
  ∃ e ∈ t.evidence.rows, e.event = event ∧ ReflTransGen (fun p c => t.Supersedes c p) e.assertionId x

variable {x : String}

theorem mem_affected {db : MemoryDb} : x ∈ MemoryAssertionStore.affected db event ↔ db.DerivedFrom event x := by
  rw [MemoryAssertionStore.affected, mem_orderBy, mem_closure]
  have hedges : ∀ p c, (p, c) ∈ db.childEdges ↔ db.Supersedes c p := fun p c => mem_childEdges
  simp only [hedges, List.mem_map, List.mem_filter, beq_iff_eq]
  constructor
  · rintro ⟨r, ⟨e, ⟨he, hevent⟩, rfl⟩, hpath⟩
    exact ⟨e, he, hevent, hpath⟩
  · rintro ⟨e, he, hevent, hpath⟩
    exact ⟨_, ⟨e, ⟨he, hevent⟩, rfl⟩, hpath⟩

theorem derivedFrom_stores (hlinked : t.Linked) (h : Stores t t' a es) (hes : ∀ e ∈ es, e.event ≠ event)
    (hx : t'.DerivedFrom event x) :
    t.DerivedFrom event x ∨ ∃ n ∈ a, n.assertionId = x ∧ ∃ p, n.supersedesId = some p ∧ t.DerivedFrom event p := by
  obtain ⟨e, he, hevent, hpath⟩ := hx
  have he' : e ∈ t.evidence.rows := (h.evidence_cases he).resolve_right fun hmem => hes e hmem hevent
  induction hpath with
  | refl => exact .inl ⟨e, he', hevent, .refl⟩
  | tail _ hlink ih =>
    obtain ⟨b, hb, rfl, hsupersedes⟩ := hlink
    rw [h.assertions, List.mem_append, Option.mem_toList] at hb
    rcases ih with ⟨e₁, he₁, hevent₁, hpath₁⟩ | ⟨n, hn, rfl, -⟩
    · rcases hb with hb | hb
      · exact .inl ⟨e₁, he₁, hevent₁, hpath₁.tail ⟨b, hb, rfl, hsupersedes⟩⟩
      · exact .inr ⟨b, hb, rfl, _, hsupersedes, e₁, he₁, hevent₁, hpath₁⟩
    · -- nothing supersedes the new row
      obtain ⟨hfresh, hok, -⟩ := h.fresh n hn
      rcases hb with hb | hb
      · have hstored := hlinked.superseded b hb
        rw [hsupersedes, Option.all_some, hfresh] at hstored
        cases hstored
      · obtain rfl := Option.mem_unique hn hb
        exact absurd hsupersedes hok.supersedes

theorem stored_of_retracted (hlinked : t.Linked) (hx : x ∈ t.retractedLineage) : t.stored x = true := by
  obtain ⟨r, hr, hpath⟩ := mem_closure.1 hx
  induction hpath with
  | refl =>
    obtain ⟨q, hq, -, rfl⟩ := mem_retractions.1 hr
    exact (hlinked.reviewed q hq).1
  | tail _ hlink _ =>
    rcases List.mem_append.1 hlink with hlink | hlink
    · obtain ⟨b, hb, -, hsupersedes⟩ := mem_ancestorEdges.1 hlink
      have hstored := hlinked.superseded b hb
      rwa [hsupersedes, Option.all_some] at hstored
    · obtain ⟨derived, hderived, -, rfl, -⟩ := mem_summaryEdges.1 hlink
      exact (hlinked.evidence derived hderived).1

theorem retractedLineage_stores (hlinked : t.Linked) (h : Stores t t' a es)
    (hes : ∀ e ∈ es, e.evidenceKind ≠ .derived ∧ ∀ x ∈ t.evidence.rows, x.event ≠ e.event) :
    t'.retractedLineage ⊆ t.retractedLineage := by
  intro x hx
  obtain ⟨r, hr, hpath⟩ := mem_closure.1 hx
  rw [h.reviews] at hr
  clear hx
  induction hpath with
  | refl => exact mem_closure.2 ⟨r, hr, .refl⟩
  | tail _ hlink ih =>
    have hmem := ih
    obtain ⟨r₁, hr₁, hpath₁⟩ := mem_closure.1 ih
    refine mem_closure.2 ⟨r₁, hr₁, hpath₁.tail ?_⟩
    rcases List.mem_append.1 hlink with hlink | hlink
    · obtain ⟨b, hb, rfl, hsupersedes⟩ := mem_ancestorEdges.1 hlink
      rw [h.assertions, List.mem_append, Option.mem_toList] at hb
      rcases hb with hb | hb
      · exact List.mem_append_left _ (mem_ancestorEdges.2 ⟨b, hb, rfl, hsupersedes⟩)
      · have hstored := stored_of_retracted hlinked hmem
        rw [(h.fresh b hb).1] at hstored
        cases hstored
    · obtain ⟨derived, hderived, hkind, rfl, ⟨b, hb, hid, hsummary⟩, source, hsource, hevent, rfl⟩ :=
        mem_summaryEdges.1 hlink
      have hderived' : derived ∈ t.evidence.rows :=
        (h.evidence_cases hderived).resolve_right fun hmem => (hes derived hmem).1 hkind
      have hsource' : source ∈ t.evidence.rows :=
        (h.evidence_cases hsource).resolve_right fun hmem => (hes source hmem).2 derived hderived' hevent.symm
      have hb' : b ∈ t.assertions.rows := by
        rw [h.assertions, List.mem_append, Option.mem_toList] at hb
        refine hb.resolve_right fun hnew => ?_
        have hstored := (hlinked.evidence derived hderived').1
        rw [← hid, (h.fresh b hnew).1] at hstored
        cases hstored
      exact List.mem_append_right _ (mem_summaryEdges.2
        ⟨derived, hderived', hkind, rfl, ⟨b, hb', hid, hsummary⟩, source, hsource', hevent, rfl⟩)

theorem retractedLineage_subset (h : Stores t t' a es) :
    t'.retractedLineage ⊆ retracted (t.assertions.rows ++ a.toList) (t.evidence.rows ++ es) t.reviews.rows := by
  rw [retractedLineage, h.reviews, h.assertions]
  refine retracted_subset (List.Subset.refl _) fun e he => ?_
  exact List.mem_append.2 (h.evidence_cases he)

theorem superseded_mono (has : t.assertions.rows ⊆ t'.assertions.rows) (hes : t.evidence.rows ⊆ t'.evidence.rows)
    (h : t.superseded x = true) : t'.superseded x = true := by
  obtain ⟨newer, hnewer, hchecks⟩ := List.any_eq_true.1 h
  simp only [Bool.and_eq_true] at hchecks
  obtain ⟨e, he, hid⟩ := List.any_eq_true.1 hchecks.2
  refine List.any_eq_true.2 ⟨newer, has hnewer, ?_⟩
  simp only [Bool.and_eq_true]
  exact ⟨hchecks.1, List.any_eq_true.2 ⟨e, hes he, hid⟩⟩

end MemoryTables

end Execlaw
