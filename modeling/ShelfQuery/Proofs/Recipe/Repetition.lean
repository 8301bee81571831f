import ShelfQuery.Proofs.Recipe.Totals
import ShelfQuery.Proofs.Sql.Filling

set_option autoImplicit false

namespace ShelfQuery.Recipe

open ShelfQuery.Shelf ShelfQuery.Sql ShelfQuery.Schema ShelfQuery.Data ShelfQuery.Expression

/-- Some of a list of conditions are dropped, each of which reads like one that was kept before it. -/
inductive Thins (text : Sql → String) : (items kept : List Sql) → Prop where
  | nil : Thins text [] []
  | keep {items kept x} : Thins text items kept → Thins text (items ++ [x]) (kept ++ [x])
  | drop {items kept x y} : Thins text items kept → y ∈ kept → text y = text x → Thins text (items ++ [x]) kept

section

variable {setting : Setting} {text : Sql → String} {P : Sql → Prop}

theorem Thins.dropRepeated (hsame : ∀ x y, P x → P y → x.renderConjunct setting = y.renderConjunct setting → text x = text y)
    {items kept rest : List Sql} {seen : List String} (h : Thins text items kept) (hkept : ∀ x ∈ kept, P x)
    (hrest : ∀ x ∈ rest, P x) (hseen : ∀ t ∈ seen, ∃ x ∈ kept, x.renderConjunct setting = t) :
    Thins text (items ++ rest) (kept ++ Recipe.dropRepeated setting seen rest) := by
  induction rest generalizing items kept seen with
  | nil => simpa [Recipe.dropRepeated] using h
  | cons x rest ih =>
    obtain ⟨hx, hrest⟩ := List.forall_mem_cons.mp hrest
    have hitems : items ++ x :: rest = items ++ [x] ++ rest := by simp
    rw [hitems, Recipe.dropRepeated]
    split
    · next hcontains =>
      obtain ⟨y, hy, htext⟩ := hseen _ (List.contains_iff_mem.mp hcontains)
      exact ih (h.drop hy (hsame y x (hkept y hy) hx htext)) hkept hrest hseen
    · have hkeep : kept ++ x :: Recipe.dropRepeated setting (x.renderConjunct setting :: seen) rest =
          kept ++ [x] ++ Recipe.dropRepeated setting (x.renderConjunct setting :: seen) rest := by simp
      rw [hkeep]
      refine ih h.keep (fun y hy => ?_) hrest fun t ht => ?_
      · rcases List.mem_append.mp hy with hy | hy
        · exact hkept y hy
        · exact List.eq_of_mem_singleton hy ▸ hx
      · rcases List.mem_cons.mp ht with rfl | ht
        · exact ⟨x, List.mem_append_right _ (List.mem_singleton_self x), rfl⟩
        · obtain ⟨y, hy, htext⟩ := hseen t ht
          exact ⟨y, List.mem_append_left _ hy, htext⟩

theorem thins_dropRepeated
    (hsame : ∀ x y, P x → P y → x.renderConjunct setting = y.renderConjunct setting → text x = text y) {items : List Sql}
    (h : ∀ x ∈ items, P x) : Thins text items (Recipe.dropRepeated setting [] items) :=
  Thins.nil.dropRepeated hsame (List.forall_mem_nil _) h (List.forall_mem_nil _)

theorem dropRepeated_nodup (setting : Setting) (seen : List String) (items : List Sql) :
    ((Recipe.dropRepeated setting seen items).map (Sql.renderConjunct setting)).Nodup ∧
      ∀ t ∈ (Recipe.dropRepeated setting seen items).map (Sql.renderConjunct setting), t ∉ seen := by
  induction items generalizing seen with
  | nil => exact ⟨List.nodup_nil, List.forall_mem_nil _⟩
  | cons x rest ih =>
    rw [Recipe.dropRepeated]
    split
    · exact ih seen
    · next hnew =>
      obtain ⟨hnodup, hfresh⟩ := ih (x.renderConjunct setting :: seen)
      refine ⟨List.nodup_cons.mpr ⟨fun hmem => hfresh _ hmem (.head _), hnodup⟩, ?_⟩
      refine List.forall_mem_cons.mpr ⟨fun hmem => hnew (List.contains_iff_mem.mpr hmem), fun t ht hmem => ?_⟩
      exact hfresh t ht (.tail _ hmem)

end

theorem query_dialect {r : Recipe} {s : Shelf} {q : Query} (h : r.query s = .ok q) : q.dialect = s.bench.dialect := by
  obtain ⟨dimensions, metrics, conditions, automatic, hbrewed⟩ := brewed_of_query h
  rw [hbrewed.assembled]
  rfl

/-- Every condition that is left out of WHERE or of HAVING would read there, in the statement, like one that was
kept before it. No two that are kept read the same before WHERE is known. -/
theorem query_repetitions {r : Recipe} {s : Shelf} {q : Query} (h : r.query s = .ok q)
    (htable : isIdentifier s.table = true) :
    ∃ conditions automatic, r.filters.mapM (resolveFilter s) = .ok conditions ∧
      r.automatic.mapM (resolveAutomatic s) = .ok automatic ∧
      Thins (Sql.renderConjunct ⟨q.dialect, []⟩) ((conditions.filter (!·.2)).map Prod.fst ++ automatic) q.filters ∧
      Thins (Sql.renderConjunct q.setting) ((conditions.filter (·.2)).map Prod.fst) q.havings ∧
      q.wheres.Nodup ∧ (q.havings.map (Sql.renderConjunct ⟨q.dialect, []⟩)).Nodup := by
  obtain ⟨dimensions, metrics, conditions, automatic, hbrewed⟩ := brewed_of_query h
  have hwheres := hbrewed.filters
  have hhavings := hbrewed.havings
  rw [← query_dialect h] at hwheres hhavings
  refine ⟨conditions, automatic, hbrewed.resolvedConditions, hbrewed.resolvedAutomatic, ?_, ?_, ?_, ?_⟩
  · rw [hwheres]
    exact thins_dropRepeated (P := fun _ => True) (fun _ _ _ _ htext => htext) fun _ _ => trivial
  · rw [hhavings]
    refine thins_dropRepeated (P := fun x => x.WellTyped s.bench.schema .any) (fun x y hx hy htext => ?_) fun x hx => ?_
    · exact renderConjunct_eq_of_plain htable hx hy q.setting htext
    · obtain ⟨condition, hmem, rfl⟩ := List.mem_map.mp hx
      exact forall_of_mapM resolveFilter_wellTyped hbrewed.resolvedConditions condition (List.mem_filter.mp hmem).1
  · rw [Query.wheres, hwheres]
    exact (dropRepeated_nodup _ _ _).1
  · rw [hhavings]
    exact (dropRepeated_nodup _ _ _).1

/-- A condition with a total, written twice, beside a text that looks like the total. -/
theorem query_repetitions_total :
    let schema : Table := ⟨"scores", [⟨"score", .num⟩, ⟨"dept", .str⟩]⟩
    let s : Shelf := ⟨⟨schema, .sqlite, .startOfDay ⟨2024, 1, 1, by decide⟩⟩, [("dept", .field "[dept]")]⟩
    let total := "\x7b\x7bavg([score])\x7d\x7d"
    let r : Recipe := {
      dimensions := ["dept"]
      filters := ["[score] < 90", "sum([score]) > " ++ total, "max([dept]) > '(SELECT avg(scores.score) FROM scores)'",
        "sum( [score] ) > " ++ total] }
    ∃ q conditions, r.query s = .ok q ∧ isIdentifier s.table = true ∧ r.filters.mapM (resolveFilter s) = .ok conditions ∧
      (conditions.filter (·.2)).length = 3 ∧
      Thins (Sql.renderConjunct q.setting) ((conditions.filter (·.2)).map Prod.fst) q.havings ∧
      q.havings.map (Sql.renderConjunct q.setting) =
        ["sum(scores.score) > (SELECT avg(scores.score) FROM scores WHERE scores.score < 90)",
          "max(scores.dept) > '(SELECT avg(scores.score) FROM scores)'"] := by
  intro schema s total r
  have htexts : (r.query s).toOption.map (fun q => q.havings.map (Sql.renderConjunct q.setting)) =
      some ["sum(scores.score) > (SELECT avg(scores.score) FROM scores WHERE scores.score < 90)",
        "max(scores.dept) > '(SELECT avg(scores.score) FROM scores)'"] := by decide +kernel
  have hlength : (r.filters.mapM (resolveFilter s)).toOption.map (fun conditions => (conditions.filter (·.2)).length) =
      some 3 := by decide +kernel
  have htable : isIdentifier s.table = true := by decide +kernel
  cases hquery : r.query s with
  | error e =>
    rw [hquery] at htexts
    cases htexts
  | ok q =>
    rw [hquery] at htexts
    obtain ⟨conditions, automatic, hconditions, -, -, hhavings, -⟩ := Recipe.query_repetitions hquery htable
    rw [hconditions] at hlength
    exact ⟨q, conditions, rfl, htable, hconditions, Option.some.inj hlength, hhavings, Option.some.inj htexts⟩

end ShelfQuery.Recipe
