import ShelfQuery.Proofs.Data.Lists
import ShelfQuery.Proofs.Recipe.Aggregation
import ShelfQuery.Proofs.Shelf.Labels

set_option autoImplicit false

namespace ShelfQuery.Recipe

open ShelfQuery.Shelf ShelfQuery.Sql ShelfQuery.Schema ShelfQuery.Data ShelfQuery.Expression

theorem addNew_nodup {known : List String} (h : known.Nodup) (items : List String) : (addNew known items).Nodup := by
  induction items generalizing known with
  | nil => exact h
  | cons item rest ih =>
    rw [addNew]
    split
    · exact ih h
    · next hnew =>
      refine ih (List.nodup_append.mpr ⟨h, List.nodup_singleton item, ?_⟩)
      rintro a ha b hb rfl
      exact hnew (by simpa [List.mem_singleton.mp hb] using ha)

/-- Recipes that are put together from the empty one. -/
inductive Composed : Recipe → Prop where
  | empty : Composed {}
  | dimensions {r : Recipe} (ids : List String) : Composed r → Composed (r.addDimensions ids)
  | metrics {r : Recipe} (ids : List String) : Composed r → Composed (r.addMetrics ids)
  | filters {r : Recipe} (filters : List String) : Composed r → Composed (r.addFilters filters)
  | automatic {r : Recipe} (filters : List (String × Json)) : Composed r → Composed (r.addAutomatic filters)
  | order {r : Recipe} (keys : List String) : Composed r → Composed (r.addOrder keys)
  | limit {r : Recipe} (n : Nat) : Composed r → Composed { r with limit := n }
  | offset {r : Recipe} (n : Nat) : Composed r → Composed { r with offset := n }
  | source {r : Recipe} (source : String) : Composed r → Composed { r with source := some source }
  | anonymize {r : Recipe} (hide : Bool) : Composed r → Composed { r with anonymize := hide }

theorem Composed.nodup {r : Recipe} (h : r.Composed) : r.dimensions.Nodup ∧ r.metrics.Nodup := by
  induction h with
  | empty => exact ⟨List.nodup_nil, List.nodup_nil⟩
  | dimensions ids _ ih => exact ⟨addNew_nodup ih.1 ids, ih.2⟩
  | metrics ids _ ih => exact ⟨ih.1, addNew_nodup ih.2 ids⟩
  | filters | automatic | order | limit | offset | source | anonymize => assumption

def Query.dimensionColumns (q : Query) : List (String × Sql) :=
  (q.ingredients.filter fun i => i.kind == .dimension).flatMap Recipe.dimensionColumns

namespace Brewed

variable {r : Recipe} {s : Shelf} {q : Query} {dimensions metrics : List Ingredient} {conditions : List (Sql × Bool)}
  {automatic : List Sql} (h : r.Brewed s q dimensions metrics conditions automatic)

include h

theorem find_dimension : ∀ i ∈ dimensions, s.find i.id [.dimension] = .ok i :=
  forall_of_mapM (fun _ _ hfind => by rwa [(find_spec hfind).1]) h.foundDimensions

theorem find_metric : ∀ i ∈ metrics, s.find i.id [.metric] = .ok i :=
  forall_of_mapM (fun _ _ hfind => by rwa [(find_spec hfind).1]) h.foundMetrics

theorem kind_of_mem_dimensions {i : Ingredient} (hi : i ∈ dimensions) : i.kind = .dimension := by
  simpa using (get?_of_find (h.find_dimension i hi)).2

theorem kind_of_mem_metrics {i : Ingredient} (hi : i ∈ metrics) : i.kind = .metric := by
  simpa using (get?_of_find (h.find_metric i hi)).2

theorem ids_nodup (hr : r.Composed) : (q.ingredients.map Ingredient.id).Nodup := by
  rw [h.ingredients, List.map_append, List.nodup_append]
  refine ⟨map_id_of_mapM h.foundDimensions ▸ hr.nodup.1, map_id_of_mapM h.foundMetrics ▸ hr.nodup.2, ?_⟩
  intro id hid id' hid' hids
  obtain ⟨i, hi, rfl⟩ := List.mem_map.mp hid
  obtain ⟨j, hj, rfl⟩ := List.mem_map.mp hid'
  -- one key holds one ingredient, of one kind
  have hget := (get?_of_find (h.find_dimension i hi)).1
  rw [hids, (get?_of_find (h.find_metric j hj)).1] at hget
  cases hget
  exact nomatch (h.kind_of_mem_dimensions hi).symm.trans (h.kind_of_mem_metrics hj)

theorem labels_eq : q.columns.map Prod.fst = q.ingredients.flatMap Ingredient.labels := by
  have hroles (i : Ingredient) : (dimensionColumns i).map Prod.fst = i.labels := by
    simp [dimensionColumns, Ingredient.labels, Function.comp_def]
  have hmetrics : metrics.map Ingredient.id = metrics.flatMap Ingredient.labels := by
    rw [← List.flatMap_pure_eq_map]
    refine List.flatMap_congr fun i hi => ?_
    have hside := (find_spec (h.find_metric i hi)).2 (by simp [h.kind_of_mem_metrics hi])
    rw [Ingredient.labels_eq, hside]
    rfl
  rw [h.columns, h.ingredients, List.map_append, List.flatMap_append, List.map_flatMap, List.map_map]
  simp only [hroles]
  rw [← hmetrics]
  rfl

theorem dimensionColumns_eq : q.dimensionColumns = dimensions.flatMap dimensionColumns := by
  have hdimensions : dimensions.filter (fun i => i.kind == .dimension) = dimensions :=
    List.filter_eq_self.mpr fun i hi => by simp [h.kind_of_mem_dimensions hi]
  have hmetrics : metrics.filter (fun i => i.kind == .dimension) = [] :=
    List.filter_eq_nil_iff.mpr fun i hi => by simp [h.kind_of_mem_metrics hi]
  rw [Query.dimensionColumns, h.ingredients, List.filter_append, hdimensions, hmetrics, List.append_nil]

end Brewed

theorem Query.groupSql_of_nodup {q : Query} (h : (q.columns.map Prod.fst).Nodup) {grouped : List (String × Sql)}
    (hgroup : q.groupBy = grouped.map Prod.fst) (hgrouped : ∀ c ∈ grouped, c ∈ q.columns) :
    q.groupSql = grouped.map Prod.snd := by
  rw [Query.groupSql, hgroup, List.filterMap_map, ← List.filterMap_eq_map]
  refine List.filterMap_congr fun c hc => ?_
  have hfind := (find?_key_eq_some_iff h).mpr ⟨hgrouped c hc, rfl⟩
  simp [Query.column?, hfind]

/-- Dimensions come first among the columns of a query, labels repeat only where ingredients clash, and if
none do, GROUP BY lists for each column of a dimension the text that is selected for it. -/
theorem query_groupBy {r : Recipe} {s : Shelf} {q : Query} (hr : r.Composed) (h : r.query s = .ok q) :
    q.dimensionColumns <+: q.columns ∧
      ((q.columns.map Prod.fst).Nodup ↔ ¬ Ingredient.Clash q.ingredients) ∧
      (¬ Ingredient.Clash q.ingredients →
        q.groupExpressions = q.dimensionColumns.map fun c => c.2.render q.setting) := by
  obtain ⟨dimensions, metrics, conditions, automatic, hbrewed⟩ := brewed_of_query h
  have hlabels : (q.columns.map Prod.fst).Nodup ↔ ¬ Ingredient.Clash q.ingredients := by
    rw [hbrewed.labels_eq]
    exact Ingredient.flatMap_labels_nodup (hbrewed.ids_nodup hr)
  have hfirst : q.dimensionColumns <+: q.columns := by
    rw [hbrewed.dimensionColumns_eq, hbrewed.columns]
    exact List.prefix_append _ _
  refine ⟨hfirst, hlabels, fun hclash => ?_⟩
  have hgroup : q.groupBy = q.dimensionColumns.map Prod.fst := by
    rw [hbrewed.dimensionColumns_eq, hbrewed.groupBy]
  have hsql := Query.groupSql_of_nodup (hlabels.mpr hclash) hgroup fun c hc => hfirst.subset hc
  rw [Query.groupExpressions, ← Query.groupSql, hsql, List.map_map]
  rfl

/-- A dimension with all its roles, one that is named almost like a role of it, and a metric. -/
theorem query_groupBy_roles :
    let schema : Table := ⟨"scores", [⟨"score", .num⟩, ⟨"dept", .str⟩]⟩
    let s : Shelf :=
      ⟨⟨schema, .sqlite, .startOfDay ⟨2024, 1, 1, by decide⟩⟩,
        [("dept", .spec { field := "[dept]", idField := some "[dept] + [dept]", orderByField := some "[score]" }),
          ("dept_id", .spec { kind := some .dimension, field := "[score] + 1" }),
          ("mean", .field "avg([score])")]⟩
    let r : Recipe := (({} : Recipe).addDimensions ["dept", "dept_id", "dept"]).addMetrics ["mean"]
    ∃ q, r.Composed ∧ r.query s = .ok q ∧
      q.columns.map Prod.fst = ["dept", "dept__id", "dept__order_by", "dept_id", "mean"] ∧
      q.groupExpressions = ["scores.dept", "scores.dept || scores.dept", "scores.score", "scores.score + 1"] ∧
      q.groupExpressions = q.dimensionColumns.map fun c => c.2.render q.setting := by
  intro schema s r
  have hcomposed : r.Composed := .metrics _ (.dimensions _ .empty)
  have hcomputed : (r.query s).toOption.map (fun q => (q.columns.map Prod.fst, q.groupExpressions)) =
      some (["dept", "dept__id", "dept__order_by", "dept_id", "mean"],
        ["scores.dept", "scores.dept || scores.dept", "scores.score", "scores.score + 1"]) := by decide +kernel
  cases hquery : r.query s with
  | error e =>
    rw [hquery] at hcomputed
    exact nomatch hcomputed
  | ok q =>
    rw [hquery] at hcomputed
    obtain ⟨hlabels, hgroup⟩ := Prod.mk.inj (Option.some.inj hcomputed)
    obtain ⟨-, hnodup, hmatches⟩ := Recipe.query_groupBy hcomposed hquery
    refine ⟨q, hcomposed, rfl, hlabels, hgroup, hmatches (hnodup.mp ?_)⟩
    rw [hlabels]
    simp

end ShelfQuery.Recipe
