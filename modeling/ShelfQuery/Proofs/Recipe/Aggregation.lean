import ShelfQuery.Proofs.Recipe.Filters
import ShelfQuery.Proofs.Shelf.Fields
import ShelfQuery.Recipe.Basic

set_option autoImplicit false

namespace ShelfQuery.Recipe

open ShelfQuery.Shelf ShelfQuery.Sql ShelfQuery.Schema ShelfQuery.Data ShelfQuery.Calendar ShelfQuery.Expression

theorem filterClosed_plain : FilterClosed Sql.Plain Sql.Plain where
  literal := .literal
  truth _ := .literal _
  cast h := .of_children rfl (by simpa [Sql.children] using h)
  lower h := .of_children rfl (by simpa [Sql.children] using h)
  compare hx hy := .of_children rfl (by simpa [Sql.children] using ⟨hx, hy⟩)
  isNull h := .of_children rfl (by simpa [Sql.children] using h)
  between hx hlow hhigh := .of_children rfl (by simpa [Sql.children] using ⟨hx, hlow, hhigh⟩)
  inList hx hitems := .of_children rfl (List.forall_mem_cons.mpr ⟨hx, hitems⟩)
  negate := .negate
  combine := .combine

theorem resolveAutomatic_plain {s : Shelf} (filter : String × Json) (sql : Sql)
    (h : resolveAutomatic s filter = .ok sql) : sql.Plain := by
  obtain ⟨i, hfind, h⟩ := bind_ok h
  have hi := built_of_find hfind
  have hkind : i.kind = .dimension := by simpa using (get?_of_find hfind).2
  have hvalue : i.value.sql.Plain := hi.roles_plain hkind (.value, i.value) (by simp [Ingredient.roles])
  split at h
  · next hfilter =>
    cases h
    exact filterClosed_plain.filterWith hvalue (fun q hq => (hi.quickSelects q hq).plain) hfilter
  · cases h

theorem reads_of_resolveFilter {s : Shelf} {filter : String} {condition : Sql × Bool}
    (h : resolveFilter s filter = .ok condition) :
    ∃ options f, s.bench.Reads options f ∧ f.sql = condition.1 ∧ (condition.2 = false → f.aggregate = false) := by
  unfold resolveFilter resolveFilterWith at h
  split at h
  · obtain ⟨i, hfind, h⟩ := bind_ok h
    cases h
    exact ⟨_, _, (built_of_find hfind).value, rfl, fun hmark => (Bool.or_eq_false_iff.mp hmark).2⟩
  · split at h
    · exact nomatch h
    · obtain ⟨f, hparse, h⟩ := bind_ok h
      split at h
      · exact nomatch h
      · cases h
        exact ⟨_, f, reads_of_parse hparse, rfl, id⟩

theorem resolveFilter_flat {s : Shelf} (filter : String) (condition : Sql × Bool)
    (h : resolveFilter s filter = .ok condition) :
    condition.1.Flat ∧ (condition.2 = false → condition.1.hasAggregate = false) := by
  obtain ⟨options, f, hf, hsql, hmark⟩ := reads_of_resolveFilter h
  rw [← hsql]
  exact ⟨hf.disciplined.flat, fun hplain => hf.disciplined.marked (hmark hplain)⟩

theorem mem_of_mem_dropRepeated {setting : Setting} {seen : List String} {sqls : List Sql} {sql : Sql}
    (h : sql ∈ dropRepeated setting seen sqls) : sql ∈ sqls := by
  induction sqls generalizing seen with
  | nil => exact h
  | cons x rest ih =>
    simp only [dropRepeated] at h
    split at h
    · exact List.mem_cons_of_mem _ (ih h)
    · rcases List.mem_cons.mp h with rfl | h
      · exact List.mem_cons_self ..
      · exact List.mem_cons_of_mem _ (ih h)

theorem dimensionColumns_plain {s : Shelf} {id : String} {i : Ingredient} (h : s.find id [.dimension] = .ok i) :
    ∀ column ∈ dimensionColumns i, column.2.Plain := by
  intro column hcolumn
  obtain ⟨role, hrole, rfl⟩ := List.mem_map.mp hcolumn
  exact (built_of_find h).roles_plain (by simpa using (get?_of_find h).2) role hrole

theorem mem_of_find_label {first rest : List (String × Sql)} {label : String} {sql : Sql}
    (hlabel : label ∈ first.map Prod.fst)
    (h : ((first ++ rest).find? fun c => c.1 == label).map Prod.snd = some sql) : ∃ column ∈ first, column.2 = sql := by
  obtain ⟨column, hcolumn, rfl⟩ := Option.map_eq_some_iff.mp h
  rw [List.find?_append] at hcolumn
  cases hfirst : first.find? fun c => c.1 == label with
  | some found =>
    rw [hfirst] at hcolumn
    cases hcolumn
    exact ⟨column, List.mem_of_find?_eq_some hfirst, rfl⟩
  | none =>
    obtain ⟨c, hc, rfl⟩ := List.mem_map.mp hlabel
    have hdiffers := List.find?_eq_none.mp hfirst c hc
    simp at hdiffers

namespace Query

def groupSql (q : Query) : List Sql := q.groupBy.filterMap q.column?

def expressions (q : Query) : List Sql := q.columns.map Prod.snd ++ q.groupSql ++ q.filters ++ q.havings

end Query

/-- What a recipe names on a shelf, and how the query is made of it. -/
structure Brewed (r : Recipe) (s : Shelf) (q : Query) (dimensions metrics : List Ingredient)
    (conditions : List (Sql × Bool)) (automatic : List Sql) : Prop where
  nonempty : (r.dimensions.isEmpty && r.metrics.isEmpty) = false
  foundDimensions : r.dimensions.mapM (fun id => s.find id [.dimension]) = .ok dimensions
  foundMetrics : r.metrics.mapM (fun id => s.find id [.metric]) = .ok metrics
  resolvedConditions : r.filters.mapM (resolveFilter s) = .ok conditions
  resolvedAutomatic : r.automatic.mapM (resolveAutomatic s) = .ok automatic
  assembled : q = r.assemble s.bench dimensions metrics conditions automatic

theorem brewed_of_query {r : Recipe} {s : Shelf} {q : Query} (h : r.query s = .ok q) :
    ∃ dimensions metrics conditions automatic, r.Brewed s q dimensions metrics conditions automatic := by
  unfold Recipe.query Recipe.queryWith at h
  split at h
  · exact nomatch h
  · next hsome =>
    obtain ⟨dimensions, hdimensions, h⟩ := bind_ok h
    obtain ⟨metrics, hmetrics, h⟩ := bind_ok h
    obtain ⟨conditions, hconditions, h⟩ := bind_ok h
    obtain ⟨automatic, hautomatic, h⟩ := bind_ok h
    cases h
    exact ⟨dimensions, metrics, conditions, automatic, Bool.eq_false_iff.mpr hsome, hdimensions, hmetrics, hconditions,
      hautomatic, rfl⟩

namespace Brewed

variable {r : Recipe} {s : Shelf} {q : Query} {dimensions metrics : List Ingredient} {conditions : List (Sql × Bool)}
  {automatic : List Sql} (h : r.Brewed s q dimensions metrics conditions automatic)

include h

theorem query_eq : r.query s = .ok q := by
  have hconditions : r.filters.mapM (resolveFilterWith s.find s.parse s.definition) = _ := h.resolvedConditions
  have hautomatic : r.automatic.mapM (resolveAutomaticWith s.find s.bench.now) = _ := h.resolvedAutomatic
  rw [Recipe.query, Recipe.queryWith, h.nonempty, h.foundDimensions, h.foundMetrics, hconditions, hautomatic, h.assembled]
  rfl

theorem columns : q.columns = dimensions.flatMap dimensionColumns ++ metrics.map fun i => (i.id, i.value.sql) := by
  rw [h.assembled]
  rfl

theorem groupBy : q.groupBy = (dimensions.flatMap dimensionColumns).map Prod.fst := by
  rw [h.assembled]
  rfl

theorem filters :
    q.filters = dropRepeated ⟨s.bench.dialect, []⟩ [] ((conditions.filter (!·.2)).map Prod.fst ++ automatic) := by
  rw [h.assembled]
  rfl

theorem havings : q.havings = dropRepeated ⟨s.bench.dialect, []⟩ [] ((conditions.filter (·.2)).map Prod.fst) := by
  rw [h.assembled]
  rfl

theorem source : q.source = r.source.getD s.table := by
  rw [h.assembled]
  rfl

theorem ingredients : q.ingredients = dimensions ++ metrics := by
  rw [h.assembled]
  rfl

theorem grouped_plain : ∀ column ∈ dimensions.flatMap dimensionColumns, column.2.Plain := by
  intro column hcolumn
  obtain ⟨i, hi, hcolumn⟩ := List.mem_flatMap.mp hcolumn
  exact forall_of_mapM (fun _ _ => dimensionColumns_plain) h.foundDimensions i hi column hcolumn

theorem columns_flat : ∀ sql ∈ q.columns.map Prod.snd, sql.Flat := by
  intro sql hsql
  obtain ⟨column, hcolumn, rfl⟩ := List.mem_map.mp hsql
  rw [h.columns] at hcolumn
  rcases List.mem_append.mp hcolumn with hcolumn | hcolumn
  · exact (h.grouped_plain column hcolumn).flat
  · obtain ⟨i, hi, rfl⟩ := List.mem_map.mp hcolumn
    exact forall_of_mapM (fun _ _ hfind => (built_of_find hfind).value.disciplined.flat) h.foundMetrics i hi

theorem groupSql_plain : ∀ sql ∈ q.groupSql, sql.Plain := by
  intro sql hsql
  obtain ⟨label, hlabel, hsql⟩ := List.mem_filterMap.mp hsql
  rw [h.groupBy] at hlabel
  rw [Query.column?, h.columns] at hsql
  obtain ⟨column, hcolumn, rfl⟩ := mem_of_find_label hlabel hsql
  exact h.grouped_plain column hcolumn

theorem filters_plain : ∀ sql ∈ q.filters, sql.Plain := by
  intro sql hsql
  rw [h.filters] at hsql
  rcases List.mem_append.mp (mem_of_mem_dropRepeated hsql) with hsql | hsql
  · obtain ⟨condition, hmem, rfl⟩ := List.mem_map.mp hsql
    obtain ⟨hmem, hmark⟩ := List.mem_filter.mp hmem
    obtain ⟨hflat, hfree⟩ := forall_of_mapM resolveFilter_flat h.resolvedConditions condition hmem
    exact ⟨hflat, hfree (by simpa using hmark)⟩
  · exact forall_of_mapM resolveAutomatic_plain h.resolvedAutomatic sql hsql

theorem havings_flat : ∀ sql ∈ q.havings, sql.Flat := by
  intro sql hsql
  rw [h.havings] at hsql
  obtain ⟨condition, hmem, rfl⟩ := List.mem_map.mp (mem_of_mem_dropRepeated hsql)
  exact (forall_of_mapM resolveFilter_flat h.resolvedConditions condition (List.mem_filter.mp hmem).1).1

end Brewed

/-- In the query of a recipe, WHERE and GROUP BY call no aggregate outside of totals, and no
expression calls an aggregate in the argument of another without a total between them. -/
theorem query_aggregates (r : Recipe) (s : Shelf) (q : Query) (h : r.query s = .ok q) :
    (∀ sql ∈ q.filters, sql.hasAggregate = false) ∧ (∀ sql ∈ q.groupSql, sql.hasAggregate = false) ∧
      ∀ sql ∈ q.expressions, sql.Flat := by
  obtain ⟨dimensions, metrics, conditions, automatic, hbrewed⟩ := brewed_of_query h
  refine ⟨fun sql hsql => (hbrewed.filters_plain sql hsql).free,
    fun sql hsql => (hbrewed.groupSql_plain sql hsql).free, ?_⟩
  intro sql hsql
  simp only [Query.expressions, List.append_assoc, List.mem_append] at hsql
  rcases hsql with hsql | hsql | hsql | hsql
  · exact hbrewed.columns_flat sql hsql
  · exact (hbrewed.groupSql_plain sql hsql).flat
  · exact (hbrewed.filters_plain sql hsql).flat
  · exact hbrewed.havings_flat sql hsql

def Query.sizes (q : Query) : Nat × Nat × Nat := (q.filters.length, q.havings.length, q.groupSql.length)

/-- Conditions come from the shelf, from texts, from values and from a quick selection; two of them call
aggregates. -/
theorem query_aggregates_scores :
    let schema : Table := ⟨"scores", [⟨"score", .num⟩, ⟨"dept", .str⟩]⟩
    let s : Shelf :=
      ⟨⟨schema, .sqlite, .startOfDay ⟨2024, 1, 1, by decide⟩⟩,
        [("dept", .spec
            { field := "[dept]", orderByField := some "[score]", quickSelects := [⟨"early", "[dept] < \"m\""⟩] }),
          ("mean", .field "avg([score])"),
          ("high", .spec { kind := some .filter, field := "[score] > \x7b\x7bavg([score])\x7d\x7d" }),
          ("many", .spec { kind := some .having, field := "@mean > 10" })]⟩
    let r : Recipe :=
      { dimensions := ["dept"], metrics := ["mean"]
        filters := ["high", "many", "[score] < 90", "sum([score]) > @mean"]
        automatic := [("dept", .arr [.str "a", .null]), ("dept__quickselect", .str "early")] }
    ∃ q, r.query s = .ok q ∧ q.sizes = (4, 2, 2) ∧ (∀ sql ∈ q.filters, sql.hasAggregate = false) ∧
      (∀ sql ∈ q.groupSql, sql.hasAggregate = false) ∧ ∀ sql ∈ q.expressions, sql.Flat := by
  intro schema s r
  have hsizes : (r.query s).toOption.map Query.sizes = some (4, 2, 2) := by decide +kernel
  cases hquery : r.query s with
  | error e =>
    rw [hquery] at hsizes
    exact nomatch hsizes
  | ok q =>
    rw [hquery] at hsizes
    exact ⟨q, rfl, Option.some.inj hsizes, Recipe.query_aggregates r s q hquery⟩

end ShelfQuery.Recipe
