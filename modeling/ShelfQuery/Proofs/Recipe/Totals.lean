import ShelfQuery.Proofs.Recipe.Grouping
import ShelfQuery.Proofs.Sql.Occurrence

set_option autoImplicit false

namespace ShelfQuery.Recipe

open ShelfQuery.Shelf ShelfQuery.Sql ShelfQuery.Schema ShelfQuery.Data ShelfQuery.Expression ShelfQuery.Text

theorem resolveFilter_wellTyped {s : Shelf} (filter : String) (condition : Sql × Bool)
    (h : resolveFilter s filter = .ok condition) : condition.1.WellTyped s.bench.schema .any := by
  obtain ⟨options, f, hf, hsql, -⟩ := reads_of_resolveFilter h
  exact hsql ▸ hf.wellTyped

namespace Query

/-- The clauses that say which rows a statement reads. -/
def rowClauses (q : Query) : List String := ("FROM " ++ q.source) :: clause "WHERE " " AND " q.wheres

/-- The expressions that are written with the conditions of WHERE at hand. -/
def resultExpressions (q : Query) : List Sql := q.columns.map Prod.snd ++ q.groupSql ++ q.havings

variable {q : Query} {x : Sql}

theorem rowClauses_prefix (q : Query) (paged : Bool) : q.selectClause :: q.rowClauses <+: q.lines paged := by
  refine ⟨clause "GROUP BY " ", " q.groupExpressions ++
    clause "HAVING " " AND " (q.havings.map (Sql.renderConjunct q.setting)) ++
    clause "ORDER BY " ", " (q.orderBy.map (SortKey.text q.dialect)) ++ (if paged then q.paging else []), ?_⟩
  simp only [lines, rowClauses, List.append_assoc, List.cons_append, List.nil_append]

theorem occurs_clause {part : String} {parts : List String} (lead sep : String) (h : part ∈ parts) :
    ∃ line ∈ clause lead sep parts, Occurs part line := by
  have hparts : parts.isEmpty = false := by
    cases parts with
    | nil => exact nomatch h
    | cons => rfl
  rw [clause, hparts]
  exact ⟨_, List.mem_singleton_self _, .right _ (occurs_join sep h)⟩

theorem occurs_line (hx : x ∈ q.resultExpressions) (paged : Bool) :
    ∃ line ∈ q.lines paged, Occurs (x.render q.setting) line := by
  simp only [resultExpressions, List.append_assoc, List.mem_append] at hx
  rcases hx with hx | hx | hx
  · obtain ⟨c, hc, rfl⟩ := List.mem_map.mp hx
    refine ⟨q.selectClause, by simp [lines], .right _ (.trans ?_ (occurs_join _ (List.mem_map_of_mem hc)))⟩
    exact .left (.left (.refl _) _) _
  · have htext : x.render q.setting ∈ q.groupExpressions := List.mem_map_of_mem hx
    obtain ⟨line, hline, hoccurs⟩ := occurs_clause "GROUP BY " ", " htext
    exact ⟨line, by simp [lines, hline], hoccurs⟩
  · obtain ⟨line, hline, hoccurs⟩ :=
      occurs_clause "HAVING " " AND " (List.mem_map_of_mem (f := Sql.renderConjunct q.setting) hx)
    exact ⟨line, by simp [lines, hline], .trans (Sql.occurs_guard ..) hoccurs⟩

theorem render_total (q : Query) (table : String) (arg : Sql) :
    (Sql.total table arg).render q.setting =
      "(SELECT " ++ arg.render q.setting ++ " " ++ join " " { q with source := table }.rowClauses ++ ")" := by
  have htext : (Sql.total table arg).render q.setting =
      "(SELECT " ++ arg.render q.setting ++ (" " ++ "FROM ") ++ table ++
        (if q.wheres.isEmpty then "" else " " ++ "WHERE " ++ join " AND " q.wheres) ++ ")" := rfl
  have hwheres : { q with source := table }.wheres = q.wheres := rfl
  rw [htext, rowClauses, hwheres]
  cases q.wheres with
  | nil => simp only [clause, List.isEmpty_nil, ↓reduceIte, join, String.append_empty, String.append_assoc]
  | cons first rest =>
    simp only [clause, List.isEmpty_cons, Bool.false_eq_true, ↓reduceIte, join, String.append_assoc]

end Query

namespace Brewed

variable {r : Recipe} {s : Shelf} {q : Query} {dimensions metrics : List Ingredient} {conditions : List (Sql × Bool)}
  {automatic : List Sql} (h : r.Brewed s q dimensions metrics conditions automatic)

include h

theorem columns_wellTyped : ∀ column ∈ q.columns, column.2.WellTyped s.bench.schema .any := by
  intro column hcolumn
  rw [h.columns] at hcolumn
  rcases List.mem_append.mp hcolumn with hcolumn | hcolumn
  · obtain ⟨i, hi, hcolumn⟩ := List.mem_flatMap.mp hcolumn
    obtain ⟨role, hrole, rfl⟩ := List.mem_map.mp hcolumn
    exact find_wellTyped (h.find_dimension i hi) role hrole
  · obtain ⟨i, hi, rfl⟩ := List.mem_map.mp hcolumn
    exact (built_of_find (h.find_metric i hi)).value.wellTyped

theorem resultExpressions_wellTyped : ∀ x ∈ q.resultExpressions, x.WellTyped s.bench.schema .any := by
  intro x hx
  simp only [Query.resultExpressions, List.append_assoc, List.mem_append] at hx
  rcases hx with hx | hx | hx
  · obtain ⟨column, hcolumn, rfl⟩ := List.mem_map.mp hx
    exact h.columns_wellTyped column hcolumn
  · obtain ⟨label, -, hx⟩ := List.mem_filterMap.mp hx
    obtain ⟨column, hcolumn, rfl⟩ := Option.map_eq_some_iff.mp hx
    exact h.columns_wellTyped column (List.mem_of_find?_eq_some hcolumn)
  · rw [h.havings] at hx
    obtain ⟨condition, hmem, rfl⟩ := List.mem_map.mp (mem_of_mem_dropRepeated hx)
    exact forall_of_mapM resolveFilter_wellTyped h.resolvedConditions condition (List.mem_filter.mp hmem).1

end Brewed

/-- A total that stands in a selected column, in GROUP BY or in HAVING is written there as a selection from
the table of the shelf under the WHERE of the statement. It has the FROM of the statement as well
if and only if the recipe reads from no other source. -/
theorem query_totals {r : Recipe} {s : Shelf} {q : Query} (h : r.query s = .ok q) {x : Sql}
    (hx : x ∈ q.resultExpressions) {table : String} {arg : Sql} (htotal : x.Within (.total table arg)) (paged : Bool) :
    (∃ line ∈ q.lines paged, Occurs (x.render q.setting) line) ∧
      Occurs ((Sql.total table arg).render q.setting) (x.render q.setting) ∧
      (Sql.total table arg).render q.setting =
        "(SELECT " ++ arg.render q.setting ++ " " ++ join " " { q with source := s.table }.rowClauses ++ ")" ∧
      q.selectClause :: q.rowClauses <+: q.lines paged ∧
      ({ q with source := s.table }.rowClauses = q.rowClauses ↔ r.source.getD s.table = s.table) := by
  obtain ⟨dimensions, metrics, conditions, automatic, hbrewed⟩ := brewed_of_query h
  refine ⟨Query.occurs_line hx paged, Sql.occurs_of_within htotal, ?_, q.rowClauses_prefix paged, ?_⟩
  · rcases (hbrewed.resultExpressions_wellTyped x hx).within htotal with hstar | htyped
    · exact nomatch hstar
    · rw [q.render_total, htyped.table_of_total]
      rfl
  · have hwheres : { q with source := s.table }.wheres = q.wheres := rfl
    rw [Query.rowClauses, Query.rowClauses, hwheres, List.cons_eq_cons, String.append_right_inj, hbrewed.source]
    exact ⟨fun heq => heq.1.symm, fun heq => ⟨heq.symm, rfl⟩⟩

def addsTotal (x : Sql) : Bool := x.children.any fun y => y matches .total _ _

/-- A metric that compares departments with all of them, in a statement with a condition. -/
theorem query_totals_share :
    let schema : Table := ⟨"scores", [⟨"score", .num⟩, ⟨"dept", .str⟩]⟩
    let s : Shelf :=
      ⟨⟨schema, .sqlite, .startOfDay ⟨2024, 1, 1, by decide⟩⟩,
        [("dept", .field "[dept]"), ("above", .field "sum([score]) - \x7b\x7bavg([score])\x7d\x7d")]⟩
    let r : Recipe := { dimensions := ["dept"], metrics := ["above"], filters := ["[score] < 90"] }
    ∃ q x table arg, r.query s = .ok q ∧ x ∈ q.resultExpressions ∧ x.Within (.total table arg) ∧
      Occurs ((Sql.total table arg).render q.setting) (x.render q.setting) ∧
      (Sql.total table arg).render q.setting =
        "(SELECT " ++ arg.render q.setting ++ " FROM scores WHERE scores.score < 90)" := by
  intro schema s r
  have hcomputed : (r.query s).toOption.map (fun q =>
      (q.columns.any fun c => addsTotal c.2, join " " { q with source := s.table }.rowClauses)) =
      some (true, "FROM scores WHERE scores.score < 90") := by decide +kernel
  cases hquery : r.query s with
  | error e =>
    rw [hquery] at hcomputed
    exact nomatch hcomputed
  | ok q =>
    rw [hquery] at hcomputed
    obtain ⟨hadds, hclauses⟩ := Prod.mk.inj (Option.some.inj hcomputed)
    obtain ⟨c, hc, hadds⟩ := List.any_eq_true.mp hadds
    obtain ⟨y, hy, htotal⟩ := List.any_eq_true.mp hadds
    cases y with
    | total table arg =>
      have hx : c.2 ∈ q.resultExpressions := by
        simp only [Query.resultExpressions, List.append_assoc, List.mem_append]
        exact .inl (List.mem_map_of_mem hc)
      have hwithin : c.2.Within (.total table arg) := .step hy .self
      obtain ⟨-, hoccurs, htext, -, -⟩ := Recipe.query_totals hquery hx hwithin true
      refine ⟨q, c.2, table, arg, rfl, hx, hwithin, hoccurs, ?_⟩
      rw [htext, hclauses]
      simp only [String.append_assoc]
      rfl
    | _ => exact nomatch htotal

end ShelfQuery.Recipe
