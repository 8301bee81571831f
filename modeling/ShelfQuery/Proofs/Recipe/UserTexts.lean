import ShelfQuery.Proofs.Recipe.Totals
import ShelfQuery.Proofs.Sql.Shape

set_option autoImplicit false

namespace ShelfQuery.Recipe

open ShelfQuery.Shelf ShelfQuery.Sql ShelfQuery.Schema ShelfQuery.Data ShelfQuery.Calendar ShelfQuery.Expression

theorem filterClosed_wellTyped (schema : Table) :
    FilterClosed (Sql.WellTyped schema .any) (Sql.WellTyped schema .bool) where
  literal l := (Sql.WellTyped.literal l).any
  truth b := .literal (.bool b)
  cast h := (Sql.WellTyped.castText h).any
  lower h := (Sql.WellTyped.scalar (by simp) (by simp) (List.forall_mem_singleton.mpr h)).any
  compare := .compare
  isNull := .isNull
  between := .between
  inList := .inList
  negate := .negate
  combine := .combine

/-- The trees that expressions and filters over a table become. -/
inductive Produced (schema : Table) : Sql → Prop where
  | compiled {c : Context} {tree : Tree} {t : Compiled} : c.schema = schema → tree.compile c = .ok t →
      Produced schema t.sql
  | read {c : Context} {text : String} {reading : FieldReading} : c.schema = schema → readField c text = .ok reading →
      Produced schema reading.field.sql
  | filter {w : Workbench} {d : Definition} {id : String} {spec : Spec} {i : Ingredient} {now : DateTime}
      {operator : Option String} {v : Json} {x : Sql} : w.schema = schema → Ingredient.build w d id spec = .ok i →
      buildFilter i now operator v = .ok x → Produced schema x

theorem Produced.wellTyped {schema : Table} {x : Sql} (h : Produced schema x) : x.WellTyped schema .any := by
  cases h with
  | compiled hschema hcompile => exact hschema ▸ (compiles_of_compile hcompile).1.wellTyped.any
  | read hschema hread => exact hschema ▸ (readField_wellTyped hread).2.2.any
  | filter hschema hbuild hfilter =>
    have hbuilt := built_of_build hbuild
    have hquick : ∀ q ∈ _, _ := fun q hq => (hbuilt.quickSelects q hq).wellTyped
    exact hschema ▸ ((filterClosed_wellTyped _).filterWith hbuilt.value.wellTyped hquick hfilter).any

/-- Two trees that differ in the contents of texts only are written with the same tokens, but for the
quoted ones, and these hold the contents. -/
theorem render_tokens {schema : Table} (htable : isIdentifier schema.name = true) {dialect : Dialect}
    (hdialect : dialect ≠ .bigquery) {x y : Sql} {conditions conditions' : List Sql} (hx : Produced schema x)
    (hy : Produced schema y) (hconditions : ∀ c ∈ conditions, Produced schema c)
    (hconditions' : ∀ c ∈ conditions', Produced schema c) (hblank : x.blank = y.blank)
    (hblanks : conditions.map Sql.blank = conditions'.map Sql.blank) :
    ∃ ts us, Splitting.split? (x.render (repeating dialect conditions)) = some ts ∧
      Splitting.split? (y.render (repeating dialect conditions')) = some us ∧ List.Forall₂ SameToken ts us ∧
      ts.filterMap content? = x.texts dialect (conditionTexts dialect conditions) ∧
      us.filterMap content? = y.texts dialect (conditionTexts dialect conditions') := by
  obtain ⟨ts, vs, hts, hvs, hsame, htexts⟩ :=
    split_render htable hdialect (fun c hc => (hconditions c hc).wellTyped) hx.wellTyped
  obtain ⟨us, vs', hus, hvs', hsame', htexts'⟩ :=
    split_render htable hdialect (fun c hc => (hconditions' c hc).wellTyped) hy.wellTyped
  -- both are compared with the one blank text
  rw [← hblank, ← hblanks, hvs] at hvs'
  cases hvs'
  refine ⟨ts, us, hts, hus, ?_, htexts, htexts'⟩
  have hmap : List.Forall₂ Eq (ts.map blankToken) (us.map blankToken) := List.forall₂_eq_eq_eq ▸ hsame.trans hsame'.symm
  rw [List.forall₂_map_left_iff, List.forall₂_map_right_iff] at hmap
  exact hmap.imp fun _ _ => sameToken_of_blankToken_eq

/-- A total among the rows of one department. A quote and a comment mark in its name stay inside it. -/
theorem render_tokens_department :
    ∃ ts us,
      Splitting.split? "(SELECT sum(scores.score) FROM scores WHERE scores.dept = 'R''; --')" = some ts ∧
        Splitting.split? "(SELECT sum(scores.score) FROM scores WHERE scores.dept = 'ops')" = some us ∧
        List.Forall₂ SameToken ts us ∧ ts.filterMap content? = ["R'; --"] ∧ us.filterMap content? = ["ops"] := by
  let schema : Table := ⟨"scores", [⟨"score", .num⟩, ⟨"dept", .str⟩]⟩
  let c : Context := ⟨schema, .sqlite, {}, .startOfDay ⟨2024, 1, 1, by decide⟩⟩
  have htotal : (Tree.total 0 (.call 0 "sum" [.column 0 "score"])).compile c =
      .ok ⟨.total "scores" (.func "sum" [.column "scores" "score"]), .num, false, true, false⟩ := rfl
  have hcondition (name : String) :
      (Tree.compare 0 .eq (.column 0 "dept") (.constant 0 (.text name))).compile c =
        .ok ⟨.compare .eq (.column "scores" "dept") (.literal (.text name)), .bool, false, true, false⟩ := rfl
  obtain ⟨ts, us, hts, hus, hsame, htexts, htexts'⟩ :=
    render_tokens (show isIdentifier schema.name = true by decide) (show Dialect.sqlite ≠ .bigquery by decide)
      (.compiled rfl htotal) (.compiled rfl htotal)
      (List.forall_mem_singleton.mpr (.compiled rfl (hcondition "R'; --")))
      (List.forall_mem_singleton.mpr (.compiled rfl (hcondition "ops"))) rfl rfl
  refine ⟨ts, us, ?_, ?_, hsame, ?_, ?_⟩
  · rw [← hts]
    exact congrArg Splitting.split? (by decide +kernel)
  · rw [← hus]
    exact congrArg Splitting.split? (by decide +kernel)
  · rw [htexts]
    decide +kernel
  · rw [htexts']
    decide +kernel

end ShelfQuery.Recipe
