import ShelfQuery.Proofs.Compiler.Aggregation
import ShelfQuery.Proofs.Compiler.Parts

set_option autoImplicit false

namespace ShelfQuery.Sql

def Unnested (x : Sql) : Prop := x.isAggregateCall = true → ∀ y ∈ x.children, y.hasAggregate = false

theorem unnested_of_not_call (x : Sql) (h : x.isAggregateCall = false) : x.Unnested :=
  fun hcall => nomatch h.symm.trans hcall

/-- Nowhere in an expression is an aggregate called in the argument of another. -/
def Flat (x : Sql) : Prop := x.Everywhere Unnested

namespace Flat

variable {x y : Sql}

theorem of_children (hx : x.isAggregateCall = false) (h : ∀ y ∈ x.children, y.Flat) : x.Flat :=
  everywhere_iff.mpr ⟨unnested_of_not_call x hx, h⟩

theorem composes : Composes Flat := composes_everywhere fun x hx _ => unnested_of_not_call x hx

theorem negate (h : x.Flat) : x.negate.Flat := composes.negate h

theorem combine {settles : Bool} {items : List Sql} (h : ∀ x ∈ items, x.Flat) : (Sql.combine settles items).Flat :=
  composes.combine h

theorem call (hchildren : x.children = [y]) (hy : y.Flat) (hplain : y.hasAggregate = false) : x.Flat := by
  refine everywhere_iff.mpr ⟨fun _ => ?_, ?_⟩
  · simpa [hchildren] using hplain
  · rw [hchildren]
    exact List.forall_mem_singleton.mpr hy

end Flat

structure Plain (x : Sql) : Prop where
  flat : x.Flat
  free : x.hasAggregate = false

theorem hasAggregate_of_children {x : Sql} (hx : x.isAggregateCall = false)
    (h : ∀ y ∈ x.children, y.hasAggregate = false) : x.hasAggregate = false := by
  have hany {items : List Sql} (h : ∀ y ∈ items, y.hasAggregate = false) : anyAggregate items = false := by
    rw [anyAggregate_eq]
    simpa using h
  cases x with
  | column | literal | star | total => rfl
  | arith | compare | between => simpa [children, hasAggregate, and_assoc] using h
  | not arg | neg arg | isNull arg | cast arg | dateTrunc _ arg => exact h arg (by simp [children])
  | and items | or items => exact hany h
  | inList arg items =>
    obtain ⟨harg, hitems⟩ := List.forall_mem_cons.mp h
    rw [hasAggregate, harg, hany hitems]
    rfl
  | case whens otherwise =>
    obtain ⟨hwhens, helse⟩ := List.forall_mem_append.mp h
    have hpairs : anyAggregateWhen whens = false := by
      clear h hx
      induction whens with
      | nil => rfl
      | cons w rest ih =>
        simp only [List.flatMap_cons, List.cons_append, List.nil_append, List.forall_mem_cons] at hwhens
        obtain ⟨hcondition, hvalue, hrest⟩ := hwhens
        rw [anyAggregateWhen, hcondition, hvalue, ih hrest]
        rfl
    have hlast : optionAggregate otherwise = false := by
      cases otherwise with
      | none => rfl
      | some x => exact helse x (by simp)
    rw [hasAggregate, hpairs, hlast]
    rfl
  | func name args =>
    have hname : isAggregateName name = false := hx
    have hargs : anyAggregate args = false := hany h
    rw [hasAggregate, hname, hargs]
    rfl
  | countDistinct | percentile => cases hx

namespace Plain

variable {x : Sql}

theorem of_children (hx : x.isAggregateCall = false) (h : ∀ y ∈ x.children, y.Plain) : x.Plain :=
  ⟨.of_children hx fun y hy => (h y hy).flat, hasAggregate_of_children hx fun y hy => (h y hy).free⟩

theorem literal (l : Literal) : (Sql.literal l).Plain := of_children rfl nofun

theorem negate (h : x.Plain) : x.negate.Plain := ⟨h.flat.negate, (negate_hasAggregate x).trans h.free⟩

theorem combine {settles : Bool} {items : List Sql} (h : ∀ x ∈ items, x.Plain) : (Sql.combine settles items).Plain := by
  refine ⟨.combine fun x hx => (h x hx).flat, ?_⟩
  cases hparts : parts? settles items with
  | none => simp [Sql.combine, hparts, hasAggregate]
  | some xs =>
    rw [combine_hasAggregate hparts, List.any_eq_false]
    exact fun x hx => Bool.eq_false_iff.mp (h x hx).free

end Plain

end ShelfQuery.Sql

namespace ShelfQuery.Expression

open ShelfQuery.Sql ShelfQuery.Schema ShelfQuery.Calendar

variable {tree : Tree} {t : Typed}

variable {c : Context} {scope : Scope}

def Scope.isBarred (c : Context) (scope : Scope) : Bool :=
  scope.inAggregate || (c.options.forbidAggregation && !scope.inTotal)

theorem Compiles.aggregates_of_barred (h : Compiles c scope tree t)
    (hbarred : scope.isBarred c = true) : tree.aggregates = false := by
  have hany {trees : List Tree} {ts : List Typed} (hlen : trees.length = ts.length)
      (h : ∀ ⦃a b⦄, (a, b) ∈ trees.zip ts → a.aggregates = false) : anyAggregates trees = false := by
    have hnone : trees.any Tree.aggregates = false := by
      rw [← any_eq_of_zip (g := fun _ => false) hlen fun a b hmem => (h hmem).symm]
      simp
    exact (anyAggregatesOutside_eq _ trees).trans hnone
  have hor {a b : Bool} (ha : a = false) (hb : b = false) : (a || b) = false := by rw [ha, hb]; rfl
  induction h with
  | column | columnTrunc | constant | total => rfl
  | negLiteral _ _ _ ih | neg _ _ _ ih | negNull _ _ _ ih | not _ _ ih | isNull _ ih | isDateRange _ _ _ ih
  | isDatetimeRange _ _ _ ih => exact ih hbarred
  | arithFold _ _ _ _ _ _ ihl ihr | arith _ _ _ _ _ ihl ihr | compare _ _ _ _ ihl ihr | and _ _ _ _ ihl ihr
  | or _ _ _ _ ihl ihr | like _ _ _ _ ihl ihr | ilike _ _ _ _ ihl ihr => exact hor (ihl hbarred) (ihr hbarred)
  | inList _ _ hlen _ _ _ _ ih ihs => exact hor (ih hbarred) (hany hlen fun a b hmem => ihs hmem hbarred)
  | between _ _ _ _ _ _ _ ih ihlow ihhigh => exact hor (hor (ih hbarred) (ihlow hbarred)) (ihhigh hbarred)
  | countAll _ hnested hallowed | aggregate _ hnested hallowed => simp [Scope.isBarred, hnested, hallowed] at hbarred
  | cond hname _ hlen _ _ _ ih | coalesce hname _ hlen _ _ _ _ ih | substr hname _ _ hlen _ _ ih =>
    rw [aggregates_scalar hname]
    exact hany hlen fun a b hmem => ih hmem hbarred
  | string hname _ ih | int hname _ ih | trunc hname _ _ ih | dateOfText hname _ _ _ ih | dateOfDate hname _ _ ih
  | dateOfDatetime hname _ _ ih =>
    rw [aggregates_scalar hname]
    exact hor (ih hbarred) rfl

theorem Compiles.hasAggregate_of_not_aggregates (h : Compiles c scope tree t)
    (haggregates : tree.aggregates = false) : t.sql.hasAggregate = false := by
  rw [h.hasAggregate_eq, Bool.eq_false_iff]
  intro hkeeps
  exact nomatch haggregates.symm.trans (aggregates_of_outside tree hkeeps)

theorem Compiles.hasAggregate_of_barred (h : Compiles c scope tree t)
    (hbarred : scope.isBarred c = true) : t.sql.hasAggregate = false :=
  h.hasAggregate_of_not_aggregates (h.aggregates_of_barred hbarred)

theorem persists_unnested : Persists Sql.Unnested where
  other x hx _ := Sql.unnested_of_not_call x hx
  zero := Sql.unnested_of_not_call _ rfl
  negated _ := Sql.unnested_of_not_call _ rfl
  folded _ _ := Sql.unnested_of_not_call _ rfl
  whole _ := Sql.unnested_of_not_call _ rfl

theorem Compiles.flat (h : Compiles c scope tree t) : t.sql.Flat := by
  refine h.everywhere persists_unnested (fun _ y hy => ?_) (@fun _ aggregate _ t hcompiles _ _ y hy => ?_)
    fun _ _ _ _ _ _ => Sql.unnested_of_not_call _ rfl
  · rw [List.mem_singleton.mp hy]
    rfl
  · have hchildren : (aggregate.apply t).sql.children = [t.sql] := by cases aggregate <;> rfl
    rw [hchildren] at hy
    rw [List.mem_singleton.mp hy]
    exact hcompiles.hasAggregate_of_barred rfl

/-- A field is flat, and its mark misses no aggregate. Where aggregation is forbidden it calls none. -/
structure Field.Disciplined (options : Options) (field : Field) : Prop where
  flat : field.sql.Flat
  marked : field.aggregate = false → field.sql.hasAggregate = false
  barred : options.forbidAggregation = true → options.enforceAggregation = false → field.sql.hasAggregate = false

theorem readField_disciplined {text : String} {reading : FieldReading} (h : readField c text = .ok reading) :
    reading.field.Disciplined c.options := by
  obtain ⟨tree, compiled, -, hcompile, -, hfield⟩ := compiled_of_readField h
  obtain ⟨hcompiles, hflag⟩ := compiles_of_compile hcompile
  have hmarked (hmark : compiled.aggregated = false) : compiled.sql.hasAggregate = false :=
    hcompiles.hasAggregate_of_not_aggregates (hflag ▸ hmark)
  rw [hfield]
  unfold Field.aggregated
  split
  · next hsum =>
    have hmark : compiled.aggregated = false := by simp_all
    refine ⟨.call rfl hcompiles.flat (hmarked hmark), nofun, fun _ henforce => ?_⟩
    simp [henforce] at hsum
  · refine ⟨hcompiles.flat, hmarked, fun hforbid _ => ?_⟩
    exact hcompiles.hasAggregate_of_barred (by simp [Scope.isBarred, hforbid])

end ShelfQuery.Expression
