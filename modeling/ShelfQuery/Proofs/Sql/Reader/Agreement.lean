import Mathlib.Data.List.Forall2
import ShelfQuery.Proofs.Sql.Reader.Meaning

set_option autoImplicit false

namespace ShelfQuery.Sql.Reader

open ShelfQuery.Schema
open ShelfQuery.Engine (allTrue anyTrue notTrue)

variable {row : Row} {es : List Expr} {whens : List (Sql × Sql)} {ws : List (Expr × Expr)}

variable {schema : Table} {conditions : List Sql}

theorem Scope.Conforms.onRow {s : Scope} (h : s.Conforms schema) (hrow : row.Conforms schema) :
    (s.onRow row).Conforms schema := by
  refine ⟨h.table, h.group, ?_⟩
  rintro row' ⟨⟩
  exact hrow

theorem mem_rows_of_mem_kept {d : Database} {table : String} (h : row ∈ d.kept table conditions) :
    row ∈ d.rows table := (List.mem_filter.mp h).1

theorem Database.Conforms.kept {d : Database} (h : d.Conforms schema) :
    ∀ row ∈ d.kept schema.name conditions, row.Conforms schema :=
  fun row hrow => h.rows row (mem_rows_of_mem_kept hrow)

theorem Database.Conforms.frame {d : Database} (h : d.Conforms schema) {s : Scope} (hs : s.Conforms schema) :
    (d.frame conditions s).Conforms schema := by
  refine ⟨?_, hs.group, hs.row⟩
  rw [Database.frame, hs.table]
  exact h.kept

theorem Database.Conforms.scope {d : Database} (h : d.Conforms schema) (hrow : row ∈ d.rows schema.name) :
    (⟨schema.name, d.rows schema.name, some row⟩ : Scope).Conforms schema :=
  ⟨rfl, h.rows, fun _ hr => Option.some.inj hr ▸ h.rows row hrow⟩

/-- Without conditions, totals range over all rows. -/
theorem Database.kept_nil (d : Database) (table : String) : d.kept table [] = d.rows table := by
  simp [Database.kept]

theorem anyAggregate_eq {xs : List Sql} (h : List.Forall₂ (Agrees schema conditions) xs es) :
    anyAggregate es = Sql.anyAggregate xs := by
  induction h with
  | nil => rfl
  | cons hxe _ ih => rw [anyAggregate, Sql.anyAggregate, hxe.aggregate, ih]

section

variable {d : Database} {s : Scope} (hs : s.Conforms schema)

include hs

theorem evalAll_eq (hd : d.Conforms schema) {xs : List Sql} (h : List.Forall₂ (Agrees schema conditions) xs es) :
    evalAll d s es = Sql.evalAll d.primitives (d.frame conditions s) xs := by
  induction h with
  | nil => rfl
  | cons hxe _ ih => rw [evalAll, Sql.evalAll, hxe.value d hd s hs, ih]

theorem group_eq {f : Scope → Value} {g : Frame → Value}
    (h : ∀ s : Scope, s.Conforms schema → f s = g (d.frame conditions s)) :
    (s.group.map fun row => f (s.onRow row)) =
      ((d.frame conditions s).group.map fun row => g ((d.frame conditions s).onRow row)) :=
  List.map_congr_left fun row hrow => h (s.onRow row) (hs.onRow (hs.group row hrow))

end

def WhensAgree (schema : Table) (conditions : List Sql) : List (Sql × Sql) → List (Expr × Expr) → Prop :=
  List.Forall₂ fun x w => Agrees schema conditions x.1 w.1 ∧ Agrees schema conditions x.2 w.2

theorem anyAggregateWhen_eq
    (h : WhensAgree schema conditions whens ws) : anyAggregateWhen ws = Sql.anyAggregateWhen whens := by
  induction h with
  | nil => rfl
  | cons hw _ ih => rw [anyAggregateWhen, Sql.anyAggregateWhen, hw.1.aggregate, hw.2.aggregate, ih]

theorem evalWhens_eq {d : Database} (hd : d.Conforms schema) {s : Scope} (hs : s.Conforms schema)
    (h : WhensAgree schema conditions whens ws) :
    evalWhens d s ws = Sql.evalWhens d.primitives (d.frame conditions s) whens := by
  induction h with
  | nil => rfl
  | cons hw _ ih => rw [evalWhens, Sql.evalWhens, hw.1.value d hd s hs, hw.2.value d hd s hs, ih]

namespace Agrees

variable {x y z : Sql} {e e' e'' : Expr}

theorem literal {l l' : Literal} (h : l'.value = l.value) : Agrees schema conditions (.literal l) (.literal l') :=
  ⟨rfl, fun _ _ _ _ => h⟩

theorem column (name : String) : Agrees schema conditions (.column schema.name name) (.column schema.name name) := by
  refine ⟨rfl, fun d _ s hs => ?_⟩
  change s.column schema.name name = _
  rw [Scope.column, if_pos hs.table]
  rfl

theorem arith (op : ArithOp) (hx : Agrees schema conditions x e) (hy : Agrees schema conditions y e') :
    Agrees schema conditions (.arith op x y) (.arith op e e') :=
  ⟨congrArg₂ or hx.aggregate hy.aggregate,
    fun d hd s hs => congrArg₂ (d.primitives.arith op) (hx.value d hd s hs) (hy.value d hd s hs)⟩

theorem compare (op : CompareOp) (hx : Agrees schema conditions x e) (hy : Agrees schema conditions y e') :
    Agrees schema conditions (.compare op x y) (.compare op e e') :=
  ⟨congrArg₂ or hx.aggregate hy.aggregate,
    fun d hd s hs =>
      congrArg₂ (fun v w => Value.ofTruth (d.primitives.holds op v w)) (hx.value d hd s hs) (hy.value d hd s hs)⟩

theorem not (hx : Agrees schema conditions x e) : Agrees schema conditions (.not x) (.not e) :=
  ⟨hx.aggregate, fun d hd s hs =>
    congrArg (fun v => Value.ofTruth (notTrue (d.primitives.truth v))) (hx.value d hd s hs)⟩

theorem neg (hx : Agrees schema conditions x e) : Agrees schema conditions (.neg x) (.neg e) :=
  ⟨hx.aggregate, fun d hd s hs => congrArg (d.primitives.arith .sub (.num 0)) (hx.value d hd s hs)⟩

theorem isNull (hx : Agrees schema conditions x e) (negated : Bool) :
    Agrees schema conditions (.isNull x negated) (.isNull e negated) :=
  ⟨hx.aggregate, fun d hd s hs =>
    congrArg (fun v : Value => Value.ofTruth (some (v.isNull != negated))) (hx.value d hd s hs)⟩

theorem between (hx : Agrees schema conditions x e) (hy : Agrees schema conditions y e')
    (hz : Agrees schema conditions z e'') : Agrees schema conditions (.between x y z) (.between e e' e'') :=
  ⟨congrArg₂ or (congrArg₂ or hx.aggregate hy.aggregate) hz.aggregate, fun d hd s hs =>
    congrArg₂ (fun a b => Value.ofTruth (allTrue [a, b]))
      (congrArg₂ (d.primitives.holds .ge) (hx.value d hd s hs) (hy.value d hd s hs))
      (congrArg₂ (d.primitives.holds .le) (hx.value d hd s hs) (hz.value d hd s hs))⟩

theorem cast (hx : Agrees schema conditions x e) (type : CastType) :
    Agrees schema conditions (.cast x type) (.cast e type) :=
  ⟨hx.aggregate, fun d hd s hs => congrArg (d.primitives.castTo type) (hx.value d hd s hs)⟩

theorem inList {items : List Sql} (hx : Agrees schema conditions x e)
    (hitems : List.Forall₂ (Agrees schema conditions) items es) (negated : Bool) :
    Agrees schema conditions (.inList x items negated) (.inList e es negated) :=
  ⟨congrArg₂ or hx.aggregate (anyAggregate_eq hitems), fun d hd s hs =>
    congrArg (fun found => Value.ofTruth (if negated then notTrue found else found))
      (congrArg₂ (fun v vs => anyTrue (vs.map (d.primitives.holds .eq v))) (hx.value d hd s hs)
        (evalAll_eq hs hd hitems))⟩

theorem case {otherwise : Option Sql} {o : Option Expr}
    (hwhens : WhensAgree schema conditions whens ws) (helse : Option.Rel (Agrees schema conditions) otherwise o) :
    Agrees schema conditions (.case whens otherwise) (.case ws o) := by
  cases helse with
  | none =>
    exact ⟨congrArg (· || false) (anyAggregateWhen_eq hwhens),
      fun d hd s hs => congrArg (Option.getD · Value.null) (evalWhens_eq hd hs hwhens)⟩
  | some h =>
    exact ⟨congrArg₂ or (anyAggregateWhen_eq hwhens) h.aggregate,
      fun d hd s hs => congrArg₂ Option.getD (evalWhens_eq hd hs hwhens) (h.value d hd s hs)⟩

theorem call (name : String) {args : List Sql} (h : List.Forall₂ (Agrees schema conditions) args es) :
    Agrees schema conditions (.func name args) (.call name es) := by
  refine ⟨congrArg (isAggregateName name || ·) (anyAggregate_eq h), fun d hd s hs => ?_⟩
  have hhead (s : Scope) (hs : s.Conforms schema) : (evalAll d s es).headD .null =
      (Sql.evalAll d.primitives (d.frame conditions s) args).headD .null := by rw [evalAll_eq hs hd h]
  have hgroup := group_eq hs (f := fun s => (evalAll d s es).headD .null)
    (g := fun f => (Sql.evalAll d.primitives f args).headD .null) hhead
  change (if isAggregateName name then _ else _) = if isAggregateName name then _ else _
  split
  · exact congrArg (d.primitives.aggregate name) hgroup
  · exact congrArg (fun vs => if name = "coalesce" then .first vs else d.primitives.call name vs) (evalAll_eq hs hd h)

theorem countAll : Agrees schema conditions (.func "count" [.star]) (.call "count" [.star]) :=
  ⟨rfl, fun _ _ _ _ => rfl⟩

theorem countDistinct (hx : Agrees schema conditions x e) :
    Agrees schema conditions (.countDistinct x) (.countDistinct e) := by
  refine ⟨rfl, fun d hd s hs => ?_⟩
  exact congrArg d.primitives.countDistinct (group_eq hs (f := e.eval d) (g := x.eval d.primitives) (hx.value d hd))

end Agrees

end ShelfQuery.Sql.Reader
