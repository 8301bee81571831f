import ShelfQuery.Proofs.Compiler.MachineNumbers
import ShelfQuery.Proofs.Compiler.Preservation
import ShelfQuery.Proofs.Sql.Reader.Rendering

set_option autoImplicit false

namespace ShelfQuery.Sql

def IsMachine : Sql → Prop
  | .literal l => l.isMachine = true
  | .percentile _ _ => False
  | _ => True

/-- What is asked of the schema and of the constants: names that need no quotes and digits that stand
for their number. -/
def IsReadable : Sql → Prop
  | .column _ name => isBareName name = true
  | .literal l => l.keepsDigits = true
  | _ => True

end ShelfQuery.Sql

namespace ShelfQuery.Expression

open ShelfQuery.Sql ShelfQuery.Schema ShelfQuery.Number

theorem persists_isMachine : Persists Sql.IsMachine where
  other x hcall hnumber := by
    cases x with
    | literal l => exact persists_machineNumber.other _ hcall hnumber
    | percentile => exact nomatch hcall
    | _ => trivial
  zero := persists_machineNumber.zero
  negated := persists_machineNumber.negated
  folded := persists_machineNumber.folded
  whole := persists_machineNumber.whole

variable {c : Context} {scope : Scope}

theorem Compiles.machine (hdialect : c.dialect = .sqlite) {tree : Tree} {t : Typed} (h : Compiles c scope tree t)
    (hwords : tree.Everywhere Tree.HasWord) : t.sql.Everywhere Sql.IsMachine := by
  refine h.everywhere persists_isMachine trivial (@fun _ aggregate _ _ _ hfaults => ?_)
    fun y hy pos value hvalue hfinite => ?_
  · cases aggregate with
    | percentile | median => simp [aggregateFaults, hdialect] at hfaults
    | _ => trivial
  · subst hvalue
    exact isMachine_constant (hwords _ hy) hfinite

theorem legible_of_wellTyped {schema : Table} {k : ValueClass} {x : Sql} (hx : x.WellTyped schema k)
    (htable : Reader.NamesTable schema.name) (hmachine : x.Everywhere Sql.IsMachine)
    (hreadable : x.Everywhere Sql.IsReadable) : x.Everywhere Sql.IsLegible := by
  intro y hy
  rcases hx.within hy with rfl | hwt
  · trivial
  · have hnumber := hmachine y hy
    have hname := hreadable y hy
    cases y with
    | column table name => exact ⟨hwt.table_of_column ▸ htable, hname⟩
    | literal l => exact ⟨hnumber, hname⟩
    | total table arg => exact hwt.table_of_total ▸ htable
    | percentile => exact hnumber
    | _ => trivial

/-- The text of a compiled expression, with conditions that its totals repeat, is read as an
expression that has its value in every database. -/
theorem Tree.read_render {c : Context} {tree : Tree} {compiled : Compiled} {conditions : List Sql}
    (hdialect : c.dialect = .sqlite) (hcompile : tree.compile c = .ok compiled) (hwords : tree.Everywhere Tree.HasWord)
    (htable : Reader.NamesTable c.schema.name) (hreadable : compiled.sql.Everywhere Sql.IsReadable)
    (hconditions : ∀ x ∈ conditions, x.WellTyped c.schema .bool ∧ x.Everywhere Sql.IsLegible) :
    ∃ e, Reader.read (compiled.sql.render ⟨.sqlite, conditions.map (Sql.renderConjunct ⟨.sqlite, []⟩)⟩) = some e ∧
      ∀ d : Reader.Database, d.Conforms c.schema → ∀ s : Reader.Scope, s.Conforms c.schema →
        e.eval d s = compiled.sql.eval d.primitives (d.frame conditions s) := by
  obtain ⟨hcompiles, -⟩ := compiles_of_compile hcompile
  have hlegible := legible_of_wellTyped hcompiles.wellTyped htable (hcompiles.machine hdialect hwords) hreadable
  have halone : Reader.Repeats c.schema [] ⟨.sqlite, []⟩ := Reader.repeats_conditions nofun
  have hrepeats := Reader.repeats_conditions fun x hx =>
    Reader.renders_of_wellTyped halone (hconditions x hx).1 (hconditions x hx).2
  obtain ⟨e, hreads, hagrees⟩ := (Reader.renders_of_wellTyped hrepeats hcompiles.wellTyped hlegible).argument
  exact ⟨e, Reader.read_of_reads hreads, hagrees.value⟩

/-- Two signs and a total that repeats a condition, on the right of a minus. -/
theorem Tree.read_render_signs :
    let tree : Tree := .arith 0 .sub (.column 0 "score") (.arith 0 .sub (.neg 0 (.neg 0 (.column 0 "score")))
      (.total 0 (.call 0 "sum" [.column 0 "score"])))
    let score : Sql := .column "scores" "score"
    let sql : Sql := .arith .sub score (.arith .sub (.neg (.neg score)) (.total "scores" (.func "sum" [score])))
    let condition : Sql := .compare .gt score (.literal (.int (-3)))
    tree.compile scores = .ok ⟨sql, .num, false, true, false⟩ ∧
      ∃ e, Reader.read ("scores.score - (-(-scores.score) - " ++
        "(SELECT sum(scores.score) FROM scores WHERE scores.score > -3))") = some e ∧
        ∀ d : Reader.Database, d.Conforms scores.schema → ∀ s : Reader.Scope, s.Conforms scores.schema →
          e.eval d s = sql.eval d.primitives (d.frame [condition] s) := by
  intro tree score sql condition
  have hcompile : tree.compile scores = .ok ⟨sql, .num, false, true, false⟩ := by rfl
  refine ⟨hcompile, ?_⟩
  have hwords : tree.Everywhere Tree.HasWord := by
    have hone {x y : Tree} (hx : x.HasWord) (hchildren : x.children = [y]) (hy : y.Everywhere Tree.HasWord) :
        x.Everywhere Tree.HasWord := Tree.everywhere_iff.mpr ⟨hx, hchildren ▸ List.forall_mem_singleton.mpr hy⟩
    have hsub {x y : Tree} (hx : x.Everywhere Tree.HasWord) (hy : y.Everywhere Tree.HasWord) :
        (Tree.arith 0 .sub x y).Everywhere Tree.HasWord :=
      Tree.everywhere_iff.mpr ⟨trivial, by simpa [Tree.children] using ⟨hx, hy⟩⟩
    have hscore : (Tree.column 0 "score").Everywhere Tree.HasWord := Tree.everywhere_iff.mpr ⟨trivial, List.forall_mem_nil _⟩
    exact hsub hscore (hsub (hone trivial rfl (hone trivial rfl hscore)) (hone trivial rfl (hone trivial rfl hscore)))
  have hbare : isBareName "score" = true := by decide +kernel
  have htable : Reader.NamesTable "scores" := .bare (by decide +kernel)
  have hreadable : sql.Everywhere Sql.IsReadable := by
    have hone {x y : Sql} (hx : x.IsReadable) (hchildren : x.children = [y]) (hy : y.Everywhere Sql.IsReadable) :
        x.Everywhere Sql.IsReadable := Sql.everywhere_iff.mpr ⟨hx, hchildren ▸ List.forall_mem_singleton.mpr hy⟩
    have hsub {x y : Sql} (hx : x.Everywhere Sql.IsReadable) (hy : y.Everywhere Sql.IsReadable) :
        (Sql.arith .sub x y).Everywhere Sql.IsReadable :=
      Sql.everywhere_iff.mpr ⟨trivial, by simpa [Sql.children] using ⟨hx, hy⟩⟩
    have hscore : score.Everywhere Sql.IsReadable := Sql.everywhere_iff.mpr ⟨hbare, List.forall_mem_nil _⟩
    exact hsub hscore (hsub (hone trivial rfl (hone trivial rfl hscore)) (hone trivial rfl (hone trivial rfl hscore)))
  have hcondition : condition.WellTyped scores.schema .bool ∧ condition.Everywhere Sql.IsLegible := by
    have hidentifier : isIdentifier "score" = true := by decide +kernel
    have hscore : score.WellTyped scores.schema .num :=
      @Sql.WellTyped.column scores.schema ⟨"score", .num⟩ (.head _) hidentifier rfl
    refine ⟨.compare hscore.any (Sql.WellTyped.literal _).any, Sql.everywhere_iff.mpr ⟨trivial, ?_⟩⟩
    have hname : score.Everywhere Sql.IsLegible := Sql.everywhere_iff.mpr ⟨⟨htable, hbare⟩, List.forall_mem_nil _⟩
    have hnumber : (Sql.literal (.int (-3))).Everywhere Sql.IsLegible := Sql.everywhere_iff.mpr ⟨⟨rfl, rfl⟩, List.forall_mem_nil _⟩
    simpa [condition, Sql.children] using ⟨hname, hnumber⟩
  have hread := Tree.read_render rfl hcompile hwords htable hreadable (List.forall_mem_singleton.mpr hcondition)
  exact hread

end ShelfQuery.Expression
