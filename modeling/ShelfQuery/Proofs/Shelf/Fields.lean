import ShelfQuery.Proofs.Compiler.Nesting
import ShelfQuery.Proofs.Shelf.Building

set_option autoImplicit false

namespace ShelfQuery.Shelf

open ShelfQuery.Expression ShelfQuery.Sql

variable {w : Workbench} {id : String} {options : Options}

theorem Workbench.Reads.disciplined {f : Field} (h : w.Reads options f) : f.Disciplined options := by
  obtain ⟨text, reading, hread, rfl⟩ := h
  exact readField_disciplined hread

theorem Workbench.Reads.plain {f : Field} (h : w.Reads withoutAggregation f) : f.sql.Plain :=
  ⟨h.disciplined.flat, h.disciplined.barred rfl rfl⟩

theorem Workbench.ReadsCondition.plain {sql : Sql} (h : w.ReadsCondition sql) : sql.Plain := by
  obtain ⟨f, hf, -, rfl⟩ := h
  exact hf.plain

theorem Ingredient.Built.roles_plain {i : Ingredient} (h : i.Built w id) (hkind : i.kind = .dimension) :
    ∀ role ∈ i.roles, role.2.sql.Plain := by
  have hvalue : w.Reads withoutAggregation i.value := by
    have hvalue := h.value
    rw [hkind] at hvalue
    exact hvalue
  intro role hrole
  rcases h.roles role hrole with hrole | ⟨-, hrole⟩
  · exact hrole ▸ hvalue.plain
  · exact hrole.plain

theorem Workbench.Reads.wellTyped {f : Field} (h : w.Reads options f) : f.sql.WellTyped w.schema .any := by
  obtain ⟨text, reading, hread, rfl⟩ := h
  exact (readField_wellTyped hread).2.2.any

theorem Workbench.Reads.condition {f : Field} (h : w.Reads options f) (hbool : f.datatype = .bool) :
    f.sql.WellTyped w.schema .bool := by
  obtain ⟨text, reading, hread, rfl⟩ := h
  obtain ⟨-, hdatatype, htyped⟩ := readField_wellTyped hread
  rw [hbool] at hdatatype
  have htype : reading.type = .bool := by
    cases htype : reading.type <;> simp [htype, ValueType.dataType?] at hdatatype ⊢
  rw [htype] at htyped
  exact htyped

theorem Workbench.ReadsCondition.wellTyped {sql : Sql} (h : w.ReadsCondition sql) : sql.WellTyped w.schema .bool := by
  obtain ⟨f, hf, hbool, rfl⟩ := h
  exact hf.condition hbool

theorem find_wellTyped {s : Shelf} {i : Ingredient} {kinds : List Kind} (h : s.find id kinds = .ok i) :
    ∀ role ∈ i.roles, role.2.sql.WellTyped s.bench.schema .any := by
  have hbuilt := built_of_find h
  intro role hrole
  rcases hbuilt.roles role hrole with hrole | ⟨-, hrole⟩
  · exact hrole ▸ hbuilt.value.wellTyped
  · exact hrole.wellTyped

end ShelfQuery.Shelf
