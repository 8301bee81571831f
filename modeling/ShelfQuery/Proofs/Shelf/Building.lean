import ShelfQuery.Proofs.Data.Except
import ShelfQuery.Shelf.Basic

set_option autoImplicit false

namespace ShelfQuery.Shelf

open ShelfQuery.Expression ShelfQuery.Schema ShelfQuery.Sql

variable {w : Workbench} {d : Definition} {s : Shelf} {id text : String} {options : Options} {f : Field} {i : Ingredient}

def Workbench.Reads (w : Workbench) (options : Options) (f : Field) : Prop :=
  ∃ text reading, readField (w.context options) text = .ok reading ∧ reading.field = f

def Workbench.ReadsCondition (w : Workbench) (sql : Sql) : Prop :=
  ∃ f, w.Reads withoutAggregation f ∧ f.datatype = .bool ∧ f.sql = sql

theorem Workbench.reads_of_field (h : w.field text options = .ok f) : w.Reads options f := by
  unfold Workbench.field at h
  cases hread : readField (w.context options) text with
  | error e => simp [hread, Except.map] at h
  | ok reading =>
    rw [hread] at h
    exact ⟨text, reading, hread, Except.ok.inj h⟩

section

variable {read : String → Options → Except IngredientError Field}
  (hread : ∀ text options f, read text options = .ok f → w.Reads options f)

include hread

theorem reads_of_compileText (h : compileText read d id text options = .ok f) : w.Reads options f := by
  unfold compileText at h
  split at h
  · exact nomatch h
  · exact hread _ _ _ h

theorem reads_of_compileRole {kind : Kind} {role : Role} {text : Option String}
    (h : compileRole read d id kind role text = .ok (some f)) : kind = .dimension ∧ w.Reads withoutAggregation f := by
  unfold compileRole at h
  split at h
  · exact nomatch h
  · split at h
    · exact nomatch h
    · next hkind =>
      obtain ⟨g, hg, h⟩ := bind_ok h
      cases h
      exact ⟨Decidable.not_not.mp hkind, reads_of_compileText hread hg⟩

theorem reads_of_compileQuickSelects {quicks : List QuickSelect} {sqls : List (String × Sql)}
    (h : compileQuickSelects read d id quicks = .ok sqls) : ∀ q ∈ sqls, w.ReadsCondition q.2 := by
  induction quicks generalizing sqls with
  | nil =>
    cases h
    nofun
  | cons q rest ih =>
    obtain ⟨f, hf, h⟩ := bind_ok h
    split at h
    · exact nomatch h
    · next hbool =>
      obtain ⟨others, hothers, h⟩ := bind_ok h
      cases h
      exact List.forall_mem_cons.mpr ⟨⟨f, reads_of_compileText hread hf, Decidable.not_not.mp hbool, rfl⟩, ih hothers⟩

end

structure Ingredient.Built (w : Workbench) (id : String) (i : Ingredient) : Prop where
  named : i.id = id
  identifier : isIdentifier i.id = true
  value : w.Reads i.kind.options i.value
  idField : ∀ f, i.idField = some f → i.kind = .dimension ∧ w.Reads withoutAggregation f
  orderByField : ∀ f, i.orderByField = some f → i.kind = .dimension ∧ w.Reads withoutAggregation f
  quickSelects : ∀ q ∈ i.quickSelects, w.ReadsCondition q.2

theorem built_of_build {spec : Spec} (h : Ingredient.build w d id spec = .ok i) : i.Built w id := by
  have hread (text : String) (options : Options) (f : Field)
      (h : (w.field text options).mapError IngredientError.expression = .ok f) : w.Reads options f :=
    Workbench.reads_of_field (ok_of_mapError h)
  unfold Ingredient.build Ingredient.compile at h
  split at h
  · exact nomatch h
  · next hname =>
    obtain ⟨kind, -, h⟩ := bind_ok h
    obtain ⟨value, hvalue, h⟩ := bind_ok h
    obtain ⟨-, -, h⟩ := bind_ok h
    obtain ⟨idField, hid, h⟩ := bind_ok h
    obtain ⟨orderByField, horder, h⟩ := bind_ok h
    obtain ⟨format, -, h⟩ := bind_ok h
    obtain ⟨quickSelects, hquick, h⟩ := bind_ok h
    cases h
    refine ⟨rfl, by simpa using hname, reads_of_compileText hread hvalue, fun f hf => ?_, fun f hf => ?_,
      reads_of_compileQuickSelects hread hquick⟩
    · cases hf
      exact reads_of_compileRole hread hid
    · cases hf
      exact reads_of_compileRole hread horder

theorem Ingredient.Built.roles (h : i.Built w id) :
    ∀ role ∈ i.roles, role.2 = i.value ∨ i.kind = .dimension ∧ w.Reads withoutAggregation role.2 := by
  intro role hrole
  simp only [Ingredient.roles, List.cons_append, List.mem_cons, List.mem_append, Option.mem_toList,
    Option.map_eq_some_iff] at hrole
  obtain rfl | ⟨f, hf, rfl⟩ | ⟨f, hf, rfl⟩ := hrole
  · exact .inl rfl
  · exact .inr (h.idField f hf)
  · exact .inr (h.orderByField f hf)

theorem get?_of_find {kinds : List Kind} (h : s.find id kinds = .ok i) : s.get? id = some (.ok i) ∧ i.kind ∈ kinds := by
  unfold Shelf.find at h
  cases hentry : s.definition.find? id with
  | none =>
    rw [hentry] at h
    exact nomatch h
  | some entry =>
    rw [hentry] at h
    rw [Shelf.get?, hentry, Option.map_some]
    cases houtcome : s.compileEntry id entry with
    | error e =>
      simp only [Option.map_some, houtcome, Shelf.pick] at h
      split at h
      · split at h <;> exact nomatch h
      · exact nomatch h
    | ok j =>
      simp only [Option.map_some, houtcome, Shelf.pick, Shelf.kindOf] at h
      split at h
      · next hkind =>
        cases h
        exact ⟨rfl, by simpa using hkind⟩
      · exact nomatch h

theorem built_of_find {kinds : List Kind} (h : s.find id kinds = .ok i) : i.Built s.bench id := by
  obtain ⟨entry, -, hentry⟩ := Option.map_eq_some_iff.mp (get?_of_find h).1
  exact built_of_build hentry

theorem reads_of_parse (h : s.parse text options = .ok f) : s.bench.Reads options f := by
  unfold Shelf.parse Shelf.parseWith at h
  split at h
  · split at h
    · exact Workbench.reads_of_field (ok_of_mapError h)
    · exact nomatch h
  · exact Workbench.reads_of_field (ok_of_mapError h)

theorem isIdentifier_of_find {kinds : List Kind} (h : s.find id kinds = .ok i) : isIdentifier i.id = true :=
  (built_of_find h).identifier

end ShelfQuery.Shelf
