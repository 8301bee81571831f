import ShelfQuery.Proofs.Sql.Parts
import ShelfQuery.Proofs.Sql.WellTyped
import ShelfQuery.Proofs.Text.Words
import ShelfQuery.Sql.Render

set_option autoImplicit false

namespace ShelfQuery.Sql

open ShelfQuery.Text ShelfQuery.Schema

variable {schema : Table} {k : ValueClass}

section

variable {s : Setting} {x y : Sql}

theorem occurs_guard (child : Sql) (parent : Nat) (strict : Bool) (text : String) :
    Occurs text (guard child parent strict text) := by
  unfold guard
  split
  · exact .left (.right _ (.refl text)) _
  · exact .refl text

theorem renderAll_eq (s : Setting) (items : List Sql) : renderAll s items = items.map (render s) := by
  induction items with
  | nil => rfl
  | cons item rest ih => rw [renderAll, ih, List.map_cons]

theorem renderGuarded_eq (s : Setting) (parent : Nat) (items : List Sql) :
    renderGuarded s parent items = items.map fun item => guard item parent false (item.render s) := by
  induction items with
  | nil => rfl
  | cons item rest ih => rw [renderGuarded, ih, List.map_cons]

theorem occurs_renderAll {items : List Sql} (sep : String) (h : y ∈ items) :
    Occurs (y.render s) (join sep (renderAll s items)) := by
  rw [renderAll_eq]
  exact occurs_join sep (List.mem_map_of_mem h)

theorem occurs_renderGuarded {items : List Sql} (sep : String) (parent : Nat) (h : y ∈ items) :
    Occurs (y.render s) (join sep (renderGuarded s parent items)) := by
  rw [renderGuarded_eq]
  exact (occurs_guard ..).trans (occurs_join sep (List.mem_map_of_mem h))

theorem occurs_renderWhens {whens : List (Sql × Sql)} {w : Sql × Sql} (hw : w ∈ whens) :
    Occurs (w.1.render s) (String.join (renderWhens s whens)) ∧
      Occurs (w.2.render s) (String.join (renderWhens s whens)) := by
  induction whens with
  | nil => exact nomatch hw
  | cons first rest ih =>
    rw [renderWhens, String.join_cons]
    rcases List.mem_cons.mp hw with rfl | hw
    · exact ⟨.left (.left (.left (.right _ (occurs_guard ..)) _) _) _, .left (.right _ (.refl _)) _⟩
    · exact ⟨.right _ (ih hw).1, .right _ (ih hw).2⟩

theorem occurs_renderTrunc (unit : TruncUnit) (arg : String) (datetime : Bool) (dialect : Dialect) :
    Occurs arg (renderTrunc unit arg datetime dialect) := by
  have hcall (lead rest : String) : Occurs arg (lead ++ arg ++ rest) :=
    .left (.right lead (.refl arg)) rest
  cases dialect with
  | postgresql => exact hcall ..
  | bigquery =>
    unfold renderTrunc
    cases datetime with
    | false => exact .left (.left (hcall ..) _) _
    | true => exact .left (.left (hcall ..) _) _
  | sqlite =>
    cases unit with
    | quarter => exact .left (.left (hcall ..) _) _
    | _ => exact hcall ..

theorem occurs_renderPercentile (n : Nat) (arg : String) (dialect : Dialect) :
    Occurs arg (renderPercentile n arg dialect) := by
  cases dialect with
  | bigquery => exact .left (.left (.left (.right _ (.refl arg)) _) _) _
  | _ => exact .left (.right _ (.refl arg)) _

theorem occurs_child (h : y ∈ x.children) : Occurs (y.render s) (x.render s) := by
  have hguard (child : Sql) (parent : Nat) (strict : Bool) :
      Occurs (child.render s) (guard child parent strict (child.render s)) := occurs_guard ..
  cases x with
  | column | literal | star => exact nomatch h
  | arith op left right | compare op left right =>
    simp only [children, List.mem_cons, List.not_mem_nil, or_false] at h
    rcases h with rfl | rfl
    · exact .left (.left (.left (.left (hguard ..) _) _) _) _
    · exact .right _ (hguard ..)
  | and items | or items =>
    exact occurs_renderGuarded _ _ h
  | not arg | neg arg =>
    rw [List.mem_singleton.mp h]
    exact .right _ (hguard ..)
  | isNull arg negated =>
    rw [List.mem_singleton.mp h]
    exact .left (.left (.left (hguard ..) _) _) _
  | inList arg items negated =>
    rcases List.mem_cons.mp h with rfl | h
    · have harg := hguard y 5 true
      cases negated with
      | false => exact .left (.left (.left harg _) _) _
      | true => exact .left (.left (.left (.right _ harg) _) _) _
    · have hlist := occurs_renderAll (s := s) ", " h
      cases negated with
      | false => exact .left (.right _ hlist) _
      | true => exact .left (.right _ hlist) _
  | between arg low high =>
    simp only [children, List.mem_cons, List.not_mem_nil, or_false] at h
    rcases h with rfl | rfl | rfl
    · exact .left (.left (.left (.left (hguard ..) _) _) _) _
    · exact .left (.left (.right _ (hguard ..)) _) _
    · exact .right _ (hguard ..)
  | cast arg type =>
    rw [List.mem_singleton.mp h]
    exact .left (.left (.left (.right _ (.refl _)) _) _) _
  | case whens otherwise =>
    rcases List.mem_append.mp h with h | h
    · obtain ⟨w, hw, hy⟩ := List.mem_flatMap.mp h
      simp only [List.mem_cons, List.not_mem_nil, or_false] at hy
      rcases hy with rfl | rfl
      · exact .left (.left (.right _ (occurs_renderWhens hw).1) _) _
      · exact .left (.left (.right _ (occurs_renderWhens hw).2) _) _
    · rw [Option.mem_toList.mp h]
      exact .left (.right _ (.right _ (.refl _))) _
  | func name args =>
    exact .left (.right _ (occurs_renderAll _ h)) _
  | countDistinct arg =>
    rw [List.mem_singleton.mp h]
    exact .left (.right _ (hguard ..)) _
  | dateTrunc unit arg datetime =>
    rw [List.mem_singleton.mp h]
    exact occurs_renderTrunc ..
  | percentile n arg =>
    rw [List.mem_singleton.mp h]
    exact occurs_renderPercentile ..
  | total table arg =>
    rw [List.mem_singleton.mp h]
    exact .left (.left (.left (.left (.right _ (.refl _)) _) _) _) _

theorem occurs_of_within (h : x.Within y) : Occurs (y.render s) (x.render s) := by
  induction h with
  | self => exact .refl _
  | step hchild _ ih => exact ih.trans (occurs_child hchild)

theorem WellTyped.child (h : WellTyped schema k x) (hy : y ∈ x.children) : y = .star ∨ WellTyped schema .any y := by
  induction h with
  | weaken _ _ ih => exact ih hy
  | column | literal => exact nomatch hy
  | countAll => exact .inl (List.mem_singleton.mp hy)
  | number _ hl hr | addNull hl hr | concat hl hr | compare hl hr =>
    simp only [children, List.mem_cons, List.not_mem_nil, or_false] at hy
    rcases hy with rfl | rfl
    · exact .inr hl.any
    · exact .inr hr.any
  | and _ hitems | or _ hitems | coalesce _ hitems => exact .inr (hitems y hy).any
  | scalar _ _ hargs => exact .inr (hargs y hy)
  | inList hx hitems =>
    rcases List.mem_cons.mp hy with rfl | hy
    · exact .inr hx
    · exact .inr (hitems y hy)
  | between hx hlow hhigh =>
    simp only [children, List.mem_cons, List.not_mem_nil, or_false] at hy
    rcases hy with rfl | rfl | rfl
    · exact .inr hx
    · exact .inr hlow
    · exact .inr hhigh
  | case _ hconditions hvalues hotherwise =>
    rcases List.mem_append.mp hy with hy | hy
    · obtain ⟨w, hw, hy⟩ := List.mem_flatMap.mp hy
      simp only [List.mem_cons, List.not_mem_nil, or_false] at hy
      rcases hy with rfl | rfl
      · exact .inr (hconditions w hw).any
      · exact .inr (hvalues w hw).any
    · exact .inr (hotherwise y (Option.mem_toList.mp hy)).any
  | neg hx _ | not hx _ | isNull hx | castFloat hx | castText hx | castInt hx | sum _ hx | extremum _ hx | count hx
  | countDistinct hx | percentile hx | dateTrunc hx | total hx =>
    rw [List.mem_singleton.mp hy]
    exact .inr hx.any

theorem WellTyped.within (h : WellTyped schema k x) (hy : x.Within y) : y = .star ∨ WellTyped schema .any y := by
  induction hy generalizing k with
  | self => exact .inr h.any
  | step hchild hwithin ih =>
    rcases h.child hchild with rfl | hy
    · cases hwithin with
      | self => exact .inl rfl
      | step hnone => exact nomatch hnone
    · exact ih hy

theorem WellTyped.table_of_column {table name : String}
    (h : WellTyped schema k (.column table name)) : table = schema.name := by
  generalize hx : Sql.column table name = x at h
  induction h with
  | weaken _ _ ih => exact ih hx
  | column => exact (Sql.column.inj hx).1
  | _ => exact nomatch hx

theorem WellTyped.table_of_total {table : String} {arg : Sql}
    (h : WellTyped schema k (.total table arg)) : table = schema.name := by
  generalize hx : Sql.total table arg = x at h
  induction h with
  | weaken _ _ ih => exact ih hx
  | total => exact (Sql.total.inj hx).1
  | _ => exact nomatch hx

end

end ShelfQuery.Sql
