import Mathlib.Data.List.Nodup
import Mathlib.Data.List.Pairwise
import ShelfQuery.Proofs.Shelf.Building

set_option autoImplicit false

namespace ShelfQuery.Shelf

theorem Role.label_ne {role : Role} (hrole : role ≠ .value) (id : String) : role.label id ≠ id := by
  intro h
  have hlength := congrArg (fun label => label.toList.length) h
  cases role with
  | value => exact hrole rfl
  | id | orderBy => simp [Role.label, Role.suffix] at hlength

theorem Role.label_inj {role role' : Role} {id id' : String} (hrole : role ≠ .value) (hrole' : role' ≠ .value)
    (h : role.label id = role'.label id') : role = role' ∧ id = id' := by
  have hlast := congrArg (fun label => label.toList.getLast?) h
  cases role with
  | value => exact absurd rfl hrole
  | id =>
    cases role' with
    | value => exact absurd rfl hrole'
    | id => exact ⟨rfl, (String.append_left_inj _).mp ((String.append_left_inj _).mp h)⟩
    | orderBy => simp [Role.label, Role.suffix] at hlast
  | orderBy =>
    cases role' with
    | value => exact absurd rfl hrole'
    | id => simp [Role.label, Role.suffix] at hlast
    | orderBy => exact ⟨rfl, (String.append_left_inj _).mp ((String.append_left_inj _).mp h)⟩

namespace Ingredient

variable {i j : Ingredient} {label : String}

def sideLabels (i : Ingredient) : List String := i.labels.tail

theorem labels_eq (i : Ingredient) : i.labels = i.id :: i.sideLabels := rfl

theorem sideLabels_eq (i : Ingredient) :
    i.sideLabels = (i.idField.map fun _ => Role.id.label i.id).toList ++
      (i.orderByField.map fun _ => Role.orderBy.label i.id).toList := by
  cases hid : i.idField <;> cases horder : i.orderByField <;> simp [sideLabels, labels, roles, hid, horder]

theorem role_of_mem_sideLabels (h : label ∈ i.sideLabels) : ∃ role : Role, role ≠ .value ∧ label = role.label i.id := by
  rw [sideLabels_eq, List.mem_append] at h
  rcases h with h | h
  · obtain ⟨_, -, rfl⟩ := Option.map_eq_some_iff.mp (Option.mem_toList.mp h)
    exact ⟨.id, by decide, rfl⟩
  · obtain ⟨_, -, rfl⟩ := Option.map_eq_some_iff.mp (Option.mem_toList.mp h)
    exact ⟨.orderBy, by decide, rfl⟩

theorem orderByLabel_mem (h : i.orderByField.isSome = true) : Role.orderBy.label i.id ∈ i.labels := by
  obtain ⟨f, hf⟩ := Option.isSome_iff_exists.mp h
  simp [labels_eq, sideLabels_eq, hf]

theorem sortLabel_mem (i : Ingredient) : i.sortRole.label i.id ∈ i.labels := by
  unfold sortRole
  split
  · next h => exact orderByLabel_mem h
  · exact List.mem_cons_self

theorem labels_nodup (i : Ingredient) : i.labels.Nodup := by
  rw [labels_eq, List.nodup_cons]
  constructor
  · intro h
    obtain ⟨role, hrole, hid⟩ := role_of_mem_sideLabels h
    exact Role.label_ne hrole i.id hid.symm
  · have hne : Role.id.label i.id ≠ Role.orderBy.label i.id :=
      fun h => nomatch (Role.label_inj (by decide) (by decide) h).1
    rw [sideLabels_eq]
    cases i.idField <;> cases i.orderByField <;> simp [hne]

theorem labels_disjoint (hid : i.id ≠ j.id) (hi : j.id ∉ i.sideLabels) (hj : i.id ∉ j.sideLabels) :
    List.Disjoint i.labels j.labels := by
  intro label hlabel hlabel'
  rw [labels_eq, List.mem_cons] at hlabel hlabel'
  rcases hlabel with rfl | hlabel <;> rcases hlabel' with hlabel' | hlabel'
  · exact hid hlabel'
  · exact hj hlabel'
  · exact hi (hlabel' ▸ hlabel)
  · obtain ⟨role, hrole, rfl⟩ := role_of_mem_sideLabels hlabel
    obtain ⟨role', hrole', heq⟩ := role_of_mem_sideLabels hlabel'
    exact hid (Role.label_inj hrole hrole' heq).2

/-- Whether an ingredient among these is named as a role of one of them is labelled. -/
def Clash (used : List Ingredient) : Prop := ∃ i ∈ used, ∃ j ∈ used, j.id ∈ i.sideLabels

theorem flatMap_labels_nodup {used : List Ingredient} (hids : (used.map Ingredient.id).Nodup) :
    (used.flatMap Ingredient.labels).Nodup ↔ ¬ Clash used := by
  rw [List.nodup_flatMap]
  constructor
  · rintro ⟨-, hdisjoint⟩ ⟨i, hi, j, hj, hmem⟩
    have hlabel : j.id ∈ i.labels := List.mem_cons_of_mem _ hmem
    by_cases hij : i = j
    · subst hij
      exact (List.nodup_cons.mp i.labels_nodup).1 hmem
    · have hsymm : Std.Symm (Function.onFun List.Disjoint Ingredient.labels) := ⟨fun _ _ h _ ha hb => h hb ha⟩
      exact hdisjoint.forall hi hj hij hlabel (List.mem_cons_self ..)
  · intro hclash
    refine ⟨fun i _ => i.labels_nodup, ?_⟩
    refine (List.pairwise_map.mp hids).imp_of_mem fun {i j} hi hj hne => ?_
    exact labels_disjoint hne (fun h => hclash ⟨i, hi, j, hj, h⟩) fun h => hclash ⟨j, hj, i, hi, h⟩

end Ingredient

variable {s : Shelf} {id : String} {kinds : List Kind} {i : Ingredient}

theorem find_spec (h : s.find id kinds = .ok i) : i.id = id ∧ (i.kind ≠ .dimension → i.sideLabels = []) := by
  have hbuilt := built_of_find h
  refine ⟨hbuilt.named, fun hkind => ?_⟩
  have hid : i.idField = none := Option.eq_none_iff_forall_ne_some.mpr fun f hf => hkind (hbuilt.idField f hf).1
  have horder : i.orderByField = none :=
    Option.eq_none_iff_forall_ne_some.mpr fun f hf => hkind (hbuilt.orderByField f hf).1
  rw [Ingredient.sideLabels_eq, hid, horder]
  rfl

theorem map_id_of_mapM {s : Shelf} {ids : List String} {kinds : List Kind} {found : List Ingredient}
    (h : ids.mapM (fun id => s.find id kinds) = .ok found) : found.map Ingredient.id = ids := by
  have hfound := map_eq_of_mapM h
  clear h
  induction found generalizing ids with
  | nil => exact (List.map_eq_nil_iff.mp hfound).symm
  | cons i found ih =>
    obtain ⟨id, rest, rfl, hfind, hrest⟩ := List.map_eq_cons_iff.mp hfound
    rw [List.map_cons, (find_spec hfind).1, ih hrest]

end ShelfQuery.Shelf
