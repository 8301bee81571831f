import Mathlib.Data.List.Forall2
import ShelfQuery.Recipe.Enchant

set_option autoImplicit false

namespace ShelfQuery.Recipe

open ShelfQuery.Rows ShelfQuery.Shelf

/-- The same cells in all places that are not in `P`. -/
structure SameOutside (P : Nat → Prop) (cells cells' : List Cell) : Prop where
  length : cells.length = cells'.length
  shown : ∀ p, ¬ P p → cells[p]? = cells'[p]?

/-- The same cells, except that in places in `P` only their digests are the same. -/
structure SameBut (P : Nat → Prop) (cells cells' : List Cell) : Prop extends SameOutside P cells cells' where
  digested : ∀ p, P p → cells[p]?.map anonymized = cells'[p]?.map anonymized

namespace SameBut

variable {P Q : Nat → Prop} {p : Nat} {cells cells' : List Cell}

theorem eq (h : SameBut P cells cells') (hP : ∀ p, ¬ P p) : cells = cells' :=
  List.ext_getElem? fun p => h.shown p (hP p)

theorem congr (h : SameBut P cells cells') (hP : ∀ p, P p ↔ Q p) : SameBut Q cells cells' :=
  ⟨⟨h.length, fun p hp => h.shown p (mt (hP p).mp hp)⟩, fun p hp => h.digested p ((hP p).mpr hp)⟩

theorem modify (h : SameBut (fun q => q = p ∨ P q) cells cells') :
    SameBut P (cells.modify p anonymized) (cells'.modify p anonymized) := by
  have hp : cells[p]?.map anonymized = cells'[p]?.map anonymized := h.digested p (.inl rfl)
  refine ⟨⟨by simpa using h.length, fun q hq => ?_⟩, fun q hq => ?_⟩
  · by_cases hqp : q = p
    · subst hqp
      simpa using hp
    · have hcell := h.shown q (by simp [hqp, hq])
      simp [Ne.symm hqp, hcell]
  · by_cases hqp : q = p
    · subst hqp
      simp [hp]
    · have hcell := h.digested q (.inr hq)
      simpa [Ne.symm hqp] using hcell

end SameBut

section

variable {columns : List String} {cells cells' : List Cell} {i : Ingredient} {hidden : List Ingredient} {p : Nat}

theorem anonymizeColumn_of_some (h : columns.findIdx? (· == i.id) = some p) :
    anonymizeColumn ⟨columns, cells⟩ i = ⟨columns, cells.modify p anonymized⟩ := by
  have hposition (cells : List Cell) : Row.position? ⟨columns, cells⟩ i.id = some p := h
  simp only [anonymizeColumn, Row.get?, Row.set, hposition, Option.bind_some]
  cases hcell : cells[p]? with
  | none => rw [List.modify_eq_self (List.getElem?_eq_none_iff.mp hcell)]
  | some cell => rw [List.modify_eq_set_getElem?, hcell]; rfl

theorem anonymizeColumn_of_none (h : columns.findIdx? (· == i.id) = none) :
    anonymizeColumn ⟨columns, cells⟩ i = ⟨columns, cells⟩ := by
  have hposition : Row.position? ⟨columns, cells⟩ i.id = none := h
  simp [anonymizeColumn, Row.get?, hposition]

/-- Places where digests of the ingredients are put. -/
def Replaced (columns : List String) (hidden : List Ingredient) (p : Nat) : Prop :=
  ∃ i ∈ hidden, columns.findIdx? (· == i.id) = some p

theorem replaced_cons_of_some (h : columns.findIdx? (· == i.id) = some p) (q : Nat) :
    Replaced columns (i :: hidden) q ↔ q = p ∨ Replaced columns hidden q := by
  simp [Replaced, h, eq_comm]

theorem replaced_cons_of_none (h : columns.findIdx? (· == i.id) = none) (q : Nat) :
    Replaced columns (i :: hidden) q ↔ Replaced columns hidden q := by
  simp [Replaced, h]

theorem foldl_anonymizeColumn_congr (h : SameBut (Replaced columns hidden) cells cells') :
    hidden.foldl anonymizeColumn ⟨columns, cells⟩ = hidden.foldl anonymizeColumn ⟨columns, cells'⟩ := by
  induction hidden generalizing cells cells' with
  | nil => rw [h.eq (by simp [Replaced])]
  | cons i rest ih =>
    cases hposition : columns.findIdx? (· == i.id) with
    | none =>
      rw [List.foldl_cons, List.foldl_cons, anonymizeColumn_of_none hposition, anonymizeColumn_of_none hposition]
      exact ih (h.congr (replaced_cons_of_none hposition))
    | some p =>
      rw [List.foldl_cons, List.foldl_cons, anonymizeColumn_of_some hposition, anonymizeColumn_of_some hposition]
      exact ih (h.congr (replaced_cons_of_some hposition)).modify

theorem foldl_anonymizeColumn_shows (columns : List String) (cells : List Cell) (hidden : List Ingredient) :
    ∃ cells', hidden.foldl anonymizeColumn ⟨columns, cells⟩ = ⟨columns, cells'⟩ ∧
      SameOutside (Replaced columns hidden) cells' cells := by
  induction hidden generalizing cells with
  | nil => exact ⟨cells, rfl, rfl, fun _ _ => rfl⟩
  | cons i rest ih =>
    cases hposition : columns.findIdx? (· == i.id) with
    | none =>
      rw [List.foldl_cons, anonymizeColumn_of_none hposition]
      obtain ⟨cells', heq, hsame⟩ := ih cells
      exact ⟨cells', heq, hsame.length, fun q hq => hsame.shown q (mt (replaced_cons_of_none hposition q).mpr hq)⟩
    | some p =>
      rw [List.foldl_cons, anonymizeColumn_of_some hposition]
      obtain ⟨cells', heq, hsame⟩ := ih (cells.modify p anonymized)
      refine ⟨cells', heq, by simpa using hsame.length, fun q hq => ?_⟩
      rw [replaced_cons_of_some hposition, not_or] at hq
      rw [hsame.shown q hq.2]
      simp [Ne.symm hq.1]

end

section

variable {used : List Ingredient} {columns : List String} {cells cells' : List Cell} {rows rows' : List (List Cell)}

theorem enchantRow_congr (h : SameBut (Replaced columns (used.filter Ingredient.anonymize)) cells cells') :
    enchantRow used true ⟨columns, cells⟩ = enchantRow used true ⟨columns, cells'⟩ := by
  simp only [enchantRow, if_true, foldl_anonymizeColumn_congr h]

theorem enchantRow_cells (used : List Ingredient) (hide : Bool) (row : Row) :
    ∃ extra, (enchantRow used hide row).cells =
        (if hide then (used.filter Ingredient.anonymize).foldl anonymizeColumn row else row).cells ++ extra ∧
      extra.length = (used.filter fun i => i.format.isSome).length := by
  unfold enchantRow
  dsimp only
  split
  · next hempty => exact ⟨[], (List.append_nil _).symm, by rw [List.isEmpty_iff.mp hempty]; rfl⟩
  · exact ⟨_, rfl, List.length_map _⟩

theorem sameOutside_of_enchantRow_eq
    (h : enchantRow used true ⟨columns, cells⟩ = enchantRow used true ⟨columns, cells'⟩) :
    SameOutside (Replaced columns (used.filter Ingredient.anonymize)) cells cells' := by
  obtain ⟨extra, hcells, hlength⟩ := enchantRow_cells used true ⟨columns, cells⟩
  obtain ⟨extra', hcells', hlength'⟩ := enchantRow_cells used true ⟨columns, cells'⟩
  obtain ⟨shown, hshown, hsame⟩ := foldl_anonymizeColumn_shows columns cells (used.filter Ingredient.anonymize)
  obtain ⟨shown', hshown', hsame'⟩ := foldl_anonymizeColumn_shows columns cells' (used.filter Ingredient.anonymize)
  rw [if_pos rfl, hshown] at hcells
  rw [if_pos rfl, hshown'] at hcells'
  rw [h, hcells'] at hcells
  obtain ⟨rfl, -⟩ := List.append_inj' hcells (hlength'.trans hlength.symm)
  exact ⟨hsame.length.symm.trans hsame'.length, fun p hp => (hsame.shown p hp).symm.trans (hsame'.shown p hp)⟩

theorem enchant_eq_iff (hide : Bool) :
    enchant used hide columns rows = enchant used hide columns rows' ↔
      List.Forall₂ (fun cells cells' => enchantRow used hide ⟨columns, cells⟩ = enchantRow used hide ⟨columns, cells'⟩)
        rows rows' := by
  rw [enchant, enchant, ← List.forall₂_eq_eq_eq, List.forall₂_map_left_iff, List.forall₂_map_right_iff]

/-- The columns that an ingredient to be hidden brings into the query. -/
def IsSecret (used : List Ingredient) (columns : List String) (p : Nat) : Prop :=
  ∃ i ∈ used, i.anonymize = true ∧ ∃ label ∈ i.labels, columns[p]? = some label

theorem getElem?_of_findIdx? {label : String} {p : Nat} (h : columns.findIdx? (· == label) = some p) :
    columns[p]? = some label := by
  obtain ⟨hlt, hp, -⟩ := List.findIdx?_eq_some_iff_getElem.mp h
  rw [List.getElem?_eq_getElem hlt, eq_of_beq hp]

theorem findIdx?_of_count_le_one {label : String} {p : Nat} (hcount : columns.count label ≤ 1)
    (hp : columns[p]? = some label) : columns.findIdx? (· == label) = some p := by
  obtain ⟨hlt, rfl⟩ := List.getElem?_eq_some_iff.mp hp
  refine List.findIdx?_eq_some_iff_getElem.mpr ⟨hlt, beq_self_eq_true _, fun q hq hfound => ?_⟩
  -- an earlier one would be the second
  have hearlier : columns[p] ∈ columns.take p :=
    List.mem_take_iff_getElem.mpr ⟨q, by omega, eq_of_beq hfound⟩
  have hhere : columns[p] ∈ columns.drop p := by
    rw [List.drop_eq_getElem_cons hlt]
    exact List.mem_cons_self ..
  have hsum := congrArg (List.count columns[p]) (List.take_append_drop p columns)
  rw [List.count_append] at hsum
  have := List.count_pos_iff.mpr hearlier
  have := List.count_pos_iff.mpr hhere
  omega

theorem replaced_iff_isSecret (hroles : ∀ i ∈ used, i.anonymize = true → i.idField = none ∧ i.orderByField = none)
    (hunique : ∀ i ∈ used, i.anonymize = true → columns.count i.id ≤ 1) (p : Nat) :
    Replaced columns (used.filter Ingredient.anonymize) p ↔ IsSecret used columns p := by
  constructor
  · rintro ⟨i, hi, hp⟩
    obtain ⟨hi, hflag⟩ := List.mem_filter.mp hi
    exact ⟨i, hi, hflag, i.id, by simp [Ingredient.labels, Ingredient.roles, Role.label], getElem?_of_findIdx? hp⟩
  · rintro ⟨i, hi, hflag, label, hlabel, hp⟩
    obtain ⟨hid, horder⟩ := hroles i hi hflag
    obtain rfl : label = i.id := by simpa [Ingredient.labels, Ingredient.roles, Role.label, hid, horder] using hlabel
    exact ⟨i, List.mem_filter.mpr ⟨hi, hflag⟩, findIdx?_of_count_le_one (hunique i hi hflag) hp⟩

end

/-- Where digests are put, finished rows tell no more than the digests; everywhere else they tell the cells.
Digests are put in all columns of the ingredients to be hidden if these have no roles beside the
value and share their names with no other column. -/
theorem enchant_hides (used : List Ingredient) (columns : List String) (rows rows' : List (List Cell)) :
    let hidden := Replaced columns (used.filter Ingredient.anonymize)
    (List.Forall₂ (SameBut hidden) rows rows' →
        enchant used true columns rows = enchant used true columns rows') ∧
      (enchant used true columns rows = enchant used true columns rows' →
        List.Forall₂ (SameOutside hidden) rows rows') ∧
      ((∀ i ∈ used, i.anonymize = true → i.idField = none ∧ i.orderByField = none) →
        (∀ i ∈ used, i.anonymize = true → columns.count i.id ≤ 1) → ∀ p, hidden p ↔ IsSecret used columns p) := by
  intro hidden
  rw [enchant_eq_iff]
  exact ⟨fun h => h.imp fun _ _ => enchantRow_congr, fun h => h.imp fun _ _ => sameOutside_of_enchantRow_eq,
    replaced_iff_isSecret⟩

/-- A number and a text with one digest, in a column with a format, beside a column that is shown. -/
theorem enchant_hides_number :
    let field : Expression.Field := ⟨.column "people" "age", .num, false⟩
    let age : Ingredient :=
      ⟨"age", .dimension, field, none, none, .ascending, some ⟨false, false, 1, false⟩, [], true, none, none, none⟩
    let state : Ingredient :=
      ⟨"state", .dimension, field, some field, none, .ascending, none, [], false, none, none, none⟩
    let columns := ["age", "state", "state__id"]
    List.Forall₂ (SameBut (IsSecret [age, state] columns)) [[.int 7, .text "a", .null]] [[.text "7", .text "a", .null]] ∧
      enchant [age, state] true columns [[.int 7, .text "a", .null]] =
        enchant [age, state] true columns [[.text "7", .text "a", .null]] := by
  intro field age state columns
  obtain ⟨hhides, -, hplaces⟩ :=
    enchant_hides [age, state] columns [[.int 7, .text "a", .null]] [[.text "7", .text "a", .null]]
  have hsecrets := hplaces (by simp [age, state]) (by simp [age, state, columns])
  have hsecret : IsSecret [age, state] columns 0 :=
    ⟨age, by simp, rfl, "age", by simp [age, Ingredient.labels, Ingredient.roles, Role.label], rfl⟩
  have hdigest : anonymized (.int 7) = anonymized (.text "7") := rfl
  have hsame : SameBut (IsSecret [age, state] columns) [.int 7, .text "a", .null] [.text "7", .text "a", .null] := by
    refine ⟨⟨rfl, fun p hp => ?_⟩, fun p _ => ?_⟩
    · match p with
      | 0 => exact absurd hsecret hp
      | p + 1 => rfl
    · match p with
      | 0 => exact congrArg some hdigest
      | p + 1 => rfl
  exact ⟨.cons hsame .nil, hhides (.cons (hsame.congr fun p => (hsecrets p).symm) .nil)⟩

end ShelfQuery.Recipe
