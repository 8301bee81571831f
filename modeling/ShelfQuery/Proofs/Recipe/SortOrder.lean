import Mathlib.Data.List.Induction
import ShelfQuery.Proofs.Recipe.Grouping
import ShelfQuery.Proofs.Schema.Names

set_option autoImplicit false

namespace ShelfQuery.Recipe

open ShelfQuery.Shelf ShelfQuery.Sql ShelfQuery.Schema ShelfQuery.Data ShelfQuery.Expression

section

variable {α : Type} {asks : α → SortKey → Prop} {xs : List α}

/-- The member at position `p` asks for `k`, and none before it asks for the same label. -/
structure FirstMention (asks : α → SortKey → Prop) (xs : List α) (p : Nat) (k : SortKey) : Prop where
  mention : ∃ x, xs[p]? = some x ∧ asks x k
  first : ∀ p' < p, ∀ x, xs[p']? = some x → ∀ k', asks x k' → k'.label ≠ k.label

/-- The keys that are asked for, each label as it is first mentioned and in the order of these mentions. -/
def InOrderOfMention (asks : α → SortKey → Prop) (xs : List α) (keys : List SortKey) : Prop :=
  ∃ positions : List Nat, positions.Pairwise (· < ·) ∧ (∀ p, p ∈ positions ↔ ∃ k, FirstMention asks xs p k) ∧
    List.Forall₂ (FirstMention asks xs) positions keys

theorem FirstMention.lt_length {p : Nat} {k : SortKey} (h : FirstMention asks xs p k) : p < xs.length := by
  obtain ⟨x, hx, -⟩ := h.mention
  exact (List.getElem?_eq_some_iff.mp hx).1

theorem firstMention_append {p : Nat} {k : SortKey} (hp : p < xs.length) (ys : List α) :
    FirstMention asks (xs ++ ys) p k ↔ FirstMention asks xs p k := by
  have hget {p' : Nat} (hp' : p' ≤ p) : (xs ++ ys)[p']? = xs[p']? := List.getElem?_append_left (by omega)
  constructor
  · intro h
    refine ⟨by simpa only [hget (Nat.le_refl p)] using h.mention, fun p' hp' x hx => ?_⟩
    exact h.first p' hp' x (by rwa [hget (Nat.le_of_lt hp')])
  · intro h
    refine ⟨by simpa only [hget (Nat.le_refl p)] using h.mention, fun p' hp' x hx => ?_⟩
    exact h.first p' hp' x (by rwa [hget (Nat.le_of_lt hp')] at hx)

theorem firstMention_last {x : α} {k : SortKey} :
    FirstMention asks (xs ++ [x]) xs.length k ↔ asks x k ∧ ∀ y ∈ xs, ∀ k', asks y k' → k'.label ≠ k.label := by
  constructor
  · intro h
    refine ⟨by simpa using h.mention, fun y hy k' hk' => ?_⟩
    obtain ⟨p, hp, rfl⟩ := List.mem_iff_getElem.mp hy
    exact h.first p hp _ (by rw [List.getElem?_append_left hp, List.getElem?_eq_getElem hp]) k' hk'
  · rintro ⟨hasks, hfirst⟩
    refine ⟨⟨x, by simp, hasks⟩, fun p hp y hy k' hk' => ?_⟩
    rw [List.getElem?_append_left hp] at hy
    exact hfirst y (List.mem_of_getElem? hy) k' hk'

theorem exists_firstMention_snoc {x : α} {p : Nat} :
    (∃ k, FirstMention asks (xs ++ [x]) p k) ↔
      (∃ k, FirstMention asks xs p k) ∨ p = xs.length ∧ ∃ k, FirstMention asks (xs ++ [x]) xs.length k := by
  constructor
  · rintro ⟨k, hk⟩
    have hbound := hk.lt_length
    rw [List.length_append, List.length_singleton] at hbound
    by_cases hp : p < xs.length
    · exact .inl ⟨k, (firstMention_append hp _).mp hk⟩
    · obtain rfl : p = xs.length := by omega
      exact .inr ⟨rfl, k, hk⟩
  · rintro (⟨k, hk⟩ | ⟨rfl, hlast⟩)
    · exact ⟨k, (firstMention_append hk.lt_length _).mpr hk⟩
    · exact hlast

theorem InOrderOfMention.skip {x : α} {keys : List SortKey} (h : InOrderOfMention asks xs keys)
    (hx : ∀ k, ¬ FirstMention asks (xs ++ [x]) xs.length k) : InOrderOfMention asks (xs ++ [x]) keys := by
  obtain ⟨positions, hsorted, hmem, hkeys⟩ := h
  refine ⟨positions, hsorted, fun p => ?_, hkeys.imp fun p k hk => (firstMention_append hk.lt_length _).mpr hk⟩
  simp [exists_firstMention_snoc, hx, hmem]

theorem InOrderOfMention.snoc {x : α} {k : SortKey} {keys : List SortKey} (h : InOrderOfMention asks xs keys)
    (hx : FirstMention asks (xs ++ [x]) xs.length k) : InOrderOfMention asks (xs ++ [x]) (keys ++ [k]) := by
  obtain ⟨positions, hsorted, hmem, hkeys⟩ := h
  refine ⟨positions ++ [xs.length], ?_, fun p => ?_, ?_⟩
  · refine List.pairwise_append.mpr ⟨hsorted, List.pairwise_singleton _ _, fun p hp p' hp' => ?_⟩
    obtain ⟨k', hk'⟩ := (hmem p).mp hp
    exact List.mem_singleton.mp hp' ▸ hk'.lt_length
  · rw [exists_firstMention_snoc, List.mem_append, List.mem_singleton, hmem]
    exact or_congr_right (iff_self_and.mpr fun _ => ⟨k, hx⟩)
  · exact List.rel_append (hkeys.imp fun p k hk => (firstMention_append hk.lt_length _).mpr hk) (.cons hx .nil)

end

section

variable {keys more : List SortKey} {key : SortKey} {label : String}

theorem addKey_of_mem (h : key.label ∈ keys.map SortKey.label) : addKey keys key = keys := by
  obtain ⟨k, hk, hlabel⟩ := List.mem_map.mp h
  exact if_pos (List.any_eq_true.mpr ⟨k, hk, by simpa using hlabel⟩)

theorem addKey_of_not_mem (h : key.label ∉ keys.map SortKey.label) : addKey keys key = keys ++ [key] := by
  refine if_neg fun hany => ?_
  obtain ⟨k, hk, hlabel⟩ := List.any_eq_true.mp hany
  exact h (List.mem_map.mpr ⟨k, hk, beq_iff_eq.mp hlabel⟩)

theorem mem_labels_addKey :
    label ∈ (addKey keys key).map SortKey.label ↔ label ∈ keys.map SortKey.label ∨ label = key.label := by
  by_cases h : key.label ∈ keys.map SortKey.label
  · rw [addKey_of_mem h]
    exact ⟨.inl, fun hlabel => hlabel.elim id fun heq => heq ▸ h⟩
  · simp [addKey_of_not_mem h]

theorem mem_labels_foldl_addKey :
    label ∈ (more.foldl addKey keys).map SortKey.label ↔
      label ∈ keys.map SortKey.label ∨ label ∈ more.map SortKey.label := by
  induction more generalizing keys with
  | nil => simp
  | cons key more ih => rw [List.foldl_cons, ih, mem_labels_addKey, List.map_cons, List.mem_cons, or_assoc]

theorem labels_addKey_nodup (h : (keys.map SortKey.label).Nodup) : ((addKey keys key).map SortKey.label).Nodup := by
  by_cases hmem : key.label ∈ keys.map SortKey.label
  · rwa [addKey_of_mem hmem]
  · rw [addKey_of_not_mem hmem, List.map_append]
    exact List.nodup_append.mpr ⟨h, List.nodup_singleton _, by simpa using hmem⟩

theorem labels_foldl_addKey_nodup (h : (keys.map SortKey.label).Nodup) :
    ((more.foldl addKey keys).map SortKey.label).Nodup := by
  induction more generalizing keys with
  | nil => exact h
  | cons key more ih => exact ih (labels_addKey_nodup h)

theorem foldl_addKey_of_nodup (h : (more.map SortKey.label).Nodup) :
    more.foldl addKey keys = keys ++ more.filter fun k => k.label ∉ keys.map SortKey.label := by
  induction more generalizing keys with
  | nil => simp
  | cons key more ih =>
    obtain ⟨hfresh, hnodup⟩ := List.nodup_cons.mp h
    rw [List.foldl_cons, ih hnodup]
    by_cases hmem : key.label ∈ keys.map SortKey.label
    · rw [addKey_of_mem hmem, List.filter_cons_of_neg (by simpa using hmem)]
    · -- the label that is added now does not come up again
      have hfilter : more.filter (fun k => k.label ∉ (keys ++ [key]).map SortKey.label) =
          more.filter fun k => k.label ∉ keys.map SortKey.label := by
        refine List.filter_congr fun k hk => ?_
        have hne : k.label ≠ key.label := fun heq => hfresh (List.mem_map.mpr ⟨k, hk, heq⟩)
        simp [hne]
      rw [addKey_of_not_mem hmem, hfilter, List.filter_cons_of_pos (by simpa using hmem), List.append_assoc]
      rfl

/-- Adding what is asked for, one after the other, keeps the first mention of each label. -/
theorem inOrderOfMention_foldl_addKey {α : Type} (ask : α → Option SortKey) (xs : List α) :
    InOrderOfMention (fun x k => ask x = some k) xs ((xs.filterMap ask).foldl addKey []) := by
  induction xs using List.reverseRecOn with
  | nil =>
    refine ⟨[], .nil, fun p => iff_of_false List.not_mem_nil ?_, .nil⟩
    rintro ⟨k, hk⟩
    exact absurd hk.lt_length (Nat.not_lt_zero p)
  | append_singleton xs x ih =>
    rw [List.filterMap_append, List.foldl_append]
    cases hx : ask x with
    | none =>
      simp only [List.filterMap_cons, hx, List.filterMap_nil, List.foldl_nil]
      refine ih.skip fun k hk => ?_
      cases hx.symm.trans (firstMention_last.mp hk).1
    | some key =>
      simp only [List.filterMap_cons, hx, List.filterMap_nil, List.foldl_cons, List.foldl_nil]
      have hlabels : key.label ∈ ((xs.filterMap ask).foldl addKey []).map SortKey.label ↔
          ∃ k', (∃ y ∈ xs, ask y = some k') ∧ k'.label = key.label := by
        simp [mem_labels_foldl_addKey]
      by_cases hmem : key.label ∈ ((xs.filterMap ask).foldl addKey []).map SortKey.label
      · rw [addKey_of_mem hmem]
        refine ih.skip fun k hk => ?_
        obtain ⟨hasks, hfirst⟩ := firstMention_last.mp hk
        cases hx.symm.trans hasks
        obtain ⟨k', ⟨y, hy, hk'⟩, heq⟩ := hlabels.mp hmem
        exact hfirst y hy k' hk' heq
      · rw [addKey_of_not_mem hmem]
        refine ih.snoc (firstMention_last.mpr ⟨hx, fun y hy k' hk' heq => ?_⟩)
        exact hmem (hlabels.mpr ⟨k', ⟨y, hy, hk'⟩, heq⟩)

end

/-- What a key asks for among the ingredients in use: `id` for the declared direction, `-id` for descending
order. -/
inductive Asks (used : List Ingredient) : String → SortKey → Prop where
  | declared {i : Ingredient} : i ∈ used → Asks used i.id ⟨i.sortRole.label i.id, i.ordering == .descending⟩
  | descending {i : Ingredient} : i ∈ used → Asks used ("-" ++ i.id) ⟨i.sortRole.label i.id, true⟩

def namesOneOf (used : List Ingredient) (key : String) : Bool := used.any fun i => key == i.id || key == "-" ++ i.id

theorem namesOneOf_iff {used : List Ingredient} {key : String} :
    namesOneOf used key = true ↔ ∃ k, Asks used key k := by
  simp only [namesOneOf, List.any_eq_true, Bool.or_eq_true, beq_iff_eq]
  constructor
  · rintro ⟨i, hi, rfl | rfl⟩
    · exact ⟨_, .declared hi⟩
    · exact ⟨_, .descending hi⟩
  · rintro ⟨k, hk⟩
    cases hk with
    | declared hi => exact ⟨_, hi, .inl rfl⟩
    | descending hi => exact ⟨_, hi, .inr rfl⟩

section

variable {used : List Ingredient} {key : String} {k : SortKey}

theorem namedKey?_dash (used : List Ingredient) (id : String) :
    namedKey? used ("-" ++ id) = (used.find? fun i => i.id == id).map fun i => ⟨i.sortRole.label i.id, true⟩ := by
  have hchars : ("-" ++ id).toList = '-' :: id.toList := by simp
  simp [namedKey?, hchars]

theorem namedKey?_plain (used : List Ingredient) (h : ∀ rest, key ≠ "-" ++ rest) :
    namedKey? used key =
      (used.find? fun i => i.id == key).map fun i => ⟨i.sortRole.label i.id, i.ordering == .descending⟩ := by
  unfold namedKey?
  split
  next hsplit =>
    split at hsplit
    · next rest hchars =>
      refine absurd ?_ (h (String.ofList rest))
      rw [← String.toList_inj, hchars]
      simp
    · cases hsplit
      simp

theorem namedKey?_eq_some_iff (hids : (used.map Ingredient.id).Nodup) (hnames : ∀ i ∈ used, isIdentifier i.id = true) :
    namedKey? used key = some k ↔ Asks used key k := by
  constructor
  · intro h
    by_cases hdash : ∃ rest, key = "-" ++ rest
    · obtain ⟨id, rfl⟩ := hdash
      rw [namedKey?_dash] at h
      obtain ⟨i, hfind, rfl⟩ := Option.map_eq_some_iff.mp h
      obtain ⟨hi, rfl⟩ := (find?_key_eq_some_iff hids).mp hfind
      exact .descending hi
    · rw [namedKey?_plain used (not_exists.mp hdash)] at h
      obtain ⟨i, hfind, rfl⟩ := Option.map_eq_some_iff.mp h
      obtain ⟨hi, rfl⟩ := (find?_key_eq_some_iff hids).mp hfind
      exact .declared hi
  · intro h
    cases h with
    | @declared i hi =>
      rw [namedKey?_plain used fun rest => ne_dash_append (hnames i hi),
        (find?_key_eq_some_iff hids).mpr ⟨hi, rfl⟩, Option.map_some]
    | @descending i hi => rw [namedKey?_dash, (find?_key_eq_some_iff hids).mpr ⟨hi, rfl⟩, Option.map_some]

def ownKey (i : Ingredient) : SortKey := ⟨Role.orderBy.label i.id, i.ordering == .descending⟩

theorem filterMap_declaredKey? (used : List Ingredient) :
    used.filterMap declaredKey? = (used.filter fun i => i.orderByField.isSome).map ownKey := by
  induction used with
  | nil => rfl
  | cons i used ih =>
    cases hfield : i.orderByField with
    | none => simp [declaredKey?, hfield, ih]
    | some f => simp [declaredKey?, hfield, ih, ownKey]

theorem ownKeys_nodup (hids : (used.map Ingredient.id).Nodup) :
    (((used.filter fun i => i.orderByField.isSome).map ownKey).map SortKey.label).Nodup := by
  rw [List.map_map]
  have hkept : ((used.filter fun i => i.orderByField.isSome).map Ingredient.id).Nodup :=
    hids.sublist (List.filter_sublist.map _)
  refine List.pairwise_map.mpr ((List.pairwise_map.mp hkept).imp fun {i j} hne hlabel => hne ?_)
  have hlabel : Role.orderBy.label i.id = Role.orderBy.label j.id := hlabel
  exact (Role.label_inj (by decide) (by decide) hlabel).2

section

variable (hids : (used.map Ingredient.id).Nodup) (hnames : ∀ i ∈ used, isIdentifier i.id = true)
include hids hnames

theorem label_mem_of_mem_sortKeys {keys : List String} (hk : k ∈ sortKeys keys used) :
    k.label ∈ used.flatMap Ingredient.labels := by
  have hlabel : k.label ∈ (sortKeys keys used).map SortKey.label := List.mem_map_of_mem hk
  rw [sortKeys, mem_labels_foldl_addKey, List.map_append, List.mem_append] at hlabel
  rcases hlabel with hlabel | hlabel | hlabel
  · exact absurd hlabel List.not_mem_nil
  · obtain ⟨k', hk', heq⟩ := List.mem_map.mp hlabel
    obtain ⟨key, -, hkey⟩ := List.mem_filterMap.mp hk'
    rw [← heq]
    cases (namedKey?_eq_some_iff hids hnames).mp hkey with
    | @declared i hi | @descending i hi => exact List.mem_flatMap.mpr ⟨i, hi, i.sortLabel_mem⟩
  · rw [filterMap_declaredKey?, List.map_map] at hlabel
    obtain ⟨i, hi, heq⟩ := List.mem_map.mp hlabel
    obtain ⟨hi, hfield⟩ := List.mem_filter.mp hi
    exact heq ▸ List.mem_flatMap.mpr ⟨i, hi, Ingredient.orderByLabel_mem hfield⟩

theorem sortKeys_filter_namesOneOf (keys : List String) :
    sortKeys (keys.filter (namesOneOf used)) used = sortKeys keys used := by
  have hkeys : (keys.filter (namesOneOf used)).filterMap (namedKey? used) = keys.filterMap (namedKey? used) := by
    rw [List.filterMap_filter]
    refine List.filterMap_congr fun key _ => ?_
    split
    · rfl
    · next hnot =>
      -- a key that names nothing asks for nothing
      cases hkey : namedKey? used key with
      | none => rfl
      | some k => exact absurd (namesOneOf_iff.mpr ⟨k, (namedKey?_eq_some_iff hids hnames).mp hkey⟩) hnot
  rw [sortKeys, hkeys, ← sortKeys]

theorem exists_sortKeys_eq_append (keys : List String) :
    ∃ asked, InOrderOfMention (Asks used) keys asked ∧
      sortKeys keys used = asked ++ ((used.filter fun i => i.orderByField.isSome).map ownKey).filter
        fun k => k.label ∉ asked.map SortKey.label := by
  have hasks : (fun key k => namedKey? used key = some k) = Asks used := by
    funext key k
    exact propext (namedKey?_eq_some_iff hids hnames)
  refine ⟨(keys.filterMap (namedKey? used)).foldl addKey [], ?_, ?_⟩
  · rw [← hasks]
    exact inOrderOfMention_foldl_addKey _ _
  · rw [sortKeys, List.foldl_append, filterMap_declaredKey?, foldl_addKey_of_nodup (ownKeys_nodup hids)]

end

theorem Brewed.isIdentifier {r : Recipe} {s : Shelf} {q : Query} {dimensions metrics : List Ingredient}
    {conditions : List (Sql × Bool)} {automatic : List Sql} (h : r.Brewed s q dimensions metrics conditions automatic) :
    ∀ i ∈ q.ingredients, isIdentifier i.id = true := by
  intro i hi
  rw [h.ingredients] at hi
  rcases List.mem_append.mp hi with hi | hi
  · exact isIdentifier_of_find (h.find_dimension i hi)
  · exact isIdentifier_of_find (h.find_metric i hi)

/-- The keys of a recipe decide nothing but the order. -/
theorem query_reorder {r : Recipe} {s : Shelf} {q : Query} (h : r.query s = .ok q) :
    q.orderBy = sortKeys r.orderBy q.ingredients ∧
      ∀ keys, ({ r with orderBy := keys } : Recipe).query s = .ok { q with orderBy := sortKeys keys q.ingredients } := by
  obtain ⟨dimensions, metrics, conditions, automatic, hbrewed⟩ := brewed_of_query h
  obtain rfl := hbrewed.assembled
  refine ⟨rfl, fun keys => ?_⟩
  have hsame : ({ r with orderBy := keys } : Recipe).Brewed s
      { r.assemble s.bench dimensions metrics conditions automatic with orderBy := sortKeys keys (dimensions ++ metrics) }
      dimensions metrics conditions automatic := { hbrewed with assembled := rfl }
  exact hsame.query_eq

end

/-- ORDER BY lists labels of selected columns, none twice: first those that keys ask for, as they are first
mentioned, then those of the ingredients in use that declare an order and are not listed yet. Without the
keys that name no ingredient in use the query is the same. -/
theorem query_orderBy {r : Recipe} {s : Shelf} {q : Query} (hr : r.Composed) (h : r.query s = .ok q) :
    (∀ k ∈ q.orderBy, k.label ∈ q.columns.map Prod.fst) ∧ (q.orderBy.map SortKey.label).Nodup ∧
      (∃ asked, InOrderOfMention (Asks q.ingredients) r.orderBy asked ∧
        q.orderBy = asked ++ ((q.ingredients.filter fun i => i.orderByField.isSome).map ownKey).filter
          fun k => k.label ∉ asked.map SortKey.label) ∧
      ({ r with orderBy := r.orderBy.filter (namesOneOf q.ingredients) } : Recipe).query s = .ok q := by
  obtain ⟨dimensions, metrics, conditions, automatic, hbrewed⟩ := brewed_of_query h
  obtain ⟨horder, hreorder⟩ := query_reorder h
  have hids := hbrewed.ids_nodup hr
  have hnames := hbrewed.isIdentifier
  refine ⟨fun k hk => ?_, ?_, ?_, ?_⟩
  · rw [hbrewed.labels_eq]
    exact label_mem_of_mem_sortKeys hids hnames (horder ▸ hk)
  · rw [horder]
    exact labels_foldl_addKey_nodup List.nodup_nil
  · rw [horder]
    exact exists_sortKeys_eq_append hids hnames r.orderBy
  · rw [hreorder, sortKeys_filter_namesOneOf hids hnames, ← horder]

/-- A metric is asked for in both directions, a dimension is sorted by another field in descending order, and
one key names nothing. -/
theorem query_orderBy_both_ways :
    let schema : Table := ⟨"scores", [⟨"score", .num⟩, ⟨"dept", .str⟩, ⟨"name", .str⟩]⟩
    let s : Shelf :=
      ⟨⟨schema, .sqlite, .startOfDay ⟨2024, 1, 1, by decide⟩⟩,
        [("dept", .spec { field := "[dept]", orderByField := some "[score]", ordering := .descending }),
          ("name", .spec { field := "[name]", orderByField := some "[dept]" }),
          ("mean", .field "avg([score])")]⟩
    let r : Recipe := ((({} : Recipe).addDimensions ["dept", "name"]).addMetrics ["mean"]).addOrder
      ["-mean", "ghost", "name", "mean"]
    ∃ q, r.Composed ∧ r.query s = .ok q ∧
      q.orderBy = [⟨"mean", true⟩, ⟨"name__order_by", false⟩, ⟨"dept__order_by", true⟩] ∧
      (∀ k ∈ q.orderBy, k.label ∈ q.columns.map Prod.fst) ∧
      ({ r with orderBy := ["-mean", "name", "mean"] } : Recipe).query s = .ok q := by
  intro schema s r
  have hcomposed : r.Composed := .order _ (.metrics _ (.dimensions _ .empty))
  have hcomputed : (r.query s).toOption.map (fun q => (q.orderBy, r.orderBy.filter (namesOneOf q.ingredients))) =
      some ([⟨"mean", true⟩, ⟨"name__order_by", false⟩, ⟨"dept__order_by", true⟩], ["-mean", "name", "mean"]) := by
    decide +kernel
  cases hquery : r.query s with
  | error e =>
    rw [hquery] at hcomputed
    cases hcomputed
  | ok q =>
    rw [hquery] at hcomputed
    obtain ⟨horder, hkeys⟩ := Prod.mk.inj (Option.some.inj hcomputed)
    obtain ⟨hlabels, -, -, hsame⟩ := Recipe.query_orderBy hcomposed hquery
    rw [hkeys] at hsame
    exact ⟨q, hcomposed, rfl, horder, hlabels, hsame⟩

end ShelfQuery.Recipe
