import ShelfQuery.Proofs.Recipe.Filters
import ShelfQuery.Proofs.Sql.Connectives

set_option autoImplicit false

namespace ShelfQuery.Data.Json

theorem depth_lt_of_mem {v : Json} {vs : List Json} (h : v ∈ vs) : v.depth < (Json.arr vs).depth := by
  have hle : v.depth ≤ depthItems vs := by
    induction vs with
    | nil => cases h
    | cons w rest ih =>
      rw [depthItems]
      rcases List.mem_cons.mp h with rfl | h
      · exact Nat.le_max_left _ _
      · exact (ih h).trans (Nat.le_max_right _ _)
  rw [depth]
  exact Nat.lt_succ_of_le hle

theorem depth_le_of_mem {m : String × Json} {members : List (String × Json)} (h : m ∈ members) :
    m.2.depth ≤ depthMembers members := by
  induction members with
  | nil => cases h
  | cons n rest ih =>
    obtain ⟨key, w⟩ := n
    rw [depthMembers]
    rcases List.mem_cons.mp h with rfl | h
    · exact Nat.le_max_left _ _
    · exact (ih h).trans (Nat.le_max_right _ _)

theorem depth_lt_of_member? {key : String} {v w : Json} (h : v.member? key = some w) : w.depth < v.depth := by
  cases v with
  | obj members =>
    obtain ⟨m, hm, rfl⟩ := Option.map_eq_some_iff.mp h
    have hmem : m ∈ members := List.mem_reverse.mp (List.mem_of_find?_eq_some hm)
    rw [depth]
    exact Nat.lt_succ_of_le (depth_le_of_mem hmem)
  | _ => cases h

end ShelfQuery.Data.Json

namespace ShelfQuery.Recipe

open ShelfQuery.Shelf ShelfQuery.Sql ShelfQuery.Schema ShelfQuery.Data ShelfQuery.Calendar ShelfQuery.Expression

variable {i : Ingredient} {now : DateTime}

theorem conditionOf_depth {v : Json} {c : String × Json} (h : conditionOf v = .ok c) : c.2.depth < v.depth := by
  unfold conditionOf at h
  split at h
  · next operator hoperator =>
    cases h
    obtain ⟨w, hw, -⟩ := Option.bind_eq_some_iff.mp hoperator
    cases hvalue : v.member? "value" with
    | none => exact Nat.lt_of_le_of_lt (Nat.zero_le _) (Json.depth_lt_of_member? hw)
    | some value => exact Json.depth_lt_of_member? hvalue
  · cases h

theorem listFilter_congr {nested nested' : Json → Except FilterError Sql} {operator : String} {vs : List Json}
    (h : ∀ v ∈ vs, nested v = nested' v) :
    listFilter i now nested operator vs = listFilter i now nested' operator vs := by
  have hall : vs.mapM nested = vs.mapM nested' := mapM_congr h
  have hsome : ((vs.filter fun v => !isNullJson v).filter isCondition).mapM nested =
      ((vs.filter fun v => !isNullJson v).filter isCondition).mapM nested' :=
    mapM_congr fun v hv => h v (List.mem_of_mem_filter (List.mem_of_mem_filter hv))
  simp only [listFilter, hall, hsome]

/-- Fuel beyond the depth of the value changes nothing. -/
theorem filterWith_fuel {fuel fuel' : Nat} {operator : Option String} {v : Json} (hfuel : v.depth < fuel)
    (hfuel' : v.depth < fuel') : filterWith i now fuel operator v = filterWith i now fuel' operator v := by
  induction fuel generalizing fuel' operator v with
  | zero => exact absurd hfuel (Nat.not_lt_zero _)
  | succ fuel ih =>
    obtain ⟨fuel', rfl⟩ : ∃ k, fuel' = k + 1 := ⟨fuel' - 1, by omega⟩
    cases v with
    | arr vs =>
      refine listFilter_congr fun v hv => ?_
      cases hcondition : conditionOf v with
      | error e => rfl
      | ok c =>
        have hdepth := conditionOf_depth hcondition
        have hmem := Json.depth_lt_of_mem hv
        exact ih (by omega) (by omega)
    | _ => rfl

def nestedFilter (i : Ingredient) (now : DateTime) (v : Json) : Except FilterError Sql := do
  let (operator, value) ← conditionOf v
  buildFilter i now (some operator) value

def elementFilter (i : Ingredient) (now : DateTime) (v : Json) : Except FilterError Sql :=
  if isCondition v then nestedFilter i now v else buildFilter i now none v

inductive Element (i : Ingredient) (now : DateTime) : Json → Sql → Prop where
  | null : Element i now .null (.isNull i.value.sql false)
  | plain {v : Json} {l : Literal} : isNullJson v = false → isCondition v = false →
      literalOf i.value.datatype now v = .ok l →
      Element i now v (.compare .eq (filterColumn i (isText l)) (.literal l))
  | condition {v : Json} {x : Sql} : isNullJson v = false → isCondition v = true → nestedFilter i now v = .ok x →
      Element i now v x

theorem buildFilter_arr (operator : Option String) (vs : List Json) :
    buildFilter i now operator (.arr vs) = listFilter i now (nestedFilter i now) (operator.getD "in") vs := by
  refine listFilter_congr fun v hv => ?_
  unfold nestedFilter
  cases hcondition : conditionOf v with
  | error e => rfl
  | ok c => exact filterWith_fuel ((conditionOf_depth hcondition).trans (Json.depth_lt_of_mem hv)) (Nat.lt_succ_self _)

theorem literalOf_kind {datatype : DataType} {v : Json} {l : Literal} (h : literalOf datatype now v = .ok l) :
    isNullText l = isNullJson v ∧ isText l = (v.str?.isSome && !datatype.isTemporal) := by
  cases v with
  | str s =>
    simp only [literalOf] at h
    split at h
    · next htemporal =>
      split at h
      · cases h
        split <;> simp [isNullText, isNullJson, isText, htemporal]
      · cases h
    · next htemporal =>
      cases h
      simp [isNullText, isNullJson, isText, Json.str?, htemporal]
  | arr | obj => cases h
  | int n =>
    cases h
    split <;> exact ⟨rfl, rfl⟩
  | _ =>
    cases h
    exact ⟨rfl, rfl⟩

theorem Element.elementFilter_eq {v : Json} {x : Sql} (h : Element i now v x) : elementFilter i now v = .ok x := by
  cases h with
  | null => rfl
  | condition _ hcondition hx => rwa [elementFilter, if_pos hcondition]
  | @plain _ l hnull hcondition hl =>
    have hscalar : buildFilter i now none v = scalarFilter i now "eq" v := by
      cases v with
      | arr vs => cases hl
      | _ => rfl
    have hvalue := (literalOf_kind hl).1.trans hnull
    rw [elementFilter, if_neg (by simp [hcondition]), hscalar]
    simp [scalarFilter, hl, comparison?, compareWith, hvalue]

/-- An evaluation in which membership in a list is equality with one of its members, and only null is
null as a text. -/
structure Selects {α : Type} (eval : Sql → α) (truth : α → Option Bool) (ofTruth : Option Bool → α) : Prop
    extends Sql.Evaluates eval truth ofTruth where
  member : ∀ x (ls : List Literal), truth (eval (.inList x (ls.map .literal) false)) =
    kleene true (ls.map fun l => truth (eval (.compare .eq x (.literal l))))
  nullText : ∀ x, truth (eval (.isNull (.cast x .varchar) false)) = truth (eval (.isNull x false))

/-- The plain values of a list are all texts, or none of them is. -/
def Uniform (vs : List Json) : Prop :=
  ∃ texts, ∀ v ∈ vs, isNullJson v = false → isCondition v = false → v.str?.isSome = texts

/-- A list of which the plain values have these literals, and the conditions these filters. -/
structure Sorted (i : Ingredient) (now : DateTime) (vs : List Json) (literals : List Literal) (conditions : List Sql) :
    Prop where
  literals : ((vs.filter fun v => !isNullJson v).filter fun v => !isCondition v).mapM
    (literalOf i.value.datatype now) = .ok literals
  conditions : ((vs.filter fun v => !isNullJson v).filter isCondition).mapM (nestedFilter i now) = .ok conditions

def memberFilter (i : Ingredient) (vs : List Json) (literals : List Literal) (conditions : List Sql) : Sql :=
  let literals := sortLiterals literals
  membership (filterColumn i (literals.any isText)) (vs.any isNullJson) literals conditions

theorem sorted_of_listFilter {operator : String} {vs : List Json} {sql : Sql}
    (hoperator : operator = "in" ∨ operator = "notin") (h : listFilter i now (nestedFilter i now) operator vs = .ok sql) :
    ∃ literals conditions, Sorted i now vs literals conditions ∧
      sql = if operator = "notin" then (memberFilter i vs literals conditions).negate
        else memberFilter i vs literals conditions := by
  unfold listFilter at h
  split at h
  · simp at hoperator
  · simp at hoperator
  · simp at hoperator
  · rw [if_pos hoperator] at h
    obtain ⟨literals, hliterals, h⟩ := bind_ok h
    obtain ⟨conditions, hconditions, h⟩ := bind_ok h
    cases h
    exact ⟨literals, conditions, ⟨hliterals, hconditions⟩, rfl⟩

theorem eq_null_of_isNullJson {v : Json} (h : isNullJson v = true) : v = .null := by
  cases v with
  | null => rfl
  | _ => cases h

namespace Sorted

variable {vs : List Json} {literals : List Literal} {conditions : List Sql} (h : Sorted i now vs literals conditions)

include h

theorem mem_literals_iff (l : Literal) : l ∈ literals ↔
    ∃ v ∈ vs, isNullJson v = false ∧ isCondition v = false ∧ literalOf i.value.datatype now v = .ok l := by
  rw [mem_iff_of_mapM h.literals]
  simp only [List.mem_filter, Bool.not_eq_true', and_assoc]

theorem mem_conditions_iff (x : Sql) : x ∈ conditions ↔
    ∃ v ∈ vs, isNullJson v = false ∧ isCondition v = true ∧ nestedFilter i now v = .ok x := by
  rw [mem_iff_of_mapM h.conditions]
  simp only [List.mem_filter, Bool.not_eq_true', and_assoc]

theorem isText_of_uniform (huniform : Uniform vs) {l : Literal} (hl : l ∈ literals) :
    (sortLiterals literals).any isText = isText l := by
  obtain ⟨texts, htexts⟩ := huniform
  have hkind {m : Literal} (hm : m ∈ literals) : isText m = (texts && !i.value.datatype.isTemporal) := by
    obtain ⟨v, hv, hnull, hcondition, hm⟩ := (h.mem_literals_iff m).mp hm
    rw [(literalOf_kind hm).2, htexts v hv hnull hcondition]
  rw [hkind hl, Bool.eq_iff_iff, List.any_eq_true]
  constructor
  · rintro ⟨m, hm, htext⟩
    rw [← hkind (List.mem_mergeSort.mp hm), htext]
  · intro htext
    exact ⟨l, List.mem_mergeSort.mpr hl, (hkind hl).trans htext⟩

theorem exists_element {v : Json} (hv : v ∈ vs) : ∃ x, Element i now v x := by
  cases hnull : isNullJson v with
  | true =>
    obtain rfl := eq_null_of_isNullJson hnull
    exact ⟨_, .null⟩
  | false =>
    cases hcondition : isCondition v with
    | true =>
      obtain ⟨x, hx⟩ := exists_of_mapM h.conditions v (by simp [hv, hnull, hcondition])
      exact ⟨x, .condition hnull hcondition hx⟩
    | false =>
      obtain ⟨l, hl⟩ := exists_of_mapM h.literals v (by simp [hv, hnull, hcondition])
      exact ⟨_, .plain hnull hcondition hl⟩

theorem exists_parts : ∃ parts, vs.mapM (elementFilter i now) = .ok parts := by
  refine exists_mapM fun v hv => ?_
  obtain ⟨x, hx⟩ := h.exists_element hv
  exact ⟨x, hx.elementFilter_eq⟩

theorem mem_parts_iff {parts : List Sql} (hparts : vs.mapM (elementFilter i now) = .ok parts) (x : Sql) :
    x ∈ parts ↔ ∃ v ∈ vs, Element i now v x := by
  rw [mem_iff_of_mapM hparts]
  constructor
  · rintro ⟨v, hv, hx⟩
    obtain ⟨y, hy⟩ := h.exists_element hv
    cases hy.elementFilter_eq.symm.trans hx
    exact ⟨v, hv, hy⟩
  · rintro ⟨v, hv, hx⟩
    exact ⟨v, hv, hx.elementFilter_eq⟩

end Sorted

section Meaning

variable {α : Type} {eval : Sql → α} {truth : α → Option Bool} {ofTruth : Option Bool → α}
  (hselects : Selects eval truth ofTruth)

include hselects

theorem truth_membership (column : Sql) (hasNull : Bool) (literals : List Literal) (conditions : List Sql) :
    truth (eval (membership column hasNull literals conditions)) =
      kleene true ((if hasNull then [truth (eval (.isNull column false))] else []) ++
        (literals.map fun l => truth (eval (.compare .eq column (.literal l)))) ++
        conditions.map fun x => truth (eval x)) := by
  have hlisted : kleene true ((if literals.isEmpty then [] else [Sql.inList column (literals.map .literal) false]).map
      fun x => truth (eval x)) = kleene true (literals.map fun l => truth (eval (.compare .eq column (.literal l)))) := by
    cases literals with
    | nil => rfl
    | cons l rest => exact (kleene_singleton _).trans (hselects.member column (l :: rest))
  unfold membership
  extract_lets among
  split
  · rw [Sql.anyOf_eq, hselects.truth_combine, List.map_append, List.map_append]
    refine kleene_append_congr (kleene_append_congr ?_ hlisted) rfl
    cases hasNull <;> rfl
  · next hplain =>
    obtain ⟨rfl, rfl⟩ : hasNull = false ∧ conditions = [] := by simpa using hplain
    simp only [Bool.false_eq_true, if_false, List.nil_append, List.map_nil, List.append_nil]
    split
    · next hempty =>
      rw [List.isEmpty_iff.mp hempty, hselects.literal]
      rfl
    · exact hselects.member column literals

theorem truth_isNull_filterColumn (texts : Bool) :
    truth (eval (.isNull (filterColumn i texts) false)) = truth (eval (.isNull i.value.sql false)) := by
  unfold filterColumn
  split
  · exact hselects.nullText _
  · rfl

section

variable {vs : List Json} {literals : List Literal} {conditions : List Sql} (h : Sorted i now vs literals conditions)
  (huniform : Uniform vs)

include h huniform

theorem Sorted.mem_truths_iff (t : Option Bool) :
    let column := filterColumn i ((sortLiterals literals).any isText)
    t ∈ (if vs.any isNullJson then [truth (eval (.isNull column false))] else []) ++
        ((sortLiterals literals).map fun l => truth (eval (.compare .eq column (.literal l)))) ++
        (conditions.map fun x => truth (eval x)) ↔
      ∃ v ∈ vs, ∃ x, Element i now v x ∧ truth (eval x) = t := by
  intro column
  simp only [List.mem_append, List.mem_map, or_assoc]
  constructor
  · rintro (ht | ⟨l, hl, rfl⟩ | ⟨x, hx, rfl⟩)
    · split at ht
      · next hnull =>
        obtain ⟨v, hv, hnull⟩ := List.any_eq_true.mp hnull
        obtain rfl := eq_null_of_isNullJson hnull
        refine ⟨.null, hv, _, .null, ?_⟩
        rw [List.mem_singleton.mp ht, truth_isNull_filterColumn hselects]
      · cases ht
    · have hl := List.mem_mergeSort.mp hl
      obtain ⟨v, hv, hnull, hcondition, hvalue⟩ := (h.mem_literals_iff l).mp hl
      refine ⟨v, hv, _, .plain hnull hcondition hvalue, ?_⟩
      rw [← h.isText_of_uniform huniform hl]
    · obtain ⟨v, hv, hnull, hcondition, hx⟩ := (h.mem_conditions_iff x).mp hx
      exact ⟨v, hv, x, .condition hnull hcondition hx, rfl⟩
  · rintro ⟨v, hv, x, hx, rfl⟩
    cases hx with
    | null =>
      left
      have hnull : vs.any isNullJson = true := List.any_eq_true.mpr ⟨.null, hv, rfl⟩
      rw [if_pos hnull, truth_isNull_filterColumn hselects]
      exact List.mem_singleton.mpr rfl
    | @plain _ l hnull hcondition hvalue =>
      right; left
      have hl := (h.mem_literals_iff l).mpr ⟨v, hv, hnull, hcondition, hvalue⟩
      refine ⟨l, List.mem_mergeSort.mpr hl, ?_⟩
      rw [← h.isText_of_uniform huniform hl]
    | condition hnull hcondition hvalue =>
      right; right
      exact ⟨x, (h.mem_conditions_iff x).mpr ⟨v, hv, hnull, hcondition, hvalue⟩, rfl⟩

theorem Sorted.truth_memberFilter {parts : List Sql} (hparts : vs.mapM (elementFilter i now) = .ok parts) :
    truth (eval (memberFilter i vs literals conditions)) = kleene true (parts.map fun x => truth (eval x)) := by
  refine (truth_membership hselects _ _ _ _).trans (kleene_congr fun t => ?_)
  refine (h.mem_truths_iff hselects huniform t).trans ?_
  simp only [List.mem_map, h.mem_parts_iff hparts]
  constructor
  · rintro ⟨v, hv, x, hx, rfl⟩
    exact ⟨x, ⟨v, hv, hx⟩, rfl⟩
  · rintro ⟨x, ⟨v, hv, hx⟩, rfl⟩
    exact ⟨v, hv, x, hx, rfl⟩

end

end Meaning

end ShelfQuery.Recipe

namespace ShelfQuery.Engine

open ShelfQuery.Sql

theorem Affinity.shared_none (a : Affinity) : a.shared .none = a := by cases a <;> rfl

theorem isNull_asText (cell : Rows.Cell) : (asText cell).isNull = cell.isNull := by cases cell <;> rfl

theorem selects_eval (tables : List StoredTable) (f : Focus) : Recipe.Selects (eval tables f) truth ofTruth where
  toEvaluates := evaluates_eval tables f
  member x ls := by
    refine (truth_ofTruth _).trans (congrArg (kleene true) ?_)
    rw [evalAll_eq, List.map_map, List.map_map]
    refine List.map_congr_left fun l _ => ?_
    refine Eq.trans ?_ (truth_ofTruth _).symm
    exact congrArg (fun a => holds .eq a (eval tables f x) (literalCell l)) (Affinity.shared_none _).symm
  nullText x := congrArg (fun isNull => truth (ofBool (isNull != false))) (isNull_asText (eval tables f x))

end ShelfQuery.Engine

namespace ShelfQuery.Sql

def Primitives.HasTexts (p : Primitives) : Prop := ∀ v : Value, v.isNull = false → (p.cast .varchar v).isNull = false

theorem Primitives.HasTexts.selects_eval {p : Primitives} (h : p.HasTexts) (f : Frame) :
    Recipe.Selects (Sql.eval p f) p.truth .ofTruth where
  toEvaluates := Sql.evaluates_eval p f
  member x ls := by
    refine (Primitives.truth_ofTruth _).trans (congrArg (kleene true) ?_)
    rw [evalAll_eq_map, List.map_map, List.map_map]
    exact List.map_congr_left fun l _ => (Primitives.truth_ofTruth _).symm
  nullText x := by
    refine congrArg (fun isNull : Bool => p.truth (.ofTruth (some (isNull != false)))) ?_
    show (if (x.eval p f).isNull then Value.null else p.cast .varchar (x.eval p f)).isNull = (x.eval p f).isNull
    split
    · next hnull => exact hnull.symm
    · next hnull => rw [h _ (Bool.eq_false_iff.mpr hnull), Bool.eq_false_iff.mpr hnull]

end ShelfQuery.Sql

namespace ShelfQuery.Recipe

open ShelfQuery.Shelf ShelfQuery.Sql ShelfQuery.Data ShelfQuery.Calendar ShelfQuery.Expression

/-- On every row of stored tables, and of any database in which values have texts, a filter has the truth
that is made of the truths of its parts. -/
def MadeOf (sql : Sql) (join : List (Option Bool) → Option Bool) (parts : List Sql) : Prop :=
  (∀ tables f, Engine.truth (Engine.eval tables f sql) =
    join (parts.map fun x => Engine.truth (Engine.eval tables f x))) ∧
  ∀ (p : Primitives) f, p.HasTexts → sql.truthIn p f = join (parts.map fun x => x.truthIn p f)

def disjunction (ts : List (Option Bool)) : Option Bool := ts.foldr kleeneOr (some false)

def conjunction (ts : List (Option Bool)) : Option Bool := ts.foldr kleeneAnd (some true)

theorem madeOf_of_selects {sql : Sql} {join : List (Option Bool) → Option Bool} {parts : List Sql}
    (h : ∀ {α : Type} {eval : Sql → α} {truth : α → Option Bool} {ofTruth : Option Bool → α},
      Selects eval truth ofTruth → truth (eval sql) = join (parts.map fun x => truth (eval x))) : MadeOf sql join parts :=
  ⟨fun tables f => h (Engine.selects_eval tables f), fun _ f hp => h (hp.selects_eval f)⟩

/-- The filter of a list is made of the filters of its elements: one of them holds, or none of them, or all
of the conditions, or one of the quick selections. A list without elements has all four filters. -/
theorem list_filters (i : Ingredient) (now : DateTime) (vs : List Json) :
    (∀ operator sql, operator = none ∨ operator = some "in" → buildFilter i now operator (.arr vs) = .ok sql →
      Uniform vs → ∃ parts, vs.mapM (elementFilter i now) = .ok parts ∧ MadeOf sql disjunction parts) ∧
    (∀ sql, buildFilter i now (some "notin") (.arr vs) = .ok sql → Uniform vs →
      ∃ parts, vs.mapM (elementFilter i now) = .ok parts ∧ MadeOf sql (fun ts => kleeneNot (disjunction ts)) parts) ∧
    (∀ sql, buildFilter i now (some "and") (.arr vs) = .ok sql →
      ∃ parts, vs.mapM (nestedFilter i now) = .ok parts ∧ MadeOf sql conjunction parts) ∧
    (∀ sql, buildFilter i now (some "quickselect") (.arr vs) = .ok sql →
      ∃ parts, vs.mapM (quickSelect i) = .ok parts ∧ MadeOf sql disjunction parts) ∧
    ∀ operator ∈ ["in", "notin", "and", "quickselect"], ∃ sql, buildFilter i now (some operator) (.arr []) = .ok sql := by
  refine ⟨fun operator sql hoperator h huniform => ?_, fun sql h huniform => ?_, fun sql h => ?_, fun sql h => ?_, ?_⟩
  · have hin : operator.getD "in" = "in" := by rcases hoperator with rfl | rfl <;> rfl
    rw [buildFilter_arr, hin] at h
    obtain ⟨literals, conditions, hsorted, rfl⟩ := sorted_of_listFilter (.inl rfl) h
    obtain ⟨parts, hparts⟩ := hsorted.exists_parts
    refine ⟨parts, hparts, madeOf_of_selects fun hselects => ?_⟩
    rw [disjunction, ← kleene_true_eq]
    exact hsorted.truth_memberFilter hselects huniform hparts
  · rw [buildFilter_arr] at h
    obtain ⟨literals, conditions, hsorted, rfl⟩ := sorted_of_listFilter (.inr rfl) h
    obtain ⟨parts, hparts⟩ := hsorted.exists_parts
    refine ⟨parts, hparts, madeOf_of_selects fun hselects => ?_⟩
    rw [disjunction, ← kleene_true_eq, ← notTrue_eq, ← hsorted.truth_memberFilter hselects huniform hparts]
    exact hselects.truth_negate _
  · rw [buildFilter_arr] at h
    obtain ⟨parts, hparts, hsql⟩ := bind_ok h
    cases hsql
    refine ⟨parts, hparts, madeOf_of_selects fun hselects => ?_⟩
    rw [conjunction, ← kleene_false_eq, Sql.allOf_eq]
    exact hselects.truth_combine false parts
  · rw [buildFilter_arr] at h
    obtain ⟨parts, hparts, hsql⟩ := bind_ok h
    cases hsql
    refine ⟨parts, hparts, madeOf_of_selects fun hselects => ?_⟩
    rw [disjunction, ← kleene_true_eq, Sql.anyOf_eq]
    exact hselects.truth_combine true parts
  · simp only [List.forall_mem_cons]
    exact ⟨⟨_, rfl⟩, ⟨_, rfl⟩, ⟨_, rfl⟩, ⟨_, rfl⟩, List.forall_mem_nil _⟩

/-- A number that is compared with a text, null, and a condition that holds a list with null. -/
theorem list_filters_mixed :
    let field : Field := ⟨.column "people" "age", .num, false⟩
    let age : Ingredient := ⟨"age", .dimension, field, none, none, .ascending, none, [], false, none, none, none⟩
    let now : DateTime := .startOfDay ⟨2020, 1, 14, by decide⟩
    let older : Json := .obj [("operator", .str "gt"), ("value", .int 40)]
    let others : Json := .obj [("operator", .str "notin"), ("value", .arr [.int 60, .null, .int 50])]
    let both : Json := .obj [("operator", .str "and"), ("value", .arr [older, others])]
    let vs : List Json := [.str "30", .null, both, .str "20"]
    Uniform vs ∧ ∃ sql parts, buildFilter age now none (.arr vs) = .ok sql ∧
      vs.mapM (elementFilter age now) = .ok parts ∧ MadeOf sql disjunction parts := by
  intro field age now older others both vs
  have huniform : Uniform vs := ⟨true, by simp [vs, both, isNullJson, isCondition, Json.member?, Json.str?]⟩
  obtain ⟨sql, hsql⟩ : ∃ sql, buildFilter age now none (.arr vs) = .ok sql := ⟨_, rfl⟩
  obtain ⟨parts, hparts, hmade⟩ := (list_filters age now vs).1 none sql (.inl rfl) hsql huniform
  exact ⟨huniform, sql, parts, hsql, hparts, hmade⟩

end ShelfQuery.Recipe
