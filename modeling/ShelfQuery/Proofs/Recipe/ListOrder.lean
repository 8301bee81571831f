import ShelfQuery.Proofs.Compiler.LiteralOrder
import ShelfQuery.Proofs.Data.Sorting
import ShelfQuery.Proofs.Recipe.ListFilters
import ShelfQuery.Proofs.Sql.LiteralTexts
import ShelfQuery.Proofs.Sql.Occurrence

set_option autoImplicit false

namespace ShelfQuery.Recipe

open ShelfQuery.Shelf ShelfQuery.Sql ShelfQuery.Schema ShelfQuery.Data ShelfQuery.Calendar ShelfQuery.Expression
open ShelfQuery.Number

variable {a b l : Literal} {ls ms : List Literal} {v : Json} {datatype : DataType} {vs ws : List Json}

def dateKey (d : Date) : List ℚ := [(d.year : ℚ), (d.month : ℚ), (d.day : ℚ)]

def timeKey (t : Time) : List ℚ := [(t.second : ℚ), (t.nano : ℚ)]

def textKey (cs : List Char) : List ℚ := cs.map fun c => (c.toNat : ℚ)

def sortKey : Literal → List ℚ
  | .null => [0]
  | .bool b => [1, if b then 1 else 0]
  | .int n => [2, Binary64.value (Binary64.ofInt n)]
  | .float x => [2, Binary64.value x]
  | .text s => 3 :: textKey s.toList
  | .date d => 4 :: dateKey d
  | .datetime m => 5 :: (dateKey m.date ++ timeKey m.time)

theorem sortKey_head (l : Literal) : ∃ rest, sortKey l = (literalRank l : ℚ) :: rest := by
  cases l <;> exact ⟨_, rfl⟩

theorem textKey_lt_iff (a b : List Char) : textKey a < textKey b ↔ Text.before a b = true := by
  induction a generalizing b with
  | nil => cases b <;> simp [textKey, Text.before]
  | cons x a ih =>
    cases b with
    | nil => simp [textKey, Text.before]
    | cons y b =>
      have hchar : (x.toNat : ℚ) = (y.toNat : ℚ) ↔ x = y := by rw [Nat.cast_inj, Char.toNat_inj]
      have hrest := ih b
      simp only [textKey, List.map_cons] at hrest ⊢
      rw [List.cons_lt_cons_iff, Nat.cast_lt, hchar, hrest]
      simp [Text.before]

theorem textKey_inj {a b : List Char} (h : textKey a = textKey b) : a = b := by
  refine List.map_injective_iff.mpr (fun x y hxy => ?_) h
  exact Char.toNat_inj.mp (Nat.cast_inj.mp hxy)

theorem dateKey_append_lt_iff (a b : Date) (u v : List ℚ) :
    dateKey a ++ u < dateKey b ++ v ↔ a.before b = true ∨ a = b ∧ u < v := by
  obtain ⟨y, m, d, ha⟩ := a
  obtain ⟨y', m', d', hb⟩ := b
  simp only [dateKey, List.cons_append, List.nil_append, List.cons_lt_cons_iff, Int.cast_lt, Nat.cast_lt, Int.cast_inj,
    Nat.cast_inj, Date.before, Date.mk.injEq, Bool.or_eq_true, Bool.and_eq_true, decide_eq_true_eq, beq_iff_eq]
  tauto

theorem timeKey_lt_iff (s t : Time) :
    timeKey s < timeKey t ↔ s.second < t.second ∨ s.second = t.second ∧ s.nano < t.nano := by
  simp [timeKey, List.cons_lt_cons_iff]

theorem dateTimeKey_lt_iff (a b : DateTime) :
    dateKey a.date ++ timeKey a.time < dateKey b.date ++ timeKey b.time ↔ a.before b = true := by
  rw [dateKey_append_lt_iff, timeKey_lt_iff]
  simp [DateTime.before]

theorem dateKey_lt_iff (a b : Date) : dateKey a < dateKey b ↔ a.before b = true := by
  have h := dateKey_append_lt_iff a b [] []
  simpa using h

theorem dateKey_inj {a b : Date} (h : dateKey a = dateKey b) : a = b := by
  obtain ⟨y, m, d, ha⟩ := a
  obtain ⟨y', m', d', hb⟩ := b
  simpa [dateKey] using h

theorem timeKey_inj {s t : Time} (h : timeKey s = timeKey t) : s = t := by
  obtain ⟨s, n, hs, hn⟩ := s
  obtain ⟨s', n', hs', hn'⟩ := t
  simpa [timeKey] using h

theorem literalOrder_rank (h : literalRank a ≠ literalRank b) :
    literalOrder a b = compare (literalRank a) (literalRank b) := by
  cases a <;> cases b <;> simp_all [literalOrder, literalRank, Literal.number?]

theorem compareTexts_gt_iff (s t : String) : compareTexts s t = .gt ↔ Text.before t.toList s.toList = true := by
  constructor
  · intro h
    unfold compareTexts at h
    split at h
    · cases h
    · next hbefore =>
      split at h
      · cases h
      · next hne =>
        refine Text.before_of_not (Bool.eq_false_of_not_eq_true hbefore) fun heq => hne ?_
        exact beq_iff_eq.mpr (String.toList_inj.mp heq)
  · intro h
    unfold compareTexts
    rw [Text.before_asymm h, if_neg Bool.false_ne_true, if_neg]
    intro heq
    rw [beq_iff_eq.mp heq] at h
    have hasymm := Text.before_asymm h
    rw [h] at hasymm
    cases hasymm

theorem chronological_gt_iff {α : Type} {before : α → α → Bool} (hasymm : ∀ a b, before b a = true → before a b = false)
    (a b : α) : (if before a b then Ordering.lt else if before b a then .gt else .eq) = .gt ↔ before b a = true := by
  cases hba : before b a with
  | true => simp [hasymm a b hba]
  | false => split <;> simp

theorem number_finite (hl : l.isMachine = true) {x : Float} (hx : l.number? = some x) :
    Binary64.isFinite x = true ∧ sortKey l = [2, Binary64.value x] := by
  cases l with
  | int n =>
    cases hx
    exact ⟨Binary64.isFinite_ofInt (size_of_fitsWord hl), rfl⟩
  | float x =>
    cases hx
    exact ⟨hl, rfl⟩
  | _ => cases hx

theorem literalOrder_gt_iff (ha : a.isMachine = true) (hb : b.isMachine = true) :
    literalOrder a b = .gt ↔ sortKey b < sortKey a := by
  by_cases hrank : literalRank a = literalRank b
  · have hnumbers {x y : Float} (hx : a.number? = some x) (hy : b.number? = some y)
        (horder : literalOrder a b = (compareFloats x y).getD .eq) : literalOrder a b = .gt ↔ sortKey b < sortKey a := by
      obtain ⟨hfx, hkx⟩ := number_finite ha hx
      obtain ⟨hfy, hky⟩ := number_finite hb hy
      rw [horder, compareFloats_of_finite hfx hfy, Option.getD_some, compare_gt_iff_gt, hkx, hky]
      simp [List.cons_lt_cons_iff]
    cases a with
    | null =>
      cases b with
      | null => simp [literalOrder, sortKey, Literal.number?, literalRank]
      | _ => cases hrank
    | bool x =>
      cases b with
      | bool y => cases x <;> cases y <;> simp [literalOrder, sortKey, compareBools, List.cons_lt_cons_iff]
      | _ => cases hrank
    | int n =>
      cases b with
      | int m => exact hnumbers rfl rfl rfl
      | float y => exact hnumbers rfl rfl rfl
      | _ => cases hrank
    | float x =>
      cases b with
      | int m => exact hnumbers rfl rfl rfl
      | float y => exact hnumbers rfl rfl rfl
      | _ => cases hrank
    | text s =>
      cases b with
      | text t =>
        rw [sortKey, sortKey, List.cons_lt_cons_self, textKey_lt_iff]
        exact compareTexts_gt_iff s t
      | _ => cases hrank
    | date d =>
      cases b with
      | date e =>
        rw [sortKey, sortKey, List.cons_lt_cons_self, dateKey_lt_iff]
        refine chronological_gt_iff (fun d e h => ?_) d e
        rw [← dateKey_lt_iff] at h
        exact Bool.eq_false_of_not_eq_true fun hcontra => lt_asymm h ((dateKey_lt_iff d e).mpr hcontra)
      | _ => cases hrank
    | datetime m =>
      cases b with
      | datetime n =>
        rw [sortKey, sortKey, List.cons_lt_cons_self, dateTimeKey_lt_iff]
        refine chronological_gt_iff (fun m n h => ?_) m n
        rw [← dateTimeKey_lt_iff] at h
        exact Bool.eq_false_of_not_eq_true fun hcontra => lt_asymm h ((dateTimeKey_lt_iff m n).mpr hcontra)
      | _ => cases hrank
  · obtain ⟨u, hu⟩ := sortKey_head a
    obtain ⟨v, hv⟩ := sortKey_head b
    rw [literalOrder_rank hrank, compare_gt_iff_gt, hu, hv, List.cons_lt_cons_iff, Nat.cast_lt, Nat.cast_inj]
    simp [Ne.symm hrank]

theorem sortLiterals_eq (h : ∀ l ∈ ls, l.isMachine = true) : sortLiterals ls = sortBy sortKey ls := by
  have horder (a : Literal) (ha : a ∈ ls) (b : Literal) (hb : b ∈ ls) :
      (literalOrder a b != .gt) = decide (sortKey a ≤ sortKey b) := by
    rw [Bool.eq_iff_iff, bne_iff_ne, decide_eq_true_eq, ne_eq, literalOrder_gt_iff (h a ha) (h b hb), not_lt]
  have hsort := List.map_mergeSort (r := fun a b => literalOrder a b != .gt)
    (s := fun a b => decide (sortKey a ≤ sortKey b)) (f := id) horder
  rwa [List.map_id, List.map_id] at hsort

/-- The value of a number, rounded to a double. -/
def double? (l : Literal) : Option ℚ := l.number?.map Binary64.value

theorem sortKey_eq_number_iff (l : Literal) (q : ℚ) : sortKey l = [2, q] ↔ double? l = some q := by
  cases l <;> simp [sortKey, double?, Literal.number?]

theorem render_of_sortKey (hkey : sortKey a = sortKey b) (hnumber : double? a = none) : a.render = b.render := by
  have hrank : (literalRank a : ℚ) = literalRank b := by
    obtain ⟨u, hu⟩ := sortKey_head a
    obtain ⟨v, hv⟩ := sortKey_head b
    rw [hu, hv] at hkey
    exact (List.cons.inj hkey).1
  have hrank := Nat.cast_inj.mp hrank
  cases a with
  | null =>
    cases b with
    | null => rfl
    | _ => cases hrank
  | bool x =>
    cases b with
    | bool y => cases x <;> cases y <;> simp_all [sortKey]
    | _ => cases hrank
  | int | float => cases hnumber
  | text s =>
    cases b with
    | text t => rw [String.toList_inj.mp (textKey_inj (List.cons.inj hkey).2)]
    | _ => cases hrank
  | date d =>
    cases b with
    | date e => rw [dateKey_inj (List.cons.inj hkey).2]
    | _ => cases hrank
  | datetime m =>
    cases b with
    | datetime n =>
      obtain ⟨hdate, htime⟩ := List.append_inj (List.cons.inj hkey).2 rfl
      have heq : m = n := DateTime.mk.injEq .. ▸ ⟨dateKey_inj hdate, timeKey_inj htime⟩
      rw [heq]
    | _ => cases hrank

/-- How the numbers that are rounded to a double are written, in their order. -/
def spellings (q : ℚ) (ls : List Literal) : List String := (ls.filter fun l => double? l = some q).map Literal.render

theorem eq_of_perm_of_const {xs ys : List String} (hperm : xs.Perm ys) (hconst : ∀ x ∈ xs, ∀ y ∈ xs, x = y) : xs = ys := by
  cases xs with
  | nil => rw [hperm.nil_eq]
  | cons x xs =>
    have hxs := List.eq_replicate_of_mem fun y hy => hconst y hy x (.head _)
    rw [hxs] at hperm ⊢
    exact (List.perm_replicate.mp hperm.symm).symm

/-- Two arrangements of literals are sorted to the same texts if and only if the numbers of each double are
spelled alike. -/
theorem sorted_texts_iff (hperm : ls.Perm ms) (hmachine : ∀ l ∈ ls, l.isMachine = true) :
    (sortLiterals ls).map Literal.render = (sortLiterals ms).map Literal.render ↔
      ∀ q, spellings q ls = spellings q ms := by
  have hnumber (q : ℚ) (ns : List Literal) : (itemsOf sortKey [2, q] ns).map Literal.render = spellings q ns := by
    simp only [itemsOf, spellings, sortKey_eq_number_iff]
  rw [sortLiterals_eq hmachine, sortLiterals_eq fun m hm => hmachine m (hperm.mem_iff.mpr hm), sortBy_map_eq_iff hperm]
  constructor
  · intro h q
    rw [← hnumber, ← hnumber, h]
  · intro h k
    by_cases hk : ∃ q, k = [2, q]
    · obtain ⟨q, rfl⟩ := hk
      rw [hnumber, hnumber, h]
    · -- the literals of any other key have one text
      refine eq_of_perm_of_const ((hperm.filter _).map _) fun x hx y hy => ?_
      obtain ⟨a, ha, rfl⟩ := List.mem_map.mp hx
      obtain ⟨b, hb, rfl⟩ := List.mem_map.mp hy
      have hka : sortKey a = k := (mem_itemsOf_iff.mp ha).2
      have hkb : sortKey b = k := (mem_itemsOf_iff.mp hb).2
      refine render_of_sortKey (hka.trans hkb.symm) ?_
      cases hdouble : double? a with
      | none => rfl
      | some q => exact absurd ⟨q, hka.symm.trans ((sortKey_eq_number_iff a q).mpr hdouble)⟩ hk

/-- The literals of a condition stand between two texts that do not depend on them. -/
def Framed (s : Setting) (f : List Literal → Sql) : Prop :=
  ∃ left right, ∀ ls, (f ls).render s = left ++ Text.join ", " (ls.map Literal.render) ++ right

theorem Framed.around {s : Setting} {f g : List Literal → Sql} (hf : Framed s f) (left right : String)
    (hg : ∀ ls, (g ls).render s = left ++ (f ls).render s ++ right) : Framed s g := by
  obtain ⟨left', right', hf⟩ := hf
  refine ⟨left ++ left', right' ++ right, fun ls => ?_⟩
  rw [hg, hf]
  simp only [String.append_assoc]

section

variable (s : Setting) (column : Sql)

theorem framed_inList (negated : Bool) : Framed s fun ls => .inList column (ls.map .literal) negated := by
  let text := guard column 5 true (column.render s)
  have hitems (ls : List Literal) : renderAll s (ls.map .literal) = ls.map Literal.render := by
    rw [Sql.renderAll_eq, List.map_map]
    rfl
  cases negated with
  | true =>
    refine ⟨"(" ++ text ++ " NOT IN (", "))", fun ls => ?_⟩
    rw [← hitems]
    rfl
  | false =>
    refine ⟨text ++ " IN (", ")", fun ls => ?_⟩
    rw [← hitems]
    rfl

theorem framed_orNull :
    Framed s fun ls => .or [.isNull column false, .inList column (ls.map .literal) false] := by
  refine (framed_inList s column false).around ((Sql.isNull column false).render s ++ " OR ") "" fun ls => ?_
  rw [String.append_empty]
  rfl

def closing (operator : String) (x : Sql) : Sql := if operator = "notin" then x.negate else x

theorem framed_membership (operator : String) (hasNull : Bool) :
    ∃ f, Framed s f ∧ ∀ ls, ls ≠ [] → closing operator (membership column hasNull ls []) = f ls := by
  have hmembership (ls : List Literal) (hls : ls ≠ []) :
      membership column hasNull ls [] = if hasNull then .or [.isNull column false, .inList column (ls.map .literal) false]
        else .inList column (ls.map .literal) false := by
    cases ls with
    | nil => exact absurd rfl hls
    | cons l ls => cases hasNull <;> rfl
  unfold closing
  split
  · cases hasNull with
    | true =>
      refine ⟨fun ls => .not (.or [.isNull column false, .inList column (ls.map .literal) false]), ?_, fun ls hls => ?_⟩
      · exact (framed_orNull s column).around "NOT (" ")" fun ls => rfl
      · rw [hmembership ls hls]
        rfl
    | false =>
      refine ⟨_, framed_inList s column true, fun ls hls => ?_⟩
      rw [hmembership ls hls]
      rfl
  · cases hasNull with
    | true => exact ⟨_, framed_orNull s column, hmembership⟩
    | false => exact ⟨_, framed_inList s column false, hmembership⟩

end

theorem render_membership_eq_iff (operator : String) (column : Sql) (hasNull : Bool) (s : Setting)
    (hlength : ls.length = ms.length) :
    (closing operator (membership column hasNull ls [])).render s =
        (closing operator (membership column hasNull ms [])).render s ↔
      ls.map Literal.render = ms.map Literal.render := by
  cases ls with
  | nil =>
    rw [List.eq_nil_of_length_eq_zero hlength.symm]
    simp
  | cons l ls =>
    have hms : ms ≠ [] := by
      rintro rfl
      cases hlength
    obtain ⟨f, ⟨left, right, htext⟩, hf⟩ := framed_membership s column operator hasNull
    rw [hf _ (List.cons_ne_nil l ls), hf _ hms, htext, htext]
    constructor
    · intro h
      have huncut (ns : List Literal) (t : String) (ht : t ∈ ns.map Literal.render) : Uncut t.toList := by
        obtain ⟨n, -, rfl⟩ := List.mem_map.mp ht
        exact uncut_literal n
      refine join_comma_inj (huncut _) (huncut _) (by simpa using hlength) ?_
      have hchars := congrArg String.toList h
      simp only [String.toList_append, List.append_left_inj, List.append_right_inj, String.toList_inj] at hchars
      exact hchars
    · intro h
      rw [h]

/-- A value that is no list and no record. Its number fits 64 bits, with a sign or without, or is a finite double. -/
def isScalar : Json → Bool
  | .int n => decide (-(2 ^ 63) ≤ n) && decide (n < 2 ^ 64)
  | .float x => Binary64.isFinite x
  | .arr _ => false
  | .obj _ => false
  | _ => true

def numeral? : Json → Option Literal
  | .int n => some (if fitsWord n then .int n else .float (Binary64.ofInt n))
  | .float x => some (.float x)
  | _ => none

def numerals (vs : List Json) : List Literal := vs.filterMap numeral?

theorem isCondition_of_isScalar (h : isScalar v = true) : isCondition v = false := by
  cases v with
  | obj => cases h
  | _ => rfl

variable {i : Ingredient} {now : DateTime}

theorem literalOf_isMachine (hv : isScalar v = true) (h : literalOf datatype now v = .ok l) : l.isMachine = true := by
  cases v with
  | int n =>
    cases h
    simp only [isScalar, Bool.and_eq_true, decide_eq_true_eq] at hv
    split
    · next hword => exact hword
    · exact Binary64.isFinite_ofInt (by omega)
  | float x =>
    cases h
    exact hv
  | str s =>
    simp only [literalOf] at h
    split at h
    · split at h
      · cases h
        split <;> rfl
      · cases h
    · cases h
      rfl
  | arr | obj => cases h
  | _ =>
    cases h
    rfl

theorem numeral?_of_literalOf (h : literalOf datatype now v = .ok l) :
    numeral? v = if l.number?.isSome then some l else none := by
  cases v with
  | int n =>
    cases h
    rw [numeral?]
    split <;> rfl
  | str s =>
    simp only [literalOf] at h
    split at h
    · split at h
      · cases h
        split <;> rfl
      · cases h
    · cases h
      rfl
  | arr | obj => cases h
  | _ =>
    cases h
    rfl

theorem numerals_of_mapM (h : (vs.filter fun v => !isNullJson v).mapM (literalOf datatype now) = .ok ls) :
    numerals vs = ls.filter fun l => l.number?.isSome := by
  induction vs generalizing ls with
  | nil =>
    cases h
    rfl
  | cons v vs ih =>
    rw [List.filter_cons] at h
    split at h
    · rw [List.mapM_cons] at h
      obtain ⟨l, hl, h⟩ := bind_ok h
      obtain ⟨ls, hls, h⟩ := bind_ok h
      cases h
      rw [numerals, List.filterMap_cons, numeral?_of_literalOf hl, List.filter_cons, ← ih hls]
      cases l.number?.isSome <;> rfl
    · next hnull =>
      obtain rfl := eq_null_of_isNullJson (by simpa using hnull)
      exact ih h

theorem spellings_numerals (h : (vs.filter fun v => !isNullJson v).mapM (literalOf datatype now) = .ok ls) (q : ℚ) :
    spellings q (numerals vs) = spellings q ls := by
  rw [numerals_of_mapM h, spellings, List.filter_filter, spellings]
  refine congrArg _ (List.filter_congr fun l _ => ?_)
  unfold double?
  cases l.number? <;> simp

theorem listFilter_scalars {nested : Json → Except FilterError Sql} {operator : String}
    (hoperator : operator = "in" ∨ operator = "notin") (hscalar : ∀ v ∈ vs, isScalar v = true) :
    listFilter i now nested operator vs =
      ((vs.filter fun v => !isNullJson v).mapM (literalOf i.value.datatype now)).map fun ls =>
        closing operator (memberFilter i vs ls []) := by
  have hcondition (v : Json) (hv : v ∈ vs.filter fun v => !isNullJson v) : isCondition v = false :=
    isCondition_of_isScalar (hscalar v (List.mem_of_mem_filter hv))
  have hplain : ((vs.filter fun v => !isNullJson v).filter fun v => !isCondition v) = vs.filter fun v => !isNullJson v :=
    List.filter_eq_self.mpr fun v hv => by simp [hcondition v hv]
  have hnested : (vs.filter fun v => !isNullJson v).filter isCondition = [] :=
    List.filter_eq_nil_iff.mpr fun v hv => by simp [hcondition v hv]
  unfold listFilter
  split
  · simp at hoperator
  · simp at hoperator
  · simp at hoperator
  · rw [if_pos hoperator]
    simp only [hplain, hnested]
    cases (vs.filter fun v => !isNullJson v).mapM (literalOf i.value.datatype now) <;> rfl

theorem perm_of_mapM {ε α β : Type} {f : α → Except ε β} {xs xs' : List α} {ys ys' : List β} (hperm : xs.Perm xs')
    (h : xs.mapM f = .ok ys) (h' : xs'.mapM f = .ok ys') : ys.Perm ys' := by
  have hvalues := hperm.map f
  rw [map_eq_of_mapM h, map_eq_of_mapM h'] at hvalues
  exact (List.map_perm_map_iff fun _ _ heq => Except.ok.inj heq).mp hvalues

theorem exists_literals_of_perm (hperm : vs.Perm ws)
    (h : (vs.filter fun v => !isNullJson v).mapM (literalOf i.value.datatype now) = .ok ls) :
    ∃ ms, (ws.filter fun v => !isNullJson v).mapM (literalOf i.value.datatype now) = .ok ms ∧ ls.Perm ms := by
  have hpresent := hperm.filter fun v => !isNullJson v
  obtain ⟨ms, hms⟩ := exists_mapM fun w hw => exists_of_mapM h w (hpresent.mem_iff.mpr hw)
  exact ⟨ms, hms, perm_of_mapM hpresent h hms⟩

/-- The filters of one list in two orders have the same text if and only if, of the numbers that are rounded to
one double, the texts come in the same order. -/
theorem memberFilter_render_iff {operator : String} (hperm : vs.Perm ws)
    (hliterals : ls.Perm ms) (hmachine : ∀ l ∈ ls, l.isMachine = true) (s : Setting) :
    (closing operator (memberFilter i vs ls [])).render s = (closing operator (memberFilter i ws ms [])).render s ↔
      ∀ q, spellings q ls = spellings q ms := by
  have hsorted : (sortLiterals ls).Perm (sortLiterals ms) :=
    (List.mergeSort_perm ..).trans (hliterals.trans (List.mergeSort_perm ..).symm)
  have hnull : vs.any isNullJson = ws.any isNullJson := hperm.any_eq
  have htext : (sortLiterals ls).any isText = (sortLiterals ms).any isText := hsorted.any_eq
  simp only [memberFilter, hnull, htext]
  rw [render_membership_eq_iff operator _ _ s hsorted.length_eq]
  exact sorted_texts_iff hliterals hmachine

theorem spellings_eq_of_alike (hperm : vs.Perm ws)
    (halike : ∀ a ∈ numerals vs, ∀ b ∈ numerals vs, double? a = double? b → a.render = b.render) (q : ℚ) :
    spellings q (numerals vs) = spellings q (numerals ws) := by
  have hnumerals : (numerals vs).Perm (numerals ws) := hperm.filterMap _
  refine eq_of_perm_of_const ((hnumerals.filter _).map _) fun x hx y hy => ?_
  obtain ⟨a, ha, rfl⟩ := List.mem_map.mp hx
  obtain ⟨b, hb, rfl⟩ := List.mem_map.mp hy
  simp only [List.mem_filter, decide_eq_true_eq] at ha hb
  exact halike a ha.1 b hb.1 (ha.2.trans hb.2.symm)

/-- Two orders of one list fail alike or give filters. The filters have the same text if and only if the numbers
that are rounded to one double are spelled in the same order, as they are where such numbers are spelled alike. -/
theorem buildFilter_order_iff {operator : Option String} {vs ws : List Json}
    (hoperator : operator = none ∨ operator = some "in" ∨ operator = some "notin") (hperm : vs.Perm ws)
    (hscalar : ∀ v ∈ vs, isScalar v = true) :
    (∃ e f, buildFilter i now operator (.arr vs) = .error e ∧ buildFilter i now operator (.arr ws) = .error f) ∨
    ∃ x y, buildFilter i now operator (.arr vs) = .ok x ∧ buildFilter i now operator (.arr ws) = .ok y ∧
      (∀ s, x.render s = y.render s ↔ ∀ q, spellings q (numerals vs) = spellings q (numerals ws)) ∧
      ((∀ a ∈ numerals vs, ∀ b ∈ numerals vs, double? a = double? b → a.render = b.render) →
        ∀ s, x.render s = y.render s) := by
  have hin : operator.getD "in" = "in" ∨ operator.getD "in" = "notin" := by
    rcases hoperator with rfl | rfl | rfl
    · exact .inl rfl
    · exact .inl rfl
    · exact .inr rfl
  have hscalar' (w : Json) (hw : w ∈ ws) : isScalar w = true := hscalar w (hperm.mem_iff.mpr hw)
  rw [buildFilter_arr, buildFilter_arr, listFilter_scalars hin hscalar, listFilter_scalars hin hscalar']
  cases hls : (vs.filter fun v => !isNullJson v).mapM (literalOf i.value.datatype now) with
  | error e =>
    left
    cases hms : (ws.filter fun v => !isNullJson v).mapM (literalOf i.value.datatype now) with
    | error f => exact ⟨e, f, rfl, rfl⟩
    | ok ms =>
      obtain ⟨ls, hls', -⟩ := exists_literals_of_perm hperm.symm hms
      rw [hls] at hls'
      cases hls'
  | ok ls =>
    right
    obtain ⟨ms, hms, hliterals⟩ := exists_literals_of_perm hperm hls
    have hmachine (l : Literal) (hl : l ∈ ls) : l.isMachine = true := by
      obtain ⟨v, hv, hvalue⟩ := (mem_iff_of_mapM hls l).mp hl
      exact literalOf_isMachine (hscalar v (List.mem_of_mem_filter hv)) hvalue
    have hiff (s : Setting) :
        (closing (operator.getD "in") (memberFilter i vs ls [])).render s =
            (closing (operator.getD "in") (memberFilter i ws ms [])).render s ↔
          ∀ q, spellings q (numerals vs) = spellings q (numerals ws) := by
      simp only [spellings_numerals hls, spellings_numerals hms]
      exact memberFilter_render_iff hperm hliterals hmachine s
    rw [hms]
    exact ⟨_, _, rfl, rfl, hiff, fun halike s => (hiff s).mpr (spellings_eq_of_alike hperm halike)⟩

/-- Two to the fifty-third and the number after it come in the order they were given in. -/
theorem buildFilter_order_rounded :
    let field : Field := ⟨.column "census" "age", .num, false⟩
    let age : Ingredient := ⟨"age", .dimension, field, none, none, .ascending, none, [], false, none, none, none⟩
    let now : DateTime := .startOfDay ⟨2020, 1, 14, by decide⟩
    let vs : List Json := [.int 9007199254740992, .null, .int 9007199254740993]
    vs.Perm vs.reverse ∧ (∀ v ∈ vs, isScalar v = true) ∧
    ∃ x y, buildFilter age now (some "notin") (.arr vs) = .ok x ∧
      buildFilter age now (some "notin") (.arr vs.reverse) = .ok y ∧ ∀ s, x.render s ≠ y.render s := by
  intro field age now vs
  have hscalar : ∀ v ∈ vs, isScalar v = true := List.all_eq_true.mp (by decide +kernel)
  refine ⟨vs.reverse_perm.symm, hscalar, ?_⟩
  rcases @buildFilter_order_iff age now (some "notin") vs vs.reverse (.inr (.inr rfl)) vs.reverse_perm.symm hscalar with
    ⟨e, f, he, -⟩ | ⟨x, y, hx, hy, hiff, -⟩
  · cases he
  · refine ⟨x, y, hx, hy, fun s hs => ?_⟩
    have htexts := (hiff s).mp hs (Binary64.value (Binary64.ofInt 9007199254740992))
    have hshare : Binary64.value (Binary64.ofInt 9007199254740993) = Binary64.value (Binary64.ofInt 9007199254740992) :=
      (shareDouble_iff (by decide) (by decide)).mp (by decide +kernel)
    have hnumerals : numerals vs = [.int 9007199254740992, .int 9007199254740993] := rfl
    have hreversed : numerals vs.reverse = [.int 9007199254740993, .int 9007199254740992] := rfl
    simp only [hnumerals, hreversed, spellings, double?, Literal.number?, Option.map_some, hshare, List.filter_cons,
      decide_true, if_true, List.map_cons, List.cons.injEq] at htexts
    exact absurd htexts.1 (by decide +kernel)

end ShelfQuery.Recipe
