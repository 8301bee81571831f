import ShelfQuery.Proofs.Sql.Combine
import ShelfQuery.Schema.Table

set_option autoImplicit false

/-!
# SQL expressions that make sense

`WellTyped schema k x` says that the value of `x` is null or of the class `k`, and that conditions are in the form in
which they are joined and negated.
-/

namespace ShelfQuery.Sql

open ShelfQuery.Schema

inductive ValueClass where
  | null | bool | num | text | any
  deriving DecidableEq

inductive ValueClass.Le : ValueClass → ValueClass → Prop where
  | null {k : ValueClass} : Le .null k
  | any {k : ValueClass} : Le k .any
  | refl {k : ValueClass} : Le k k

theorem ValueClass.Le.trans {j k l : ValueClass} (h : Le j k) (h' : Le k l) : Le j l := by
  cases h with
  | null => exact .null
  | refl => exact h'
  | any =>
    cases h' with
    | any => exact .any
    | refl => exact .any

def Literal.valueClass : Literal → ValueClass
  | .null => .null
  | .bool _ => .bool
  | .int _ => .num
  | .float _ => .num
  | .text _ => .text
  | .date _ => .text
  | .datetime _ => .text

def ValueClass.ofDataType : DataType → ValueClass
  | .bool => .bool
  | .num => .num
  | _ => .text

section

/-- Negation leaves a condition as it is unless it can be taken inside. -/
def isNegatable : Sql → Bool
  | .literal (.bool _) => true
  | .not _ => true
  | .compare op _ _ => op.inverse?.isSome
  | .isNull _ _ => true
  | .inList _ _ _ => true
  | _ => false

inductive WellTyped (schema : Table) : ValueClass → Sql → Prop where
  | weaken {k k' x} : k.Le k' → WellTyped schema k x → WellTyped schema k' x
  | column {column} : column ∈ schema.columns → isIdentifier column.name = true →
      column.datatype.isUsable = true → WellTyped schema (.ofDataType column.datatype) (.column schema.name column.name)
  | literal (l : Literal) : WellTyped schema l.valueClass (.literal l)
  | number {op l r} : op ≠ .concat → WellTyped schema .num l → WellTyped schema .num r →
      WellTyped schema .num (.arith op l r)
  | addNull {l r} : WellTyped schema .null l → WellTyped schema .null r →
      WellTyped schema .null (.arith .add l r)
  | concat {l r} : WellTyped schema .text l → WellTyped schema .text r →
      WellTyped schema .text (.arith .concat l r)
  | neg {x} : WellTyped schema .num x → (∀ l, x = .literal l → l.number? = none) → WellTyped schema .num (.neg x)
  | compare {op l r} : WellTyped schema .any l → WellTyped schema .any r → WellTyped schema .bool (.compare op l r)
  | and {items} : 2 ≤ items.length → (∀ x ∈ items, WellTyped schema .bool x) → WellTyped schema .bool (.and items)
  | or {items} : 2 ≤ items.length → (∀ x ∈ items, WellTyped schema .bool x) → WellTyped schema .bool (.or items)
  | not {x} : WellTyped schema .bool x → x.isNegatable = false → WellTyped schema .bool (.not x)
  | isNull {x negated} : WellTyped schema .any x → WellTyped schema .bool (.isNull x negated)
  | inList {x items negated} : WellTyped schema .any x → (∀ y ∈ items, WellTyped schema .any y) →
      WellTyped schema .bool (.inList x items negated)
  | between {x low high} : WellTyped schema .any x → WellTyped schema .any low → WellTyped schema .any high →
      WellTyped schema .bool (.between x low high)
  | castFloat {x} : WellTyped schema .num x → WellTyped schema .num (.cast x .float)
  | castText {x} : WellTyped schema .any x → WellTyped schema .text (.cast x .varchar)
  | castInt {x} : WellTyped schema .any x → WellTyped schema .num (.cast x .integer)
  | case {k whens otherwise} : whens ≠ [] → (∀ w ∈ whens, WellTyped schema .bool w.1) →
      (∀ w ∈ whens, WellTyped schema k w.2) → (∀ x, otherwise = some x → WellTyped schema k x) →
      WellTyped schema k (.case whens otherwise)
  | coalesce {k args} : args ≠ [] → (∀ x ∈ args, WellTyped schema k x) → WellTyped schema k (.func "coalesce" args)
  | scalar {name args} : name ∈ ["substr", "lower"] → args ≠ [] → (∀ x ∈ args, WellTyped schema .any x) →
      WellTyped schema .text (.func name args)
  | sum {name x} : name ∈ ["sum", "avg"] → WellTyped schema .num x → WellTyped schema .num (.func name [x])
  | extremum {k name x} : name ∈ ["min", "max"] → WellTyped schema k x → WellTyped schema k (.func name [x])
  | count {x} : WellTyped schema .any x → WellTyped schema .num (.func "count" [x])
  | countAll : WellTyped schema .num (.func "count" [.star])
  | countDistinct {x} : WellTyped schema .any x → WellTyped schema .num (.countDistinct x)
  | percentile {n x} : WellTyped schema .num x → WellTyped schema .num (.percentile n x)
  | dateTrunc {unit x datetime} : WellTyped schema .text x → WellTyped schema .text (.dateTrunc unit x datetime)
  | total {k x} : WellTyped schema k x → WellTyped schema k (.total schema.name x)

/-- A property that passes from the parts of an expression to the whole, whatever the types are. -/
structure PassesUp (schema : Table) (P : Sql → Prop) : Prop where
  column {name} : isIdentifier name = true → P (.column schema.name name)
  literal l : P (.literal l)
  arith {x y} op : P x → P y → P (.arith op x y)
  neg {x} : P x → (∀ l, x = .literal l → l.number? = none) → P (.neg x)
  compare {x y} op : P x → P y → P (.compare op x y)
  and {items} : (∀ x ∈ items, P x) → P (.and items)
  or {items} : (∀ x ∈ items, P x) → P (.or items)
  not {x} : P x → P (.not x)
  isNull {x} negated : P x → P (.isNull x negated)
  inList {x items} negated : P x → (∀ y ∈ items, P y) → P (.inList x items negated)
  between {x low high} : P x → P low → P high → P (.between x low high)
  cast {x} type : P x → P (.cast x type)
  case {whens otherwise} : (∀ w ∈ whens, P w.1) → (∀ w ∈ whens, P w.2) → (∀ x, otherwise = some x → P x) →
    P (.case whens otherwise)
  func {name args} : isIdentifier name = true → (∀ x ∈ args, P x) → P (.func name args)
  countAll : P (.func "count" [.star])
  countDistinct {x} : P x → P (.countDistinct x)
  percentile {x} n : P x → P (.percentile n x)
  dateTrunc {x} unit datetime : P x → P (.dateTrunc unit x datetime)
  total {x} : P x → P (.total schema.name x)

variable {schema : Table} {k : ValueClass} {x : Sql}

theorem PassesUp.of_wellTyped {P : Sql → Prop} (hP : PassesUp schema P) (h : WellTyped schema k x) : P x := by
  induction h with
  | weaken _ _ ih => exact ih
  | column _ hidentifier _ => exact hP.column hidentifier
  | literal l => exact hP.literal l
  | number _ _ _ ihl ihr | addNull _ _ ihl ihr | concat _ _ ihl ihr => exact hP.arith _ ihl ihr
  | neg _ hnumber ih => exact hP.neg ih hnumber
  | compare _ _ ihl ihr => exact hP.compare _ ihl ihr
  | and _ _ ih => exact hP.and ih
  | or _ _ ih => exact hP.or ih
  | not _ _ ih => exact hP.not ih
  | isNull _ ih => exact hP.isNull _ ih
  | inList _ _ ih ihitems => exact hP.inList _ ih ihitems
  | between _ _ _ ih ihlow ihhigh => exact hP.between ih ihlow ihhigh
  | castFloat _ ih | castText _ ih | castInt _ ih => exact hP.cast _ ih
  | case _ _ _ _ ihconditions ihvalues ihotherwise => exact hP.case ihconditions ihvalues ihotherwise
  | coalesce _ _ ih => exact hP.func rfl ih
  | scalar hname _ _ ih =>
    have hnames : ∀ name ∈ ["substr", "lower"], isIdentifier name = true := by decide
    exact hP.func (hnames _ hname) ih
  | sum hname _ ih =>
    have hnames : ∀ name ∈ ["sum", "avg"], isIdentifier name = true := by decide
    exact hP.func (hnames _ hname) (List.forall_mem_singleton.mpr ih)
  | extremum hname _ ih =>
    have hnames : ∀ name ∈ ["min", "max"], isIdentifier name = true := by decide
    exact hP.func (hnames _ hname) (List.forall_mem_singleton.mpr ih)
  | count _ ih => exact hP.func rfl (List.forall_mem_singleton.mpr ih)
  | countAll => exact hP.countAll
  | countDistinct _ ih => exact hP.countDistinct ih
  | percentile _ ih => exact hP.percentile _ ih
  | dateTrunc _ ih => exact hP.dateTrunc _ _ ih
  | total _ ih => exact hP.total ih

namespace WellTyped

theorem any (h : WellTyped schema k x) : WellTyped schema .any x := .weaken .any h

theorem of_null (h : WellTyped schema .null x) : WellTyped schema k x := .weaken .null h

theorem null : WellTyped schema k Sql.null := of_null (.literal .null)

theorem literal_class {l : Literal} (h : WellTyped schema k (.literal l)) : l.valueClass.Le k := by
  generalize hx : Sql.literal l = x at h
  induction h with
  | weaken hle _ ih => exact (ih hx).trans hle
  | literal l' =>
    cases hx
    exact .refl
  | _ => exact nomatch hx

theorem literal_bool {l : Literal} (h : WellTyped schema .bool (.literal l)) : l = .null ∨ ∃ b, l = .bool b := by
  have hclass := h.literal_class
  cases l with
  | null => exact .inl rfl
  | bool b => exact .inr ⟨b, rfl⟩
  | _ => exact nomatch hclass

theorem not_inv (h : WellTyped schema k (.not x)) : WellTyped schema .bool x ∧ x.isNegatable = false := by
  generalize hx : Sql.not x = y at h
  induction h with
  | weaken _ _ ih => exact ih hx
  | not hbool hplain =>
    cases hx
    exact ⟨hbool, hplain⟩
  | _ => exact nomatch hx

theorem and_inv {items : List Sql} (h : WellTyped schema k (.and items)) :
    2 ≤ items.length ∧ ∀ x ∈ items, WellTyped schema .bool x := by
  generalize hx : Sql.and items = y at h
  induction h with
  | weaken _ _ ih => exact ih hx
  | and hlen hitems =>
    cases hx
    exact ⟨hlen, hitems⟩
  | _ => exact nomatch hx

theorem or_inv {items : List Sql} (h : WellTyped schema k (.or items)) :
    2 ≤ items.length ∧ ∀ x ∈ items, WellTyped schema .bool x := by
  generalize hx : Sql.or items = y at h
  induction h with
  | weaken _ _ ih => exact ih hx
  | or hlen hitems =>
    cases hx
    exact ⟨hlen, hitems⟩
  | _ => exact nomatch hx

theorem compare_inv {op : CompareOp} {l r : Sql} (h : WellTyped schema k (.compare op l r)) :
    WellTyped schema .any l ∧ WellTyped schema .any r := by
  generalize hx : Sql.compare op l r = y at h
  induction h with
  | weaken _ _ ih => exact ih hx
  | compare hl hr =>
    cases hx
    exact ⟨hl, hr⟩
  | _ => exact nomatch hx

theorem isNull_inv {negated : Bool} (h : WellTyped schema k (.isNull x negated)) : WellTyped schema .any x := by
  generalize hx : Sql.isNull x negated = y at h
  induction h with
  | weaken _ _ ih => exact ih hx
  | isNull hx' =>
    cases hx
    exact hx'
  | _ => exact nomatch hx

theorem inList_inv {items : List Sql} {negated : Bool} (h : WellTyped schema k (.inList x items negated)) :
    WellTyped schema .any x ∧ ∀ y ∈ items, WellTyped schema .any y := by
  generalize hx : Sql.inList x items negated = y at h
  induction h with
  | weaken _ _ ih => exact ih hx
  | inList hx' hitems =>
    cases hx
    exact ⟨hx', hitems⟩
  | _ => exact nomatch hx

theorem negate_eq_not (h : x.isNegatable = false) : x.negate = .not x := by
  unfold Sql.negate
  split <;> simp_all [isNegatable]

theorem negate (h : WellTyped schema .bool x) : WellTyped schema .bool x.negate := by
  cases hx : x.isNegatable with
  | false =>
    rw [negate_eq_not hx]
    exact .not h hx
  | true =>
    cases x with
    | literal l =>
      cases l with
      | bool b => exact .literal (.bool (!b))
      | _ => exact nomatch hx
    | not y => exact h.not_inv.1
    | compare op l r =>
      obtain ⟨inverse, hop⟩ := Option.isSome_iff_exists.mp hx
      simp only [Sql.negate, hop]
      exact .compare h.compare_inv.1 h.compare_inv.2
    | isNull y negated => exact .isNull h.isNull_inv
    | inList y items negated => exact .inList h.inList_inv.1 h.inList_inv.2
    | _ => exact nomatch hx

theorem opened (h : WellTyped schema .bool x) (settles : Bool) : ∀ y ∈ x.opened settles, WellTyped schema .bool y := by
  cases x with
  | and items =>
    cases settles with
    | false => exact h.and_inv.2
    | true => simpa [Sql.opened] using h
  | or items =>
    cases settles with
    | false => simpa [Sql.opened] using h
    | true => exact h.or_inv.2
  | _ => simpa [Sql.opened] using h

theorem opened_cases (h : WellTyped schema k x) (settles : Bool) :
    x.opened settles = [x] ∨ 2 ≤ (x.opened settles).length := by
  cases x with
  | and items =>
    cases settles with
    | false => exact .inr h.and_inv.1
    | true => exact .inl rfl
  | or items =>
    cases settles with
    | false => exact .inl rfl
    | true => exact .inr h.or_inv.1
  | _ => exact .inl rfl

theorem parts {settles : Bool} {items xs : List Sql} (h : ∀ x ∈ items, WellTyped schema .bool x)
    (hxs : parts? settles items = some xs) : ∀ x ∈ xs, WellTyped schema .bool x :=
  parts?_forall (fun x hx => (h x hx).opened settles) hxs

theorem joined {settles : Bool} {xs : List Sql} (hlen : 2 ≤ xs.length) (h : ∀ x ∈ xs, WellTyped schema .bool x) :
    WellTyped schema .bool (Sql.joined settles xs) := by
  cases settles with
  | false => exact .and hlen h
  | true => exact .or hlen h

theorem combine {settles : Bool} {items : List Sql} (h : ∀ x ∈ items, WellTyped schema .bool x) :
    WellTyped schema .bool (Sql.combine settles items) := by
  rcases combine_cases settles items with ⟨-, hc⟩ | ⟨-, hc⟩ | ⟨x, hx, hc⟩ | ⟨xs, hxs, hlen, hc⟩
  · exact hc ▸ .literal (.bool settles)
  · exact hc ▸ .literal (.bool (!settles))
  · exact hc ▸ parts h hx x (by simp)
  · exact hc ▸ joined hlen (parts h hxs)

end WellTyped

end

end ShelfQuery.Sql
