import ShelfQuery.Proofs.Compiler.Typing
import ShelfQuery.Proofs.Expression.Tree
import ShelfQuery.Proofs.Sql.Parts

set_option autoImplicit false

namespace ShelfQuery.Expression

open ShelfQuery.Sql ShelfQuery.Schema ShelfQuery.Calendar ShelfQuery.Number

/-- What compilation keeps: a property that composes, that holds of the numbers that are computed from
others, and that a quotient has if its operands have it. A divisor that is a literal is a number or null. -/
structure Carries (S : Sql → Prop) : Prop extends Sql.Composes S where
  negated : ∀ {l : Literal}, S (.literal l) → S (.literal (negateLiteral l))
  folded : ∀ {op : Arith} {a b v : Literal}, S (.literal a) → foldArith op a b = .ok v → S (.literal v)
  whole : ∀ {n : Int}, n.natAbs < Nat.pow 10 15 → S (.literal (.int n))
  divided : ∀ {l r sql : Sql}, S l → S r → (∀ v, r = .literal v → v.valueClass.Le .num) → divide l r = .ok sql → S sql

/-- A property of single parts of an expression that compilation keeps: it asks something of the calls of
aggregates and of numbers only, and holds of the numbers that are computed from others. -/
structure Persists (P : Sql → Prop) : Prop where
  other : ∀ x : Sql, x.isAggregateCall = false → x.isNumber = false → P x
  zero : P (.literal (.int 0))
  negated : ∀ {l : Literal}, P (.literal l) → P (.literal (negateLiteral l))
  folded : ∀ {op : Arith} {a b v : Literal}, P (.literal a) → foldArith op a b = .ok v → P (.literal v)
  whole : ∀ {n : Int}, n.natAbs < Nat.pow 10 15 → P (.literal (.int n))

inductive Divided (l r : Sql) : Sql → Prop where
  | one {v : Literal} : r = .literal v → isZero v = false → isOne v = true → Divided l r l
  | literal {v : Literal} : r = .literal v → isZero v = false → isOne v = false → Divided l r (.arith .div (asFloat l) r)
  | guarded : r.isLiteral = false → Divided l r
      (.case [(.compare .eq r (.literal (.int 0)), .null)] (some (.arith .div (asFloat l) (.cast r .float))))

theorem divided_of_divide {l r sql : Sql} (h : divide l r = .ok sql) : Divided l r sql := by
  unfold divide at h
  split at h
  · next v =>
    split at h
    · exact nomatch h
    · next hzero =>
      have hzero := Bool.eq_false_iff.mpr hzero
      split at h
      · next hone =>
        cases h
        exact .one rfl hzero hone
      · next hone =>
        cases h
        exact .literal rfl hzero (Bool.eq_false_iff.mpr hone)
  · next hliteral =>
    cases h
    refine .guarded ?_
    cases r with
    | literal v => exact absurd rfl (hliteral v)
    | _ => rfl

variable {c : Context} {scope : Scope} {S P : Sql → Prop}

section

variable (hS : Carries S) {x l r : Sql}

include hS

theorem Carries.moment {p : Prop} [Decidable p] (d : Date) (m : DateTime) :
    S (.literal (if p then .date d else .datetime m)) := by
  split <;> exact hS.atom rfl rfl rfl rfl

theorem Brought.carried {target : ValueType} {wholeDay : Bool} {t t' : Typed} (h : Brought c target wholeDay t t')
    (ht : S t.sql) : S t'.sql := by
  cases h with
  | moment => exact hS.moment _ _
  | same => exact ht

theorem Paired.carried {l r l' r' : Typed} (h : Paired c l r l' r') (hl : S l.sql) (hr : S r.sql) :
    S l'.sql ∧ S r'.sql := by
  cases h with
  | right => exact ⟨hl, hS.moment _ _⟩
  | left => exact ⟨hS.moment _ _, hr⟩
  | same => exact ⟨hl, hr⟩

theorem Branched.carried {type : ValueType} {visited : List Typed} {whens : List (Sql × Sql)} {otherwise : Option Sql}
    (h : Branched c type visited whens otherwise) (hvisited : ∀ t ∈ visited, S t.sql) :
    (∀ w ∈ whens, S w.1 ∧ S w.2) ∧ ∀ x, otherwise = some x → S x := by
  induction h with
  | done => simp
  | otherwise _ _ hbrought =>
    refine ⟨by simp, fun x hx => ?_⟩
    cases hx
    exact hbrought.carried hS (hvisited _ (by simp))
  | otherwiseNull => simp
  | @when condition v v' rest whens otherwise _ _ hbrought _ ih =>
    obtain ⟨hwhens, helse⟩ := ih fun t ht => hvisited t (by simp [ht])
    refine ⟨fun w hw => ?_, helse⟩
    rcases List.mem_cons.mp hw with rfl | hw
    · exact ⟨hvisited condition (by simp), hbrought.carried hS (hvisited v (by simp))⟩
    · exact hwhens w hw

namespace Carries

theorem comparison {op : CompareOp} (hl : S l) (hr : S r) : S (comparison op l r) := by
  unfold Expression.comparison
  split
  · exact hS.one rfl rfl rfl hl
  · split
    · split
      · exact hS.atom rfl rfl rfl rfl
      · exact hS.compare hl hr
    · exact hS.compare hl hr

theorem compareSql {op : CompareOp} (hl : S l) (hr : S r) : S (compareSql op l r) := by
  rw [compareSql_eq]
  split
  · exact hS.comparison hr hl
  · exact hS.comparison hl hr

theorem arithSql {op : Arith} {type : ValueType} {sql : Sql} (hl : S l) (hr : S r)
    (hdivisor : op = .div → ∀ v, r = .literal v → v.valueClass.Le .num) (h : arithSql op type l r = .ok sql) : S sql := by
  cases op with
  | add =>
    cases h
    exact hS.arith (by split <;> simp) hl hr
  | sub | mul =>
    cases h
    exact hS.arith (by simp) hl hr
  | div => exact hS.divided hl hr (hdivisor rfl) h

theorem wholeItem (h : S x) : S (wholeItem x) := by
  unfold Expression.wholeItem
  split
  · split
    · split
      · next hsmall => exact hS.whole hsmall
      · exact h
    · exact h
  · exact h

theorem widenPattern (h : S x) : S (widenPattern x) := by
  unfold Expression.widenPattern
  split
  · split
    · exact h
    · exact hS.atom rfl rfl rfl rfl
  · exact h

theorem like {pattern : Sql} (negated : Bool) (hx : S x) (hpattern : S pattern) :
    S (if negated then Sql.negate (.compare .like x pattern) else .compare .like x pattern) := by
  split
  · exact hS.negate (hS.compare hx hpattern)
  · exact hS.compare hx hpattern

theorem lower (h : S x) : S (.func "lower" [x]) := hS.one rfl rfl rfl h

end Carries

end

theorem Persists.carries (hP : Persists P) : Carries (Sql.Everywhere P) where
  toComposes := Sql.composes_everywhere hP.other
  negated h := Sql.everywhere_literal (hP.negated (h _ .self))
  folded h hfold := Sql.everywhere_literal (hP.folded (h _ .self) hfold)
  whole hsmall := Sql.everywhere_literal (hP.whole hsmall)
  divided {l r sql} hl hr _ h := by
    have hone {x y : Sql} (hcall : x.isAggregateCall = false) (hnumber : x.isNumber = false)
        (hchildren : x.children = [y]) (hy : y.Everywhere P) : x.Everywhere P :=
      Sql.everywhere_iff.mpr ⟨hP.other x hcall hnumber, by simpa [hchildren] using hy⟩
    have htwo {op : ArithOp} {x y : Sql} (hx : x.Everywhere P) (hy : y.Everywhere P) : (Sql.arith op x y).Everywhere P :=
      Sql.everywhere_iff.mpr ⟨hP.other _ rfl rfl, by simpa [Sql.children] using ⟨hx, hy⟩⟩
    have hfloat : (asFloat l).Everywhere P := by
      unfold asFloat
      split
      · exact hl
      · exact hone rfl rfl rfl hl
    have hcomposes := Sql.composes_everywhere hP.other
    cases divided_of_divide h with
    | one => exact hl
    | literal => exact htwo hfloat hr
    | guarded =>
      have hzero : (Sql.compare .eq r (.literal (.int 0))).Everywhere P :=
        hcomposes.compare hr (Sql.everywhere_literal hP.zero)
      refine hcomposes.case (by simpa using ⟨hzero, hcomposes.atom rfl rfl rfl rfl⟩) ?_
      rintro x ⟨⟩
      exact htwo hfloat (hone rfl rfl rfl hr)

theorem class_of_arithType? {op : Arith} {l r type : ValueType} (h : arithType? op l r = some type) (hop : op = .div) :
    r.valueClass.Le .num := by
  subst hop
  cases r with
  | num => exact .refl
  | null => exact .null
  | _ => cases l <;> exact nomatch h

/-- The hypothesis on constants is about the finite ones: others are refused. -/
theorem Compiles.carried (hS : Carries S) (hcountAll : S (.func "count" [.star]))
    (haggregate : ∀ {scope : Scope} {aggregate : Aggregate} {arg : Tree} {t : Typed},
      Compiles c { scope with inAggregate := true } arg t → aggregateFaults c aggregate t.type = [] → S t.sql →
      S (aggregate.apply t).sql) {tree : Tree} {t : Typed} (h : Compiles c scope tree t) :
    (tree.Everywhere fun y => ∀ pos value, y = .constant pos value → isFiniteLiteral value.literal = true →
      S (.literal value.literal)) → S t.sql := by
  have hlist {trees : List Tree} {ts : List Typed} {Q : Tree → Prop} (hlen : trees.length = ts.length)
      (ih : ∀ ⦃a b⦄, (a, b) ∈ trees.zip ts → a.Everywhere Q → S b.sql)
      (htrees : ∀ a ∈ trees, a.Everywhere Q) : ∀ t ∈ ts, S t.sql :=
    forall_of_zip hlen fun a b hmem => ih hmem (htrees a (List.of_mem_zip hmem).1)
  induction h with
  | column => exact fun _ => hS.atom rfl rfl rfl rfl
  | columnTrunc => exact fun _ => hS.one rfl rfl rfl (hS.atom rfl rfl rfl rfl)
  | constant hfinite => exact fun hc => hc _ .self _ _ rfl hfinite
  | negLiteral _ hliteral _ ih =>
    intro hc
    have hl := ih (hc.child (.head _))
    rw [hliteral] at hl
    exact hS.negated hl
  | arithFold _ _ _ hliteral _ hfold ihl _ =>
    -- the left operand alone: division by one leaves it, and all else is computed
    intro hc
    have hl := ihl (hc.child (.head _))
    rw [hliteral] at hl
    exact hS.folded hl hfold
  | dateOfText => exact fun _ => hS.atom rfl rfl rfl rfl
  | neg _ _ _ ih | isNull _ ih | string _ _ ih | int _ _ ih | trunc _ _ _ ih | dateOfDatetime _ _ _ ih | total _ ih =>
    exact fun hc => hS.one rfl rfl rfl (ih (hc.child (.head _)))
  | negNull _ _ _ ih | dateOfDate _ _ _ ih => exact fun hc => ih (hc.child (.head _))
  | not _ _ ih => exact fun hc => hS.negate (ih (hc.child (.head _)))
  | arith _ hright htype _ hsql ihl ihr =>
    intro hc
    refine hS.arithSql (ihl (hc.child (.head _))) (ihr (hc.child (.tail _ (.head _)))) (fun hop v hv => ?_) hsql
    have hwell := hright.wellTyped
    rw [Typed.WellTyped, hv] at hwell
    exact hwell.literal_class.trans (class_of_arithType? htype hop)
  | compare _ _ hpair _ ihl ihr =>
    intro hc
    obtain ⟨hl, hr⟩ := hpair.carried hS (ihl (hc.child (.head _))) (ihr (hc.child (.tail _ (.head _))))
    exact hS.compareSql hl hr
  | and _ _ _ _ ihl ihr =>
    exact fun hc => hS.allOf (by simpa using ⟨ihl (hc.child (.head _)), ihr (hc.child (.tail _ (.head _)))⟩)
  | or _ _ _ _ ihl ihr =>
    exact fun hc => hS.anyOf (by simpa using ⟨ihl (hc.child (.head _)), ihr (hc.child (.tail _ (.head _)))⟩)
  | inList _ _ hlen _ hlen' hbrought _ ih ihs =>
    refine fun hc => hS.inList (ih (hc.child (.head _))) fun y hy => ?_
    obtain ⟨b, hb, rfl⟩ := List.mem_map.mp hy
    obtain ⟨a, ha⟩ := exists_zip_of_mem hlen' hb
    have hvisited := hlist hlen ihs fun a ha => hc.child (.tail _ ha)
    exact hS.wholeItem ((hbrought ha).1.carried hS (hvisited a (List.of_mem_zip ha).1))
  | between _ _ _ hlow hhigh _ _ ih ihlow ihhigh =>
    intro hc
    have hlow' := hlow.carried hS (ihlow (hc.child (.tail _ (.head _))))
    have hhigh' := hhigh.carried hS (ihhigh (hc.child (.tail _ (.tail _ (.head _)))))
    exact hS.between (ih (hc.child (.head _))) hlow' hhigh'
  | like _ _ _ _ ih ihp =>
    exact fun hc => hS.like _ (ih (hc.child (.head _))) (hS.widenPattern (ihp (hc.child (.tail _ (.head _)))))
  | ilike _ _ _ _ ih ihp =>
    exact fun hc => hS.like _ (hS.lower (ih (hc.child (.head _))))
      (hS.lower (hS.widenPattern (ihp (hc.child (.tail _ (.head _))))))
  | isDateRange _ _ _ ih | isDatetimeRange _ _ _ ih =>
    exact fun hc => hS.between (ih (hc.child (.head _))) (hS.atom rfl rfl rfl rfl) (hS.atom rfl rfl rfl rfl)
  | countAll => exact fun _ => hcountAll
  | aggregate _ _ _ hcompiles hfaults ih => exact fun hc => haggregate hcompiles hfaults (ih (hc.child (.head _)))
  | cond _ _ hlen _ _ hbranched ih =>
    intro hc
    obtain ⟨hwhens, helse⟩ := hbranched.carried hS (hlist hlen ih fun a ha => hc.child ha)
    exact hS.case hwhens helse
  | coalesce _ _ hlen _ _ hlen' hbrought ih =>
    refine fun hc => hS.build rfl rfl rfl fun x hx => ?_
    obtain ⟨b, hb, rfl⟩ := List.mem_map.mp hx
    obtain ⟨a, ha⟩ := exists_zip_of_mem hlen' hb
    exact (hbrought ha).1.carried hS (hlist hlen ih (fun a ha => hc.child ha) a (List.of_mem_zip ha).1)
  | substr _ _ _ hlen _ _ ih =>
    refine fun hc => hS.build rfl rfl rfl fun x hx => ?_
    obtain ⟨t, ht, rfl⟩ := List.mem_map.mp hx
    exact hlist hlen ih (fun a ha => hc.child ha) t ht

theorem Compiles.everywhere (hP : Persists P) (hcountAll : P (.func "count" [.star]))
    (haggregate : ∀ {scope : Scope} {aggregate : Aggregate} {arg : Tree} {t : Typed},
      Compiles c { scope with inAggregate := true } arg t → aggregateFaults c aggregate t.type = [] →
      P (aggregate.apply t).sql) {tree : Tree} {t : Typed} (h : Compiles c scope tree t)
    (hconstants : tree.Everywhere fun y => ∀ pos value, y = .constant pos value →
      isFiniteLiteral value.literal = true → P (.literal value.literal)) : t.sql.Everywhere P := by
  have hstar : Sql.star.Everywhere P := hP.carries.atom rfl rfl rfl rfl
  refine h.carried hP.carries (Sql.everywhere_iff.mpr ⟨hcountAll, List.forall_mem_singleton.mpr hstar⟩)
    (@fun _ aggregate _ t hcompiles hfaults ht => ?_)
    fun y hy pos value hvalue hfinite => Sql.everywhere_literal (hconstants y hy pos value hvalue hfinite)
  have hchildren : (aggregate.apply t).sql.children = [t.sql] := by cases aggregate <;> rfl
  refine Sql.everywhere_iff.mpr ⟨haggregate hcompiles hfaults, ?_⟩
  rw [hchildren]
  exact List.forall_mem_singleton.mpr ht

end ShelfQuery.Expression
