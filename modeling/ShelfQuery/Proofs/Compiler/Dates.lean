import ShelfQuery.Proofs.Compiler.Exact
import ShelfQuery.Proofs.Compiler.Preservation

set_option autoImplicit false

namespace ShelfQuery.Sql

/-- Whether an expression is a literal with a time of day. -/
def hasTime : Sql → Bool
  | .literal (.datetime _) => true
  | _ => false

/-- A literal with a time of day as a day; anything else stays. -/
def asDay : Sql → Sql
  | .literal (.datetime m) => .literal (.date m.date)
  | x => x

@[simp]
theorem hasTime_asDay (x : Sql) : x.asDay.hasTime = false := by
  cases x with
  | literal l => cases l <;> rfl
  | _ => rfl

theorem asDay_of_not_literal {x : Sql} (h : x.isLiteral = false) : x.asDay = x := by
  cases x <;> first | rfl | exact nomatch h

end ShelfQuery.Sql

namespace ShelfQuery.Expression

open ShelfQuery.Sql ShelfQuery.Schema ShelfQuery.Calendar

variable {c : Context} {scope : Scope}

section

variable {tree : Tree} {t : Typed} (h : Compiles c scope tree t) (htype : t.type = .date)

include h htype

theorem Compiles.hasTime_eq : t.sql.hasTime = t.sql.isLiteral := by
  cases hliteral : t.sql.isLiteral with
  | true =>
    obtain ⟨m, rfl⟩ := h.temporal_literal (htype ▸ rfl) hliteral
    rfl
  | false => cases hsql : t.sql <;> first | rfl | exact nomatch hsql ▸ hliteral

theorem Compiles.namesMoment_eq : namesMoment t.sql = t.sql.isLiteral := by
  have htime := h.hasTime_eq htype
  cases hsql : t.sql with
  | literal l =>
    rw [hsql] at htime
    cases l <;> first | rfl | exact nomatch htime
  | _ => rfl

theorem Compiles.momentLiteral_eq {m : DateTime} (hm : moment? c t.sql = some m) :
    momentLiteral .date false m = ⟨t.sql.asDay, .date⟩ := by
  have htime := h.hasTime_eq htype
  cases hsql : t.sql with
  | literal l =>
    rw [hsql] at htime hm
    cases l with
    | datetime m' =>
      cases hm
      rfl
    | _ => exact nomatch htime
  | _ =>
    rw [hsql] at hm
    exact nomatch hm

theorem Compiles.brought_date {wholeDay : Bool} (hwholeDay : wholeDay = false) {t' : Typed}
    (hbrought : Brought c .date wholeDay t t') : t' = ⟨t.sql.asDay, .date⟩ := by
  subst hwholeDay
  cases hbrought with
  | moment _ hm => exact h.momentLiteral_eq htype hm
  | same hnames =>
    have hliteral := (h.namesMoment_eq htype).symm.trans (hnames rfl)
    rw [Sql.asDay_of_not_literal hliteral, ← htype]

end

theorem literal?_of_not_literal {x : Sql} (h : x.isLiteral = false) : x.literal? = none := by
  cases x <;> first | rfl | exact nomatch h

theorem exists_of_hasTime {x : Sql} (h : x.hasTime = true) : ∃ m, x = .literal (.datetime m) := by
  cases x with
  | literal l =>
    cases l with
    | datetime m => exact ⟨m, rfl⟩
    | _ => exact nomatch h
  | _ => exact nomatch h

theorem comparison_asDay {op : CompareOp} {l r : Sql} (hl : l.hasTime = l.isLiteral) (hr : r.hasTime = r.isLiteral) :
    comparison op l r.asDay = .compare op l r.asDay := by
  cases hright : r.isLiteral with
  | false =>
    rw [Sql.asDay_of_not_literal hright, comparison, isNullLiteral_of_not_literal hright, Bool.false_and,
      if_neg Bool.false_ne_true, literal?_of_not_literal hright]
    cases l.literal? <;> rfl
  | true =>
    obtain ⟨m, rfl⟩ := exists_of_hasTime (hr.trans hright)
    cases hleft : l.isLiteral with
    | false =>
      rw [comparison, literal?_of_not_literal hleft]
      rfl
    | true =>
      obtain ⟨m', rfl⟩ := exists_of_hasTime (hl.trans hleft)
      rfl

section

variable {left right : Tree} {l r l' r' : Typed} (hl : Compiles c scope left l) (hr : Compiles c scope right r)
  (hltype : l.type = .date) (hrtype : r.type = .date)

include hl hr hltype hrtype

/-- Of two dates the right one is brought to a day if it is a constant, and else the left one is. -/
theorem Compiles.paired_dates (hpair : Paired c l r l' r') :
    l'.sql = (if r.sql.isLiteral then l.sql else l.sql.asDay) ∧ r'.sql = r.sql.asDay := by
  have hlnames := hl.namesMoment_eq hltype
  have hrnames := hr.namesMoment_eq hrtype
  cases hpair with
  | right _ hm =>
    rw [hltype, hr.momentLiteral_eq hrtype hm, ← hrnames, namesMoment_of_moment? hm, if_pos rfl]
    exact ⟨rfl, rfl⟩
  | left hright _ hm =>
    have hliteral : r.sql.isLiteral = false := by simpa [hltype, ValueType.isTemporal, hrnames] using hright
    rw [hrtype, hl.momentLiteral_eq hltype hm, Sql.asDay_of_not_literal hliteral, hliteral]
    exact ⟨rfl, rfl⟩
  | same hright hleft =>
    have hliteral : r.sql.isLiteral = false := by simpa [hltype, ValueType.isTemporal, hrnames] using hright
    have hliteral' : l.sql.isLiteral = false := by simpa [hrtype, ValueType.isTemporal, hlnames] using hleft
    rw [Sql.asDay_of_not_literal hliteral, Sql.asDay_of_not_literal hliteral', ite_self]
    exact ⟨rfl, rfl⟩

theorem Compiles.compare_dates {op : CompareOp} (hpair : Paired c l r l' r') :
    compareSql op l'.sql r'.sql =
      if l.sql.isLiteral && !r.sql.isLiteral then .compare op.mirror r.sql l.sql.asDay
      else .compare op l.sql r.sql.asDay := by
  have hltime := hl.hasTime_eq hltype
  have hrtime := hr.hasTime_eq hrtype
  have hday (x : Sql) : x.asDay.isLiteral = x.isLiteral := by
    cases x with
    | literal v => cases v <;> rfl
    | _ => rfl
  obtain ⟨hl', hr'⟩ := hl.paired_dates hr hltype hrtype hpair
  rw [compareSql_eq, hl', hr', hday]
  cases hright : r.sql.isLiteral with
  | true =>
    simp only [if_true, Bool.not_true, Bool.and_false]
    exact comparison_asDay hltime hrtime
  | false =>
    simp only [Bool.false_eq_true, if_false, hday, Sql.asDay_of_not_literal hright]
    split
    · exact comparison_asDay hrtime hltime
    · next hleft =>
      have hleft : l.sql.isLiteral = false := by simpa using hleft
      have hcompare : comparison op l.sql r.sql.asDay = .compare op l.sql r.sql.asDay := comparison_asDay hltime hrtime
      rw [Sql.asDay_of_not_literal hright] at hcompare
      rw [Sql.asDay_of_not_literal hleft]
      exact hcompare

end

theorem items_asDay {items : List Tree} {visited brought : List Typed} (hlen : items.length = visited.length)
    (hitems : ∀ ⦃a b⦄, (a, b) ∈ items.zip visited → Compiles c scope a b) (hlen' : visited.length = brought.length)
    (hbrought : BroughtAll c .date visited brought)
    (hdates : ∀ a ∈ items, (a.valueIn c scope).type = .date) :
    (brought.map fun b => wholeItem b.sql) = items.map fun a => (a.valueIn c scope).sql.asDay := by
  have hdate {a : Tree} {v : Typed} (hmem : (a, v) ∈ items.zip visited) : v = a.valueIn c scope ∧ v.type = .date := by
    have hvalue := (hitems hmem).valueIn_eq
    exact ⟨hvalue.symm, hvalue ▸ hdates a (List.of_mem_zip hmem).1⟩
  have hday {a : Tree} {v : Typed} (hmem : (a, v) ∈ items.zip visited) : wholeItem v.sql.asDay = v.sql.asDay := by
    have htime := (hitems hmem).hasTime_eq (hdate hmem).2
    cases hsql : v.sql with
    | literal l =>
      rw [hsql] at htime
      cases l <;> first | rfl | exact nomatch htime
    | _ => rfl
  calc (brought.map fun b => wholeItem b.sql)
    _ = visited.map fun v => v.sql.asDay := by
      refine map_eq_of_zip hlen' fun v b hmem => ?_
      obtain ⟨a, ha⟩ := exists_zip_of_mem hlen (List.of_mem_zip hmem).1
      rw [(hitems ha).brought_date (hdate ha).2 rfl (hbrought hmem).1]
      exact hday ha
    _ = items.map fun a => (a.valueIn c scope).sql.asDay :=
      map_eq_of_zip hlen fun a v hmem => by rw [(hdate hmem).1]

/-- Among the operands that are dates, the constants are those with a time. -/
theorem Compiles.operand_hasTime {tree operand : Tree} {t : Typed} (h : Compiles c scope tree t)
    (hoperand : operand ∈ tree.children) (hscope : tree.scopeInside scope = scope)
    (htype : (operand.valueIn c scope).type = .date) :
    (operand.valueIn c scope).sql.hasTime = (operand.valueIn c scope).sql.isLiteral := by
  rcases h.child hoperand with hstar | ⟨t', h'⟩
  · cases operand with
    | star => exact nomatch htype
    | _ => exact nomatch hstar
  · rw [hscope] at h'
    rw [h'.valueIn_eq] at htype ⊢
    exact h'.hasTime_eq htype

section

variable {pos : Nat} {t : Typed}

theorem Compiles.compare_sql {op : Comparison} {left right : Tree} (h : Compiles c scope (.compare pos op left right) t)
    (hl : (left.valueIn c scope).type = .date) (hr : (right.valueIn c scope).type = .date) :
    t.sql = if (left.valueIn c scope).sql.isLiteral && !(right.valueIn c scope).sql.isLiteral then
        .compare op.op.mirror (right.valueIn c scope).sql (left.valueIn c scope).sql.asDay
      else .compare op.op (left.valueIn c scope).sql (right.valueIn c scope).sql.asDay := by
  cases h with
  | compare hleft hright hpair =>
    rw [hleft.valueIn_eq] at hl ⊢
    rw [hright.valueIn_eq] at hr ⊢
    exact hleft.compare_dates hright hl hr hpair

theorem Compiles.between_sql {arg low high : Tree} (h : Compiles c scope (.between pos arg low high) t)
    (harg : (arg.valueIn c scope).type = .date) (hlow : (low.valueIn c scope).type = .date)
    (hhigh : (high.valueIn c scope).type = .date) :
    t.sql = .between (arg.valueIn c scope).sql (low.valueIn c scope).sql.asDay (high.valueIn c scope).sql.asDay := by
  cases h with
  | between h hl hh hlow' hhigh' =>
    rw [h.valueIn_eq] at harg ⊢
    rw [hl.valueIn_eq] at hlow ⊢
    rw [hh.valueIn_eq] at hhigh ⊢
    rw [harg] at hlow' hhigh'
    rw [hl.brought_date hlow rfl hlow', hh.brought_date hhigh rfl hhigh']

theorem Compiles.inList_sql {arg : Tree} {items : List Tree} {negated : Bool}
    (h : Compiles c scope (.inList pos arg items negated) t) (harg : (arg.valueIn c scope).type = .date)
    (hitems : ∀ item ∈ items, (item.valueIn c scope).type = .date) :
    (arg.valueIn c scope).sql.isLiteral = false ∧
    t.sql = .inList (arg.valueIn c scope).sql (items.map fun item => (item.valueIn c scope).sql.asDay) negated := by
  cases h with
  | inList h hliteral hlen hvisited hlen' hbrought =>
    rw [h.valueIn_eq] at harg ⊢
    rw [harg] at hbrought
    rw [items_asDay hlen hvisited hlen' hbrought hitems]
    exact ⟨hliteral, rfl⟩

end

/-- How dates are compared with dates anywhere in a compiled expression. Constants are compared as days but for
two of them: the left operand of a comparison whose right operand is a constant too, and what is asked to be
between two dates. These keep the time of day that they were read with. -/
theorem Tree.operands_of_dates {c : Context} {tree node : Tree} {compiled : Compiled} {place : Scope}
    (hcompile : tree.compile c = .ok compiled) (hstands : Tree.Stands {} tree place node)
    (hdates : ∀ y ∈ node.children, (y.valueIn c place).type = .date) :
    (∀ pos op left right, node = .compare pos op left right →
      let l := (left.valueIn c place).sql
      let r := (right.valueIn c place).sql
      (node.valueIn c place).sql =
        (if l.isLiteral && !r.isLiteral then .compare op.op.mirror r l.asDay else .compare op.op l r.asDay) ∧
      ((∃ x ∈ (node.valueIn c place).sql.children, x.hasTime = true) ↔ l.isLiteral = true ∧ r.isLiteral = true)) ∧
    (∀ pos arg low high, node = .between pos arg low high →
      let x := (arg.valueIn c place).sql
      (node.valueIn c place).sql = .between x (low.valueIn c place).sql.asDay (high.valueIn c place).sql.asDay ∧
      ((∃ x ∈ (node.valueIn c place).sql.children, x.hasTime = true) ↔ x.isLiteral = true)) ∧
    (∀ pos arg items negated, node = .inList pos arg items negated →
      (node.valueIn c place).sql =
        .inList (arg.valueIn c place).sql (items.map fun item => (item.valueIn c place).sql.asDay) negated ∧
      ∀ x ∈ (node.valueIn c place).sql.children, x.hasTime = false) := by
  obtain ⟨hcompiles, -⟩ := compiles_of_compile hcompile
  refine ⟨?_, ?_, ?_⟩
  · rintro pos op left right rfl l r
    have hnode := Compiles.stands hstands hcompiles rfl
    have hltime : l.hasTime = l.isLiteral := hnode.operand_hasTime (.head _) rfl (hdates left (.head _))
    have hrtime : r.hasTime = r.isLiteral :=
      hnode.operand_hasTime (.tail _ (.head _)) rfl (hdates right (.tail _ (.head _)))
    rw [hnode.compare_sql (hdates left (.head _)) (hdates right (.tail _ (.head _)))]
    refine ⟨rfl, ?_⟩
    split
    · next hswap =>
      have hr : r.isLiteral = false := by simpa using (Bool.and_eq_true_iff.mp hswap).2
      simp [Sql.children, l, r, hrtime.trans hr, hr]
    · next hkept =>
      have hboth : l.isLiteral = true → r.isLiteral = true := by simpa using hkept
      have hiff : l.isLiteral = true ↔ l.isLiteral = true ∧ r.isLiteral = true := ⟨fun h => ⟨h, hboth h⟩, fun h => h.1⟩
      rw [← hiff, ← hltime]
      simp [Sql.children, l]
  · rintro pos arg low high rfl x
    have hnode := Compiles.stands hstands hcompiles rfl
    have htime : x.hasTime = x.isLiteral := hnode.operand_hasTime (.head _) rfl (hdates arg (.head _))
    rw [hnode.between_sql (hdates arg (.head _)) (hdates low (.tail _ (.head _)))
      (hdates high (.tail _ (.tail _ (.head _))))]
    refine ⟨rfl, ?_⟩
    rw [← htime]
    simp [x, Sql.children]
  · rintro pos arg items negated rfl
    have hnode := Compiles.stands hstands hcompiles rfl
    obtain ⟨hliteral, hsql⟩ :=
      hnode.inList_sql (hdates arg (.head _)) fun item hitem => hdates item (.tail _ hitem)
    rw [hsql]
    refine ⟨rfl, fun x hx => ?_⟩
    rcases List.mem_cons.mp hx with rfl | hx
    · rw [hnode.operand_hasTime (.head _) rfl (hdates arg (.head _)), hliteral]
    · obtain ⟨item, -, rfl⟩ := List.mem_map.mp hx
      exact Sql.hasTime_asDay _

/-- Within one day, a moment of it is compared with the day itself. -/
theorem Tree.operands_of_dates_today :
    let c : Context := { scores with now := ⟨⟨2020, 1, 14, by decide⟩, ⟨33694, 0, by decide, by decide⟩⟩ }
    let today : Tree := .call 0 "date" [.constant 0 (.text "today")]
    let node : Tree := .compare 0 .eq today today
    let sql : Sql := .compare .eq (.literal (.datetime c.now)) (.literal (.date c.now.date))
    (Tree.compare 0 .eq (.column 0 "valid") node).compile c =
      .ok ⟨.compare .eq (.column "scores" "valid") sql, .bool, false, true, true⟩ ∧
    (today.valueIn c {}).type = .date ∧ (node.valueIn c {}).sql = sql ∧
    ∃ x ∈ (node.valueIn c {}).sql.children, x.hasTime = true := by
  intro c today node sql
  have hcompile : (Tree.compare 0 .eq (.column 0 "valid") node).compile c =
      .ok ⟨.compare .eq (.column "scores" "valid") sql, .bool, false, true, true⟩ := by rfl
  have hstands : Tree.Stands {} (.compare 0 .eq (.column 0 "valid") node) {} node := .step (.tail _ (.head _)) .self
  have htype : (today.valueIn c {}).type = .date := by rfl
  have hliteral : (today.valueIn c {}).sql.isLiteral = true := by rfl
  have hdates : ∀ y ∈ node.children, (y.valueIn c {}).type = .date := by
    simpa [node, Tree.children] using htype
  obtain ⟨hsql, htime⟩ := (Tree.operands_of_dates hcompile hstands hdates).1 0 .eq today today rfl
  exact ⟨hcompile, htype, hsql, htime.mpr ⟨hliteral, hliteral⟩⟩

end ShelfQuery.Expression
