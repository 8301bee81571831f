import Mathlib.Data.List.Zip
import ShelfQuery.Proofs.Compiler.Constant
import ShelfQuery.Proofs.Compiler.Parts
import ShelfQuery.Proofs.Compiler.Visit

set_option autoImplicit false

namespace ShelfQuery.Expression

open ShelfQuery.Sql ShelfQuery.Schema ShelfQuery.Calendar

variable {op : Arith} {type : ValueType} {visited brought : List Typed} {whens : List (Sql × Sql)}
  {otherwise : Option Sql} {arg tree : Tree}

/-- Whatever was noted before, the walk gives `a` and notes no fault. -/
def Delivers {α : Type} (m : Walk α) (a : α) : Prop := ∀ n, (m.run n).1 = a ∧ (m.run n).2.errors = n.errors

namespace Delivers

variable {α β : Type} {m : Walk α} {f : α → Walk β} {a : α} {b : β}

theorem bind (hm : Delivers m a) (hf : Delivers (f a) b) : Delivers (m >>= f) b := by
  intro n
  obtain ⟨hvalue, herrors⟩ := hm n
  obtain ⟨hvalue', herrors'⟩ := hf (m.run n).2
  have hrun : (m >>= f).run n = (f (m.run n).1).run (m.run n).2 := rfl
  rw [hrun, hvalue]
  exact ⟨hvalue', herrors'.trans herrors⟩

theorem pure (a : α) : Delivers (pure a) a := fun _ => ⟨rfl, rfl⟩

theorem modify {g : Notes → Notes} (hg : ∀ n, (g n).errors = n.errors) : Delivers (modify g) () := fun n => ⟨rfl, hg n⟩

theorem readClock (c : Context) : Delivers (readClock c) c.now := fun _ => ⟨rfl, rfl⟩

theorem unique {a' : α} (h : Delivers m a) (h' : Delivers m a') : a = a' := (h {}).1.symm.trans (h' {}).1

end Delivers

variable {c : Context} {scope : Scope} {pos : Nat}

theorem namesMoment_of_moment? {x : Sql} {m : DateTime} (h : moment? c x = some m) : namesMoment x = true := by
  cases x with
  | literal l => cases l <;> first | rfl | exact nomatch h
  | _ => exact nomatch h

theorem coerceTemporal_delivers {target : ValueType} {wholeDay : Bool} {t t' : Typed}
    (h : Brought c target wholeDay t t') (htarget : target.isTemporal = true) :
    Delivers (coerceTemporal c t target wholeDay) (some t') := by
  obtain ⟨sql, type⟩ := t
  cases h with
  | moment _ hm =>
    cases sql with
    | literal l =>
      cases l with
      | text s =>
        refine (Delivers.readClock c).bind ?_
        cases hread : readMoment s c.now with
        | ok m =>
          rw [moment?, hread] at hm
          cases hm
          exact .pure _
        | error e =>
          rw [moment?, hread] at hm
          cases hm
      | date | datetime =>
        cases hm
        exact .pure _
      | _ => cases hm
    | _ => cases hm
  | same hnames =>
    have hnames := hnames htarget
    cases sql with
    | literal l =>
      cases l with
      | text | date | datetime => cases hnames
      | _ => exact .pure _
    | _ => exact .pure _

theorem coerceIfTemporal_delivers {target : ValueType} {t t' : Typed} (h : Brought c target false t t') :
    Delivers (coerceIfTemporal c t target) (some t') := by
  unfold coerceIfTemporal
  split
  · next htarget => exact coerceTemporal_delivers h htarget
  · next htarget =>
    rw [h.eq_of_not_temporal (Bool.eq_false_iff.mpr htarget)]
    exact .pure _

theorem coercePair_delivers {l r l' r' : Typed} (h : Paired c l r l' r') :
    Delivers (coercePair c l r) (some (l', r')) := by
  unfold coercePair
  simp only [Bool.and_eq_true]
  cases h with
  | right htemporal hm =>
    rw [if_pos ⟨htemporal, namesMoment_of_moment? hm⟩]
    exact (coerceTemporal_delivers (.moment htemporal hm) htemporal).bind (.pure _)
  | left hright htemporal hm =>
    rw [if_neg hright, if_pos ⟨htemporal, namesMoment_of_moment? hm⟩]
    exact (coerceTemporal_delivers (.moment htemporal hm) htemporal).bind (.pure _)
  | same hright hleft =>
    rw [if_neg hright, if_neg hleft]
    exact .pure _

theorem visitColumn_delivers (pos : Nat) {name : String} {column : Column}
    (hcolumn : c.schema.find? name = some column) (husable : column.datatype.isUsable = true) :
    Delivers (visitColumn c name pos)
      (match c.truncation? (.ofDataType column.datatype) with
        | some unit =>
          ⟨.dateTrunc unit (.column c.schema.name column.name) (ValueType.ofDataType column.datatype == .datetime),
            .ofDataType column.datatype⟩
        | none => ⟨.column c.schema.name column.name, .ofDataType column.datatype⟩) := by
  have hfilter : ((c.schema.find? name).filter fun column => column.datatype.isUsable) = some column :=
    Option.filter_eq_some_iff.mpr ⟨hcolumn, husable⟩
  rw [visitColumn, hfilter]
  refine (Delivers.modify (g := fun n => { n with readsColumns := true }) fun _ => rfl).bind ?_
  extract_lets type sql converter
  have hunit : c.truncation? (.ofDataType column.datatype) = converterUnit? converter := rfl
  rw [hunit]
  cases converterUnit? converter <;> exact .pure _

theorem visitConstant_delivers {value : Constant} (h : isFiniteLiteral value.literal = true) :
    Delivers (visitConstant value pos) ⟨.literal value.literal, value.type⟩ := by
  cases value with
  | float x =>
    have hfinite : Number.Binary64.isFinite x = true := h
    rw [visitConstant, if_pos hfinite]
    exact .pure _
  | _ => exact .pure _

variable {t l r : Typed}

theorem checkNeg_literal {x : Float} {v : Literal} (hsql : t.sql = .literal v) (hnumber : v.number? = some x)
    (hbroken : t.type.isBroken = false) : Delivers (checkNeg t pos) ⟨.literal (negateLiteral v), .num⟩ := by
  have hfound : (t.sql.literal?.bind fun l => l.number?.map fun _ => l) = some v := by
    simp [hsql, Sql.literal?, hnumber]
  rw [checkNeg, if_neg (by simp [hbroken]), hfound]
  exact .pure _

theorem checkNeg_other (hnumber : ∀ v, t.sql = .literal v → v.number? = none) :
    (t.type = .num → Delivers (checkNeg t pos) ⟨.neg t.sql, .num⟩) ∧ (t.type = .null → Delivers (checkNeg t pos) t) := by
  have hfound : (t.sql.literal?.bind fun l => l.number?.map fun _ => l) = none := by
    cases hliteral : t.sql.literal? with
    | none => rfl
    | some v => simp [hnumber v (literal?_eq_some hliteral)]
  constructor
  all_goals
    intro htype
    rw [checkNeg, if_neg (by simp [htype, ValueType.isBroken]), hfound]
    simp only [htype]
    exact .pure _

theorem checkNot_delivers (htype : t.type = .bool) : Delivers (checkNot t pos) ⟨t.sql.negate, .bool⟩ := by
  rw [checkNot, if_neg (by simp [htype, ValueType.isBroken]), if_neg (by simp [htype])]
  exact .pure _

theorem not_broken_of_arithType? (htype : arithType? op l.type r.type = some type) :
    ¬ (l.type = .broken ∨ r.type = .broken) := by
  rintro (h | h) <;> simp [arithType?, h] at htype

theorem checkArith_folds {a b v : Literal}
    (htype : arithType? op l.type r.type = some type) (hl : l.sql = .literal a) (hr : r.sql = .literal b)
    (hfold : foldArith op a b = .ok v) : Delivers (checkArith op l r pos) ⟨.literal v, type⟩ := by
  rw [checkArith, if_neg (not_broken_of_arithType? htype), htype, hl, hr]
  simp only [Sql.literal?, hfold]
  exact .pure _

theorem checkArith_delivers {sql : Sql} (htype : arithType? op l.type r.type = some type)
    (hliteral : (l.sql.isLiteral && r.sql.isLiteral) = false) (hsql : arithSql op type l.sql r.sql = .ok sql) :
    Delivers (checkArith op l r pos) ⟨sql, type⟩ := by
  rw [checkArith, if_neg (not_broken_of_arithType? htype), htype]
  simp only [hsql]
  split
  · next a b ha hb => simp [literal?_eq_some ha, literal?_eq_some hb, Sql.isLiteral] at hliteral
  · exact .pure _

theorem checkCompare_delivers {op : Comparison} {l' r' : Typed} (hl : l.type.isBroken = false)
    (hr : r.type.isBroken = false) (hpair : Paired c l r l' r') (hcompatible : l'.type.compatible r'.type = true) :
    Delivers (checkCompare c op l r pos) ⟨compareSql op.op l'.sql r'.sql, .bool⟩ := by
  rw [checkCompare, if_neg (by simp [hl, hr])]
  refine (coercePair_delivers hpair).bind ?_
  simp only [hcompatible]
  exact .pure _

theorem checkCondition_delivers (htype : t.type.isCondition) : Delivers (checkCondition t pos) true := by
  have hbroken : ¬ t.type.isBroken = true := by rcases htype with h | h <;> simp [h, ValueType.isBroken]
  rw [checkCondition, if_neg hbroken]
  rw [ValueType.isCondition] at htype
  rw [if_pos htype]
  exact .pure _

def BroughtAll (c : Context) (type : ValueType) (visited brought : List Typed) : Prop :=
  ∀ ⦃a b⦄, (a, b) ∈ visited.zip brought → Brought c type false a b ∧ type.compatible b.type = true

theorem checkItems_delivers (hlen : visited.length = brought.length) (h : BroughtAll c type visited brought) :
    Delivers (checkItems c type pos visited) (some (brought.map fun b => wholeItem b.sql)) := by
  induction visited generalizing brought with
  | nil =>
    obtain rfl := List.length_eq_zero_iff.mp hlen.symm
    exact .pure _
  | cons a visited ih =>
    cases brought with
    | nil => exact nomatch hlen
    | cons b brought =>
      obtain ⟨hbrought, hcompatible⟩ := h (List.mem_cons_self ..)
      refine (coerceIfTemporal_delivers hbrought).bind ?_
      simp only [hcompatible]
      exact (ih (Nat.succ.inj hlen) fun _ _ hmem => h (List.mem_cons_of_mem _ hmem)).bind (.pure _)

theorem checkCoalesced_delivers {args : List (Typed × Nat)}
    (hlen : args.length = brought.length) (h : BroughtAll c type (args.map Prod.fst) brought) :
    Delivers (checkCoalesced c type args) (some (brought.map Typed.sql)) := by
  induction args generalizing brought with
  | nil =>
    obtain rfl := List.length_eq_zero_iff.mp hlen.symm
    exact .pure _
  | cons a args ih =>
    cases brought with
    | nil => exact nomatch hlen
    | cons b brought =>
      obtain ⟨hbrought, hcompatible⟩ := h (List.mem_cons_self ..)
      refine (coerceIfTemporal_delivers hbrought).bind ?_
      simp only [hcompatible]
      exact (ih (Nat.succ.inj hlen) fun _ _ hmem => h (List.mem_cons_of_mem _ hmem)).bind (.pure _)

theorem checkIn_delivers {negated : Bool} {firstPos : Nat}
    (ht : t.type.isBroken = false) (hvisited : ∀ v ∈ visited, v.type.isBroken = false)
    (hlen : visited.length = brought.length) (h : BroughtAll c t.type visited brought)
    (hkinds : mixesKinds visited = false) :
    Delivers (checkIn c t visited negated pos firstPos)
      ⟨.inList t.sql (brought.map fun b => wholeItem b.sql) negated, .bool⟩ := by
  have hsound : ¬ (t.type.isBroken || visited.any fun i => i.type.isBroken) = true := by simpa [ht] using hvisited
  rw [checkIn]
  refine (if_neg (Bool.eq_false_iff.mp hkinds)).symm ▸ ?_
  rw [if_neg hsound]
  exact (checkItems_delivers hlen h).bind (.pure _)

theorem checkBetween_delivers {low high low' high' : Typed} (ht : t.type.isBroken = false)
    (hl : low.type.isBroken = false) (hh : high.type.isBroken = false) (hlow : Brought c t.type false low low')
    (hhigh : Brought c t.type (t.type == .datetime) high high') (hlow' : t.type.compatible low'.type = true)
    (hhigh' : t.type.compatible high'.type = true) :
    Delivers (checkBetween c t low high pos) ⟨.between t.sql low'.sql high'.sql, .bool⟩ := by
  rw [checkBetween, if_neg (by simp [ht, hl, hh])]
  dsimp only
  split
  · next htemporal =>
    refine (coerceTemporal_delivers hlow htemporal).bind ((coerceTemporal_delivers hhigh htemporal).bind ?_)
    refine (Delivers.pure _).bind ?_
    simp only [Option.bind_some, Option.map_some, hlow', hhigh']
    exact .pure _
  · next htemporal =>
    obtain rfl := hlow.eq_of_not_temporal (Bool.eq_false_iff.mpr htemporal)
    obtain rfl := hhigh.eq_of_not_temporal (Bool.eq_false_iff.mpr htemporal)
    refine (Delivers.pure _).bind ?_
    simp only [hlow', hhigh']
    exact .pure _

theorem checkLike_delivers {pattern : Typed} {ignoreCase negated : Bool} (ht : t.type = .str) (hp : pattern.type = .str) :
    Delivers (checkLike t pattern ignoreCase negated pos)
      (let right := widenPattern pattern.sql
        let sql := if ignoreCase then Sql.compare .like (.func "lower" [t.sql]) (.func "lower" [right])
          else .compare .like t.sql right
        ⟨if negated then sql.negate else sql, .bool⟩) := by
  rw [checkLike, if_neg (by simp [ht, hp, ValueType.isBroken]), if_neg (by simp [ht, hp])]
  exact .pure _

theorem checkRange_delivers {offset units : String} {offsetPos : Nat} {low high : Date}
    (hrange : dateRange offset units c.now.date = .ok (low, high)) :
    (t.type = .date → Delivers (checkRange c t offset units pos offsetPos)
      ⟨.between t.sql (.literal (.date low)) (.literal (.date high)), .bool⟩) ∧
    (t.type = .datetime → Delivers (checkRange c t offset units pos offsetPos)
      ⟨.between t.sql (.literal (.datetime (.startOfDay low))) (.literal (.datetime (.endOfDay high))), .bool⟩) := by
  constructor
  all_goals
    intro htype
    rw [checkRange, htype, if_neg (by simp [ValueType.isBroken]), if_neg (by simp [ValueType.isTemporal])]
    refine (Delivers.readClock c).bind ?_
    rw [hrange]
    exact .pure _

theorem noteAggregation_delivers (hallowed : (c.options.forbidAggregation && !scope.inTotal) = false) :
    Delivers (noteAggregation c scope pos) () := by
  intro n
  rw [noteAggregation_run, if_neg (by simp [hallowed])]
  exact ⟨rfl, rfl⟩

theorem checkAggregate_delivers {aggregate : Aggregate} (ht : t.type.isBroken = false)
    (hfaults : aggregateFaults c aggregate t.type = [])
    (hallowed : (c.options.forbidAggregation && !scope.inTotal) = false) :
    Delivers (checkAggregate c scope aggregate t pos) (aggregate.apply t) := by
  rw [checkAggregate, hfaults]
  refine (Delivers.pure ()).bind ?_
  rw [if_neg (by simp [ht])]
  exact (noteAggregation_delivers hallowed).bind (.pure _)

theorem checkSubstr_delivers {args : List (Typed × Nat)} (hargs : ∀ a ∈ args, a.1.type.isBroken = false)
    (hfaults : substrFaults args = []) :
    Delivers (checkSubstr args) ⟨.func "substr" (args.map fun a => a.1.sql), .str⟩ := by
  rw [checkSubstr, if_neg (by simpa using hargs), hfaults]
  exact (Delivers.pure ()).bind (.pure _)

theorem checkDate_text {s : String} {m : DateTime} (ht : t.type.isBroken = false) (hsql : t.sql = .literal (.text s))
    (hread : readMoment s c.now = .ok m) : Delivers (checkDate c t pos) ⟨.literal (.datetime m), .date⟩ := by
  rw [checkDate, if_neg (by simp [ht]), hsql]
  refine (Delivers.readClock c).bind ?_
  rw [hread]
  exact .pure _

theorem checkDate_temporal (htext : ∀ s, t.sql ≠ .literal (.text s)) :
    (t.type = .date → Delivers (checkDate c t pos) t) ∧
      (t.type = .datetime → Delivers (checkDate c t pos) ⟨.dateTrunc .day t.sql true, .date⟩) := by
  constructor
  all_goals
    intro htype
    rw [checkDate, if_neg (by simp [htype, ValueType.isBroken])]
    split
    · next s hs => exact absurd hs (htext s)
    · rw [htype]
      exact .pure _

theorem checkTrunc_delivers {unit : TruncUnit} {name : String} (ht : t.type.isTemporal = true) :
    Delivers (checkTrunc unit name t pos) ⟨.dateTrunc unit t.sql (t.type == .datetime), .date⟩ := by
  have hbroken : ¬ t.type.isBroken = true := by
    intro h
    cases htype : t.type <;> simp [htype, ValueType.isBroken, ValueType.isTemporal] at h ht
  rw [checkTrunc, if_neg hbroken, if_neg (by simp [ht])]
  exact .pure _

theorem checkCoalesce_delivers {args : List (Typed × Nat)}
    (hargs : ∀ a ∈ args, a.1.type.isBroken = false) (hlen : args.length = brought.length)
    (h : BroughtAll c (commonType (args.map Prod.fst)) (args.map Prod.fst) brought) :
    Delivers (checkCoalesce c args) ⟨.func "coalesce" (brought.map Typed.sql), commonType (args.map Prod.fst)⟩ := by
  have htype : ((args.map fun a => a.1.type).find? (· ≠ .null)).getD .null = commonType (args.map Prod.fst) := by
    rw [commonType, decidingType, List.map_map]
    rfl
  rw [checkCoalesce, if_neg (by simpa using hargs)]
  extract_lets type
  rw [show type = commonType (args.map Prod.fst) from htype]
  exact (checkCoalesced_delivers hlen h).bind (.pure _)

def Branches.extend (b : Branches) (visited : List Typed) : Branches where
  whens := b.whens ++ branchWhens visited
  otherwise := (branchElse visited).or b.otherwise
  type := b.type.or (decidingType (branchValues visited))
  sound := b.sound

theorem checkValueType_delivers {first : Option ValueType} {v : Typed}
    (hv : v.type.isBroken = false) (hfits : Fits type v) (hfirst : ∀ τ, first = some τ → τ = type) :
    Delivers (checkValueType first v pos) (first.or (decidingType [v]), true) := by
  unfold checkValueType
  rw [if_neg (by simp [hv])]
  by_cases hnull : v.type = .null
  · have hundecided : decidingType [v] = none := by simp [decidingType, hnull]
    rw [if_pos hnull, hundecided, Option.or_none]
    exact .pure _
  · have hdecided : decidingType [v] = some v.type := by simp [decidingType, hnull]
    rw [if_neg hnull, hdecided]
    cases first with
    | none => exact .pure _
    | some τ =>
      obtain ⟨-, hcompatible⟩ := hfits.resolve_left hnull
      rw [hfirst τ rfl]
      simp only [hcompatible]
      exact .pure _

/-- If the first type that decides is `type`, then this is so of the types found so far, and it stays so when
the next value has been read. -/
theorem decided_cons {first : Option ValueType} {v : Typed} {rest : List Typed}
    (h : ∀ τ, first.or (decidingType (v :: rest)) = some τ → τ = type) :
    (∀ τ, first = some τ → τ = type) ∧ ∀ τ, (first.or (decidingType [v])).or (decidingType rest) = some τ → τ = type := by
  rw [decidingType_cons, ← Option.or_assoc] at h
  refine ⟨fun τ hτ => h τ ?_, h⟩
  rw [hτ]
  rfl

theorem visitBranches_delivers {args : List Tree} {b : Branches} (h : Branched c type visited whens otherwise)
    (hlen : args.length = visited.length)
    (hargs : ∀ ⦃a v⦄, (a, v) ∈ args.zip visited → v.type.isBroken = false ∧ Delivers (visit c scope a) v)
    (htype : ∀ τ, b.type.or (decidingType (branchValues visited)) = some τ → τ = type) :
    Delivers (visitBranches c scope b args) (b.extend visited) := by
  induction h generalizing args b with
  | done =>
    obtain rfl := List.length_eq_zero_iff.mp hlen
    rw [visitBranches]
    have hsame : b.extend [] = b := by simp [Branches.extend, branchWhens, branchElse, branchValues, decidingType]
    rw [hsame]
    exact .pure _
  | @otherwise v _ hfits | @otherwiseNull v hfits =>
    obtain ⟨value, rfl⟩ := List.length_eq_one_iff.mp hlen
    obtain ⟨hv, hvisit⟩ := hargs (List.mem_cons_self ..)
    rw [visitBranches]
    refine hvisit.bind ((checkValueType_delivers hv hfits (decided_cons htype).1).bind ?_)
    have hextend : b.extend [v] =
        { b with otherwise := some v, type := b.type.or (decidingType [v]), sound := b.sound && true } := by
      simp [Branches.extend, branchWhens, branchElse, branchValues]
    rw [hextend]
    exact .pure _
  | @when condition v v' rest whens otherwise hcondition hfits _ _ ih =>
    match args, hlen with
    | conditionTree :: valueTree :: trees, hlen =>
      obtain ⟨-, hvisit⟩ := hargs (List.mem_cons_self ..)
      obtain ⟨hv, hvisitValue⟩ := hargs (List.mem_cons_of_mem _ (List.mem_cons_self ..))
      obtain ⟨hknown, hlater⟩ := decided_cons htype
      rw [visitBranches]
      refine hvisit.bind ?_
      dsimp only
      rw [if_neg (by simp [hcondition, ValueType.isBroken]), if_neg (by simp [hcondition])]
      refine (Delivers.pure true).bind (hvisitValue.bind ((checkValueType_delivers hv hfits hknown).bind ?_))
      have hextend : b.extend (condition :: v :: rest) = Branches.extend
          { b with
            whens := b.whens ++ [(condition.sql, v)], type := b.type.or (decidingType [v]),
            sound := b.sound && true && true } rest := by
        simp [Branches.extend, branchWhens, branchElse, branchValues, decidingType_cons v (branchValues rest),
          Option.or_assoc]
      rw [hextend]
      exact ih (by simpa using hlen) (fun a w hmem => hargs (by simp [hmem])) hlater

theorem finishWhens_delivers (h : Branched c type visited whens otherwise) :
    Delivers (finishWhens c type (branchWhens visited)) (some whens) := by
  induction h with
  | done | otherwise | otherwiseNull => exact .pure _
  | when _ _ hbrought _ ih => exact (coerceIfTemporal_delivers hbrought).bind (ih.bind (.pure _))

theorem Branched.closed
    (h : Branched c type visited whens otherwise) : Closed c type (branchElse visited) otherwise := by
  induction h with
  | done => exact .none
  | otherwise _ hnull hbrought => exact .value hnull hbrought
  | otherwiseNull _ hnull => exact .null hnull
  | when _ _ _ _ ih => exact ih

theorem finishIf_delivers
    (htype : type = commonType (branchValues visited)) (h : Branched c type visited whens otherwise) :
    Delivers (finishIf c (Branches.extend {} visited)) ⟨.case whens otherwise, type⟩ := by
  have hfound : (Branches.extend {} visited).type.getD .null = type := by
    rw [htype]
    rfl
  have hlast : (Branches.extend {} visited).otherwise = branchElse visited := Option.or_none
  rw [finishIf, if_neg (by simp [Branches.extend])]
  extract_lets found
  rw [show found = type from hfound]
  refine (finishWhens_delivers h).bind ?_
  rw [hlast]
  have hclosed := h.closed
  generalize branchElse visited = last at hclosed
  cases hclosed with
  | none => exact .pure _
  | null hnull =>
    simp only [hnull]
    exact .pure _
  | value hnull hbrought =>
    simp only [hnull]
    exact (coerceIfTemporal_delivers hbrought).bind (.pure _)

theorem visitAll_delivers {args : List Tree} (hlen : args.length = visited.length)
    (h : ∀ ⦃a v⦄, (a, v) ∈ args.zip visited → Delivers (visit c scope a) v) :
    Delivers (visitAll c scope args) visited := by
  induction args generalizing visited with
  | nil =>
    obtain rfl := List.length_eq_zero_iff.mp hlen.symm
    rw [visitAll]
    exact .pure _
  | cons arg args ih =>
    cases visited with
    | nil => exact nomatch hlen
    | cons v visited =>
      rw [visitAll]
      refine (h (List.mem_cons_self ..)).bind ?_
      exact (ih (Nat.succ.inj hlen) fun _ _ hmem => h (List.mem_cons_of_mem _ hmem)).bind (.pure _)

theorem conditions_delivers {m k : Walk Typed} {join : Typed → Typed → Typed} {lpos rpos : Nat} (hm : Delivers m l)
    (hk : Delivers k r) (hl : l.type.isCondition) (hr : r.type.isCondition) :
    Delivers (do
      let l ← m
      let lSound ← checkCondition l lpos
      let r ← k
      let rSound ← checkCondition r rpos
      if lSound && rSound then return join l r else return .broken) (join l r) :=
  hm.bind ((checkCondition_delivers hl).bind (hk.bind ((checkCondition_delivers hr).bind (.pure _))))

theorem sound_delivers {built : Typed} (ht : t.type.isBroken = false) :
    Delivers (if t.type.isBroken then return .broken else return built : Walk Typed) built := by
  rw [if_neg (by simp [ht])]
  exact .pure _

theorem total_delivers (ht : t.type.isBroken = false) (h : Delivers (visit c ⟨true, false⟩ arg) t) :
    Delivers (visit c scope (.total pos arg)) ⟨.total c.schema.name t.sql, t.type⟩ := by
  intro n
  rw [visit]
  have hrest : Delivers (do
      let t ← visit c ⟨true, false⟩ arg
      modify fun n' => { n' with aggregated := n.aggregated }
      if t.type.isBroken then return .broken else return (⟨.total c.schema.name t.sql, t.type⟩ : Typed))
      ⟨.total c.schema.name t.sql, t.type⟩ := by
    refine h.bind ((Delivers.modify (g := fun n' => { n' with aggregated := n.aggregated }) fun _ => rfl).bind ?_)
    exact sound_delivers ht
  exact hrest n

section

variable {name : String} {args : List Tree}

theorem countAll_delivers {starPos : Nat} (hname : Function.ofName? name = some (.aggregate .count))
    (hscope : scope.inAggregate = false) (hallowed : (c.options.forbidAggregation && !scope.inTotal) = false) :
    Delivers (visit c scope (.call pos name [.star starPos])) ⟨.func "count" [.star], .num⟩ := by
  simp only [visit, hname]
  rw [if_neg (by simp), if_neg (by simp [hscope]), if_pos (by simp [isStar]), if_neg (by simp)]
  refine (Delivers.modify (g := fun n => { n with readsColumns := true }) fun _ => rfl).bind ?_
  exact (noteAggregation_delivers hallowed).bind (.pure _)

theorem aggregate_delivers {aggregate : Aggregate}
    (hname : Function.ofName? name = some (.aggregate aggregate)) (hscope : scope.inAggregate = false)
    (hallowed : (c.options.forbidAggregation && !scope.inTotal) = false) (ht : t.type.isBroken = false)
    (hfaults : aggregateFaults c aggregate t.type = []) (hstar : isStar arg = false)
    (harg : Delivers (visit c { scope with inAggregate := true } arg) t) :
    Delivers (visit c scope (.call pos name [arg])) (aggregate.apply t) := by
  have hargs : Delivers (visitAll c { scope with inAggregate := true } [arg]) [t] :=
    visitAll_delivers rfl (by simpa using harg)
  simp only [visit, hname]
  rw [if_neg (by simp), if_neg (by simp [hscope]), if_neg (by simp [hstar])]
  exact hargs.bind (checkAggregate_delivers ht hfaults hallowed)

def applyUnary (c : Context) (scalar : Scalar) (name : String) (t : Typed) (pos : Nat) : Walk Typed :=
  match scalar with
  | .string => if t.type.isBroken then return .broken else return ⟨.cast t.sql .varchar, .str⟩
  | .int => if t.type.isBroken then return .broken else return ⟨.cast t.sql .integer, .num⟩
  | .trunc unit => checkTrunc unit name t pos
  | _ => checkDate c t pos

theorem unary_delivers {scalar : Scalar} {built : Typed}
    (hname : Function.ofName? name = some (.scalar scalar)) (hunary : scalar ∉ [.if, .coalesce, .substr])
    (harg : Delivers (visit c scope arg) t)
    (hbuilt : Delivers (applyUnary c scalar (Text.lower name) t arg.pos) built) :
    Delivers (visit c scope (.call pos name [arg])) built := by
  have hargs : Delivers (visitAll c scope [arg]) [t] := visitAll_delivers rfl (by simpa using harg)
  have harity : ¬ ([arg].length < scalar.arity.1 ∨ scalar.arity.2 < [arg].length) := by
    cases scalar <;> simp_all [Scalar.arity]
  cases scalar with
  | «if» | coalesce | substr => simp at hunary
  | string | int | date | trunc =>
    simp only [visit, hname]
    rw [if_neg harity]
    exact hargs.bind hbuilt

theorem zip_pos_fst (hlen : args.length = visited.length) :
    (visited.zip (args.map Tree.pos)).map Prod.fst = visited := List.map_fst_zip (by simp [hlen])

theorem substr_delivers (hname : Function.ofName? name = some (.scalar .substr))
    (hleast : 2 ≤ args.length) (hmost : args.length ≤ 3) (hlen : args.length = visited.length)
    (hsound : ∀ v ∈ visited, v.type.isBroken = false) (hargs : Delivers (visitAll c scope args) visited)
    (hfaults : substrFaults (visited.zip (args.map Tree.pos)) = []) :
    Delivers (visit c scope (.call pos name args)) ⟨.func "substr" (visited.map Typed.sql), .str⟩ := by
  have harity : ¬ (args.length < Scalar.substr.arity.1 ∨ Scalar.substr.arity.2 < args.length) := by
    simp only [Scalar.arity]
    omega
  have hsql : ((visited.zip (args.map Tree.pos)).map fun a => a.1.sql) = visited.map Typed.sql :=
    List.map_map.symm.trans (congrArg (List.map Typed.sql) (zip_pos_fst hlen))
  simp only [visit, hname]
  rw [if_neg harity]
  refine hargs.bind ?_
  rw [← hsql]
  exact checkSubstr_delivers (fun a ha => hsound _ (List.of_mem_zip ha).1) hfaults

theorem coalesce_delivers (hname : Function.ofName? name = some (.scalar .coalesce))
    (hargs : args ≠ []) (hlen : args.length = visited.length) (hsound : ∀ v ∈ visited, v.type.isBroken = false)
    (hvisit : Delivers (visitAll c scope args) visited) (hlen' : visited.length = brought.length)
    (h : BroughtAll c (commonType visited) visited brought) :
    Delivers (visit c scope (.call pos name args)) ⟨.func "coalesce" (brought.map Typed.sql), commonType visited⟩ := by
  have hfst := zip_pos_fst hlen
  simp only [visit, hname]
  rw [if_neg (by simpa using hargs)]
  refine hvisit.bind ?_
  rw [← hfst] at h
  have hchecked := checkCoalesce_delivers (fun a ha => hsound _ (List.of_mem_zip ha).1) (by simp [hlen, hlen']) h
  rw [hfst] at hchecked
  exact hchecked

theorem cond_delivers
    (hname : Function.ofName? name = some (.scalar .if)) (hargs : 2 ≤ args.length) (hlen : args.length = visited.length)
    (hvisit : ∀ ⦃a v⦄, (a, v) ∈ args.zip visited → v.type.isBroken = false ∧ Delivers (visit c scope a) v)
    (htype : type = commonType (branchValues visited)) (h : Branched c type visited whens otherwise) :
    Delivers (visit c scope (.call pos name args)) ⟨.case whens otherwise, type⟩ := by
  have hdecided : ∀ τ, (none : Option ValueType).or (decidingType (branchValues visited)) = some τ → τ = type := by
    intro τ hτ
    rw [htype, commonType, show decidingType (branchValues visited) = some τ from hτ]
    rfl
  simp only [visit, hname]
  rw [if_neg (by omega)]
  exact (visitBranches_delivers h hlen hvisit hdecided).bind (finishIf_delivers htype h)

end

theorem not_broken_of_zip {args : List Tree} (hlen : args.length = visited.length)
    (h : ∀ ⦃a v⦄, (a, v) ∈ args.zip visited → Compiles c scope a v) : ∀ v ∈ visited, v.type.isBroken = false :=
  forall_of_zip hlen fun _ _ hmem => (h hmem).not_broken

theorem Compiles.not_text (h : Compiles c scope tree t) (ht : t.type.isTemporal = true) (s : String) :
    t.sql ≠ .literal (.text s) := by
  intro hs
  have hplain := h.plain?_of_temporal ht
  rw [hs] at hplain
  exact nomatch hplain

theorem delivers_of_compiles (h : Compiles c scope tree t) : Delivers (visit c scope tree) t := by
  induction h with
  | @column _ pos _ _ hcolumn husable htrunc | @columnTrunc _ pos _ _ _ hcolumn husable htrunc =>
    have hvisit := visitColumn_delivers pos hcolumn husable
    rw [htrunc] at hvisit
    rw [visit]
    exact hvisit
  | constant hfinite =>
    rw [visit]
    exact visitConstant_delivers hfinite
  | negLiteral h hsql hnumber ih =>
    rw [visit]
    exact ih.bind (checkNeg_literal hsql hnumber h.not_broken)
  | neg h hnumber htype ih =>
    rw [visit]
    exact ih.bind ((checkNeg_other hnumber).1 htype)
  | negNull h hnumber htype ih =>
    rw [visit]
    exact ih.bind ((checkNeg_other hnumber).2 htype)
  | not h htype ih =>
    rw [visit]
    exact ih.bind (checkNot_delivers htype)
  | arithFold hl hr htype ha hb hfold ihl ihr =>
    rw [visit]
    exact ihl.bind (ihr.bind (checkArith_folds htype ha hb hfold))
  | arith hl hr htype hliteral hsql ihl ihr =>
    rw [visit]
    exact ihl.bind (ihr.bind (checkArith_delivers htype hliteral hsql))
  | compare hl hr hpair hcompatible ihl ihr =>
    rw [visit]
    exact ihl.bind (ihr.bind (checkCompare_delivers hl.not_broken hr.not_broken hpair hcompatible))
  | and hl hr htl htr ihl ihr | or hl hr htl htr ihl ihr =>
    rw [visit]
    exact conditions_delivers ihl ihr htl htr
  | inList h hliteral hlen hitems hlen' hbrought hkinds ih ihs =>
    rw [visit]
    refine ih.bind ?_
    rw [if_neg (by simp [Typed.isLiteral, hliteral])]
    refine (visitAll_delivers hlen ihs).bind ?_
    exact checkIn_delivers h.not_broken (not_broken_of_zip hlen hitems) hlen' hbrought hkinds
  | between h hl hh hlow hhigh hlow' hhigh' ih ihl ihh =>
    rw [visit]
    refine ih.bind (ihl.bind (ihh.bind ?_))
    exact checkBetween_delivers h.not_broken hl.not_broken hh.not_broken hlow hhigh hlow' hhigh'
  | like h hp ht hpattern ih ihp | ilike h hp ht hpattern ih ihp =>
    rw [visit]
    exact ih.bind (ihp.bind (checkLike_delivers ht hpattern))
  | isNull h ih =>
    rw [visit]
    exact ih.bind (sound_delivers h.not_broken)
  | isDateRange h ht hrange ih =>
    rw [visit]
    exact ih.bind ((checkRange_delivers hrange).1 ht)
  | isDatetimeRange h ht hrange ih =>
    rw [visit]
    exact ih.bind ((checkRange_delivers hrange).2 ht)
  | countAll hname hscope hallowed => exact countAll_delivers hname hscope hallowed
  | aggregate hname hscope hallowed h hfaults ih =>
    exact aggregate_delivers hname hscope hallowed h.not_broken hfaults (by cases h <;> rfl) ih
  | cond hname hargs hlen hvisited htype hbranched ih =>
    exact cond_delivers hname hargs hlen (fun _ _ hmem => ⟨(hvisited hmem).not_broken, ih hmem⟩) htype hbranched
  | coalesce hname hargs hlen hvisited htype hlen' hbrought ih =>
    subst htype
    exact coalesce_delivers hname hargs hlen (not_broken_of_zip hlen hvisited) (visitAll_delivers hlen ih) hlen' hbrought
  | substr hname hleast hmost hlen hvisited hfaults ih =>
    exact substr_delivers hname hleast hmost hlen (not_broken_of_zip hlen hvisited) (visitAll_delivers hlen ih) hfaults
  | string hname h ih | int hname h ih => exact unary_delivers hname (by simp) ih (sound_delivers h.not_broken)
  | trunc hname h ht ih => exact unary_delivers hname (by simp) ih (checkTrunc_delivers ht)
  | dateOfText hname h hsql hread ih =>
    exact unary_delivers hname (by simp) ih (checkDate_text h.not_broken hsql hread)
  | dateOfDate hname h ht ih =>
    exact unary_delivers hname (by simp) ih ((checkDate_temporal (h.not_text (by rw [ht]; rfl))).1 ht)
  | dateOfDatetime hname h ht ih =>
    exact unary_delivers hname (by simp) ih ((checkDate_temporal (h.not_text (by rw [ht]; rfl))).2 ht)
  | total h ih => exact total_delivers h.not_broken ih

theorem Compiles.unique {t t' : Typed} (h : Compiles c scope tree t) (h' : Compiles c scope tree t') :
    t = t' := (delivers_of_compiles h).unique (delivers_of_compiles h')

theorem compile_of_compiles (h : Compiles c {} tree t) :
    ∃ compiled, tree.compile c = .ok compiled ∧ compiled.sql = t.sql ∧ compiled.type = t.type := by
  obtain ⟨hvalue, herrors⟩ := delivers_of_compiles h {}
  simp only [Tree.compile]
  split
  next t' notes hrun =>
  rw [hrun] at hvalue herrors
  rw [if_pos (by simp [show notes.errors = [] from herrors])]
  exact ⟨_, rfl, congrArg Typed.sql hvalue, congrArg Typed.type hvalue⟩

namespace Tree

def scopeInside (scope : Scope) : Tree → Scope
  | .total _ _ => ⟨true, false⟩
  | .call _ name _ => { scope with inAggregate := scope.inAggregate || namesAggregate name }
  | _ => scope

/-- `Stands scope tree place node`: on its way through `tree` the walk comes to `node` in the scope `place`. -/
inductive Stands : Scope → Tree → Scope → Tree → Prop where
  | self {scope : Scope} {tree : Tree} : Stands scope tree scope tree
  | step {scope place : Scope} {tree child node : Tree} : child ∈ tree.children →
      Stands (tree.scopeInside scope) child place node → Stands scope tree place node

theorem stands_of_within {tree node : Tree} (h : tree.Within node) (scope : Scope) :
    ∃ place, Stands scope tree place node := by
  induction h generalizing scope with
  | self => exact ⟨scope, .self⟩
  | @step tree _ _ hchild _ ih =>
    obtain ⟨place, hplace⟩ := ih (tree.scopeInside scope)
    exact ⟨place, .step hchild hplace⟩

/-- What the walk gives for a node. -/
def valueIn (c : Context) (scope : Scope) (node : Tree) : Typed := ((visit c scope node).run {}).1

end Tree

theorem Compiles.valueIn_eq (h : Compiles c scope tree t) : tree.valueIn c scope = t :=
  (delivers_of_compiles h {}).1

theorem scopeInside_scalar {name : String} {scalar : Scalar} {args : List Tree}
    (hname : Function.ofName? name = some (.scalar scalar)) : (Tree.call pos name args).scopeInside scope = scope := by
  simp [Tree.scopeInside, namesAggregate, hname]

theorem Compiles.child {tree child : Tree} (h : Compiles c scope tree t) (hchild : child ∈ tree.children) :
    isStar child = true ∨ ∃ t', Compiles c (tree.scopeInside scope) child t' := by
  have hzip {args : List Tree} {visited : List Typed} (hlen : args.length = visited.length)
      (hvisited : ∀ ⦃a v⦄, (a, v) ∈ args.zip visited → Compiles c scope a v) (hmem : child ∈ args) :
      ∃ t', Compiles c scope child t' := by
    obtain ⟨v, hv⟩ := exists_zip_of_mem hlen.symm hmem
    have hswapped : (child, v) ∈ (visited.zip args).map Prod.swap := List.mem_map_of_mem hv
    rw [List.zip_swap] at hswapped
    exact ⟨v, hvisited hswapped⟩
  cases h with
  | column | columnTrunc | constant => exact nomatch hchild
  | negLiteral h | neg h | negNull h | not h | isNull h | isDateRange h | isDatetimeRange h | total h =>
    rw [List.mem_singleton.mp hchild]
    exact .inr ⟨_, h⟩
  | arithFold hl hr | arith hl hr | compare hl hr | and hl hr | or hl hr | like hl hr | ilike hl hr =>
    simp only [Tree.children, List.mem_cons, List.not_mem_nil, or_false] at hchild
    rcases hchild with rfl | rfl
    · exact .inr ⟨_, hl⟩
    · exact .inr ⟨_, hr⟩
  | inList h _ hlen hitems =>
    rcases List.mem_cons.mp hchild with rfl | hchild
    · exact .inr ⟨_, h⟩
    · exact .inr (hzip hlen hitems hchild)
  | between h hl hh =>
    simp only [Tree.children, List.mem_cons, List.not_mem_nil, or_false] at hchild
    rcases hchild with rfl | rfl | rfl
    · exact .inr ⟨_, h⟩
    · exact .inr ⟨_, hl⟩
    · exact .inr ⟨_, hh⟩
  | countAll =>
    rw [List.mem_singleton.mp hchild]
    exact .inl rfl
  | aggregate hname _ _ h =>
    rw [List.mem_singleton.mp hchild, Tree.scopeInside, namesAggregate, hname]
    exact .inr ⟨_, by simpa using h⟩
  | cond hname _ hlen hvisited | coalesce hname _ hlen hvisited | substr hname _ _ hlen hvisited =>
    rw [scopeInside_scalar hname]
    exact .inr (hzip hlen hvisited hchild)
  | string hname h | int hname h | trunc hname h | dateOfText hname h | dateOfDate hname h | dateOfDatetime hname h =>
    rw [scopeInside_scalar hname, List.mem_singleton.mp hchild]
    exact .inr ⟨_, h⟩

/-- Wherever the walk over a tree that compiles comes, the node compiles to what the walk gives for it. -/
theorem Compiles.stands {tree node : Tree} {place : Scope} (hstands : Tree.Stands scope tree place node)
    (h : Compiles c scope tree t) (hnode : isStar node = false) : Compiles c place node (node.valueIn c place) := by
  induction hstands generalizing t with
  | self =>
    rw [h.valueIn_eq]
    exact h
  | @step scope place tree child node hchild hstands ih =>
    rcases h.child hchild with hstar | ⟨t', h'⟩
    · cases hstands with
      | self => exact nomatch hnode.symm.trans hstar
      | step hinner =>
        cases child with
        | star => exact nomatch hinner
        | _ => exact nomatch hstar
    · exact ih h' hnode

end ShelfQuery.Expression
