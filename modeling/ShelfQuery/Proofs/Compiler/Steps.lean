import ShelfQuery.Expression.Compile

set_option autoImplicit false

namespace ShelfQuery.Expression

open ShelfQuery.Sql ShelfQuery.Schema ShelfQuery.Calendar

variable {fault : Fault} {args : List (Typed × Nat)}

def Fault.isUnknownColumn : Fault → Bool
  | .unknownColumn _ => true
  | _ => false

def Diagnostic.Points (P : Nat → Prop) (d : Diagnostic) : Prop :=
  d.fault.isUnknownColumn = false ∧ ∀ p ∈ d.pos, P p

/-- Two walks that take the same steps, except that each reads its own clock. -/
inductive Steps (P : Nat → Prop) : {α : Type} → Walk α → Walk α → Prop where
  | pure {α : Type} (a : α) : Steps P (pure a) (pure a)
  | bind {α β : Type} {m m' : Walk α} {f f' : α → Walk β} : Steps P m m' → (∀ a, Steps P (f a) (f' a)) →
      Steps P (m >>= f) (m' >>= f')
  | readClock (c c' : Context) : Steps P (readClock c) (readClock c')
  | note {d : Diagnostic} : d.Points P → Steps P (note d) (note d)
  | noteAggregation (c : Context) (scope : Scope) {pos : Nat} : P pos →
      Steps P (noteAggregation c scope pos) (noteAggregation c scope pos)

variable {c c' : Context} {P : Nat → Prop} {t : Typed} {pos : Nat}

theorem Diagnostic.points_placed (h : fault.isUnknownColumn = false) (hpos : P pos) :
    (Diagnostic.placed fault pos).Points P :=
  ⟨h, by simpa [Diagnostic.placed] using hpos⟩

namespace Steps

theorem unplaced (h : fault.isUnknownColumn = false) :
    Steps P (Expression.note (.unplaced fault)) (Expression.note (.unplaced fault)) :=
  .note ⟨h, by simp [Diagnostic.unplaced]⟩

theorem report (h : fault.isUnknownColumn = false) (hpos : P pos) : Steps P (report fault pos) (report fault pos) :=
  .note (Diagnostic.points_placed h hpos)

theorem refuse (h : fault.isUnknownColumn = false) (hpos : P pos) : Steps P (refuse fault pos) (refuse fault pos) :=
  (report h hpos).bind fun _ => .pure _

theorem refuseUnplaced (h : fault.isUnknownColumn = false) : Steps P (refuseUnplaced fault) (refuseUnplaced fault) :=
  (unplaced h).bind fun _ => .pure _

end Steps

theorem coerceTemporal_steps (target : ValueType) (wholeDay : Bool) :
    Steps P (coerceTemporal c t target wholeDay) (coerceTemporal c' t target wholeDay) := by
  unfold coerceTemporal
  extract_lets finish
  split
  · apply (Steps.readClock c c').bind
    intro now
    split
    · exact .pure _
    · exact (Steps.unplaced rfl).bind fun _ => .pure _
  · exact .pure _
  · exact .pure _
  · exact .pure _

theorem coerceIfTemporal_steps (target : ValueType) :
    Steps P (coerceIfTemporal c t target) (coerceIfTemporal c' t target) := by
  unfold coerceIfTemporal
  split
  · exact coerceTemporal_steps target false
  · exact .pure _

theorem coercePair_steps (l r : Typed) : Steps P (coercePair c l r) (coercePair c' l r) := by
  unfold coercePair
  split
  · exact (coerceTemporal_steps _ _).bind fun _ => .pure _
  · split
    · exact (coerceTemporal_steps _ _).bind fun _ => .pure _
    · exact .pure _

theorem visitConstant_steps (value : Constant) (h : P pos) :
    Steps P (visitConstant value pos) (visitConstant value pos) := by
  cases value with
  | float x =>
    simp only [visitConstant]
    split
    · exact .pure _
    · exact .refuse rfl h
  | _ => exact .pure _

theorem checkNeg_steps (h : P pos) : Steps P (checkNeg t pos) (checkNeg t pos) := by
  unfold checkNeg
  split
  · exact .pure _
  · split
    · exact .pure _
    · split
      · exact .pure _
      · exact .pure _
      · exact .refuse rfl h

theorem checkNot_steps (h : P pos) : Steps P (checkNot t pos) (checkNot t pos) := by
  unfold checkNot
  split
  · exact .pure _
  · split
    · exact .refuse rfl h
    · exact .pure _

theorem foldArith_error {op : Arith} {a b : Literal} (h : foldArith op a b = .error fault) :
    fault.isUnknownColumn = false := by
  have hfinite {l : Literal} (h : (if isFiniteLiteral l then Except.ok l else .error Fault.notFinite) = .error fault) :
      fault.isUnknownColumn = false := by
    split at h <;> cases h
    rfl
  unfold foldArith at h
  extract_lets finite at h
  split at h
  · cases h
  · cases h
  · cases h
  · split at h
    · cases h
      rfl
    · split at h <;> exact hfinite h
  · exact hfinite h

theorem arithSql_error {op : Arith} {type : ValueType} {l r : Sql} (h : arithSql op type l r = .error fault) :
    fault.isUnknownColumn = false := by
  cases op with
  | add | sub | mul => cases h
  | div =>
    change divide l r = .error fault at h
    unfold divide at h
    split at h
    · split at h
      · cases h
        rfl
      · split at h <;> cases h
    · cases h

theorem checkArith_steps (op : Arith) (l r : Typed) (h : P pos) :
    Steps P (checkArith op l r pos) (checkArith op l r pos) := by
  unfold checkArith
  split
  · exact .pure _
  · split
    · exact .refuse rfl h
    · split
      · split
        · exact .pure _
        · next hfold => exact .refuseUnplaced (foldArith_error hfold)
      · split
        · exact .pure _
        · next hsql => exact .refuseUnplaced (arithSql_error hsql)

theorem checkCompare_steps (op : Comparison) (l r : Typed) (h : P pos) :
    Steps P (checkCompare c op l r pos) (checkCompare c' op l r pos) := by
  unfold checkCompare
  split
  · exact .pure _
  · apply (coercePair_steps l r).bind
    intro pair
    split
    · exact .pure _
    · split
      · exact .refuse rfl h
      · exact .pure _

theorem checkCondition_steps (h : P pos) : Steps P (checkCondition t pos) (checkCondition t pos) := by
  unfold checkCondition
  split
  · exact .pure _
  · split
    · exact .pure _
    · exact (Steps.report rfl h).bind fun _ => .pure _

theorem checkItems_steps (type : ValueType) (items : List Typed) (h : P pos) :
    Steps P (checkItems c type pos items) (checkItems c' type pos items) := by
  induction items with
  | nil => exact .pure _
  | cons item rest ih =>
    apply (coerceIfTemporal_steps type).bind
    intro item'
    split
    · exact .pure _
    · split
      · exact (Steps.report rfl h).bind fun _ => .pure _
      · exact ih.bind fun _ => .pure _

theorem checkIn_steps (items : List Typed) (negated : Bool) {firstPos : Nat} (h : P pos) (hfirst : P firstPos) :
    Steps P (checkIn c t items negated pos firstPos) (checkIn c' t items negated pos firstPos) := by
  unfold checkIn
  extract_lets has
  split
  · exact .refuse rfl hfirst
  · split
    · exact .pure _
    · apply (checkItems_steps t.type items h).bind
      intro checked
      split
      · exact .pure _
      · exact .pure _

theorem checkBetween_steps (low high : Typed) (h : P pos) :
    Steps P (checkBetween c t low high pos) (checkBetween c' t low high pos) := by
  unfold checkBetween
  split
  · exact .pure _
  · extract_lets finish
    have hfinish (bounds : Option (Typed × Typed)) : Steps P (finish bounds) (finish bounds) := by
      simp only [finish]
      split
      · exact .pure _
      · split
        · exact .refuse rfl h
        · exact .pure _
    split
    · apply (coerceTemporal_steps t.type false).bind
      intro low'
      apply (coerceTemporal_steps t.type _).bind
      intro high'
      exact (Steps.pure _).bind hfinish
    · exact (Steps.pure _).bind hfinish

theorem checkLike_steps (pattern : Typed) (ignoreCase negated : Bool) (h : P pos) :
    Steps P (checkLike t pattern ignoreCase negated pos) (checkLike t pattern ignoreCase negated pos) := by
  unfold checkLike
  split
  · exact .pure _
  · split
    · exact .refuse rfl h
    · exact .pure _

theorem checkRange_steps (offset units : String) {offsetPos : Nat} (h : P pos) (hoffset : P offsetPos) :
    Steps P (checkRange c t offset units pos offsetPos) (checkRange c' t offset units pos offsetPos) := by
  unfold checkRange
  split
  · exact .pure _
  · split
    · exact .refuse rfl h
    · apply (Steps.readClock c c').bind
      intro now
      split
      · exact .refuse rfl hoffset
      · exact .pure _

theorem sound_steps (built : Typed) :
    Steps P (if t.type.isBroken then pure Typed.broken else pure built) (if t.type.isBroken then pure Typed.broken else pure built) := by
  split
  · exact .pure _
  · exact .pure _

theorem reportAll_steps {faults : List Fault} (hfaults : ∀ fault ∈ faults, fault.isUnknownColumn = false) (h : P pos) :
    Steps P (reportAll pos faults) (reportAll pos faults) := by
  induction faults with
  | nil => exact .pure _
  | cons fault rest ih =>
    obtain ⟨hfault, hrest⟩ := List.forall_mem_cons.mp hfaults
    exact (Steps.report hfault h).bind fun _ => ih hrest

theorem noteAll_steps {ds : List Diagnostic} (h : ∀ d ∈ ds, d.Points P) : Steps P (noteAll ds) (noteAll ds) := by
  induction ds with
  | nil => exact .pure _
  | cons d rest ih =>
    obtain ⟨hd, hrest⟩ := List.forall_mem_cons.mp h
    exact (Steps.note hd).bind fun _ => ih hrest

theorem aggregateFaults_steps (aggregate : Aggregate) (type : ValueType) :
    ∀ fault ∈ aggregateFaults c aggregate type, fault.isUnknownColumn = false := by
  unfold aggregateFaults
  refine List.forall_mem_append.mpr ⟨List.forall_mem_append.mpr ⟨?_, ?_⟩, ?_⟩
  · split
    · split <;> simp [Fault.isUnknownColumn]
    · simp
  · split <;> simp [Fault.isUnknownColumn]
  · split <;> simp [Fault.isUnknownColumn]

theorem checkAggregate_steps (scope : Scope) (aggregate : Aggregate) (h : P pos) :
    Steps P (checkAggregate c scope aggregate t pos) (checkAggregate c scope aggregate t pos) := by
  unfold checkAggregate
  extract_lets faults
  apply (reportAll_steps (aggregateFaults_steps aggregate t.type) h).bind
  intro _
  split
  · exact .pure _
  · exact (Steps.noteAggregation c scope h).bind fun _ => .pure _

theorem checkSubstr_steps (h : ∀ arg ∈ args, P arg.2) : Steps P (checkSubstr args) (checkSubstr args) := by
  have hfaults : ∀ d ∈ substrFaults args, d.Points P := by
    intro d hd
    obtain ⟨⟨⟨t, pos⟩, i⟩, hmem, hfault⟩ := List.mem_filterMap.mp hd
    have hpos : P pos := h (t, pos) (List.fst_mem_of_mem_zipIdx hmem)
    obtain ⟨-, heq⟩ := Option.ite_none_left_eq_some.mp hfault
    cases heq
    exact Diagnostic.points_placed rfl hpos
  unfold checkSubstr
  split
  · exact .pure _
  · extract_lets faults
    apply (noteAll_steps hfaults).bind
    intro _
    split
    · exact .pure _
    · exact .pure _

theorem checkDate_steps (h : P pos) : Steps P (checkDate c t pos) (checkDate c' t pos) := by
  unfold checkDate
  split
  · exact .pure _
  · split
    · apply (Steps.readClock c c').bind
      intro now
      split
      · exact .pure _
      · exact .refuseUnplaced rfl
    · split
      · exact .pure _
      · exact .pure _
      · exact .refuse rfl h

theorem checkTrunc_steps (unit : TruncUnit) (name : String) (h : P pos) :
    Steps P (checkTrunc unit name t pos) (checkTrunc unit name t pos) := by
  unfold checkTrunc
  split
  · exact .pure _
  · split
    · exact .refuse rfl h
    · exact .pure _

theorem checkValueType_steps (first : Option ValueType) (h : P pos) :
    Steps P (checkValueType first t pos) (checkValueType first t pos) := by
  unfold checkValueType
  split
  · exact .pure _
  · split
    · exact .pure _
    · split
      · exact .pure _
      · split
        · exact .pure _
        · exact (Steps.report rfl h).bind fun _ => .pure _

theorem finishWhens_steps (type : ValueType) (whens : List (Sql × Typed)) :
    Steps P (finishWhens c type whens) (finishWhens c' type whens) := by
  induction whens with
  | nil => exact .pure _
  | cons w rest ih =>
    apply (coerceIfTemporal_steps type).bind
    intro value
    split
    · exact .pure _
    · exact ih.bind fun _ => .pure _

theorem finishIf_steps (b : Branches) : Steps P (finishIf c b) (finishIf c' b) := by
  unfold finishIf
  split
  · exact .pure _
  · extract_lets type
    apply (finishWhens_steps type b.whens).bind
    intro whens
    split
    · exact .pure _
    · split
      · exact .pure _
      · split
        · exact .pure _
        · apply (coerceIfTemporal_steps type).bind
          intro value
          split
          · exact .pure _
          · exact .pure _

theorem checkCoalesced_steps (type : ValueType) (h : ∀ arg ∈ args, P arg.2) :
    Steps P (checkCoalesced c type args) (checkCoalesced c' type args) := by
  induction args with
  | nil => exact .pure _
  | cons arg rest ih =>
    obtain ⟨harg, hrest⟩ := List.forall_mem_cons.mp h
    apply (coerceIfTemporal_steps type).bind
    intro value
    split
    · exact .pure _
    · split
      · exact (Steps.report rfl harg).bind fun _ => .pure _
      · exact (ih hrest).bind fun _ => .pure _

theorem checkCoalesce_steps (h : ∀ arg ∈ args, P arg.2) : Steps P (checkCoalesce c args) (checkCoalesce c' args) := by
  unfold checkCoalesce
  split
  · exact .pure _
  · extract_lets type
    apply (checkCoalesced_steps type h).bind
    intro checked
    split
    · exact .pure _
    · exact .pure _

end ShelfQuery.Expression
