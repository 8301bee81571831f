import ShelfQuery.Proofs.Compiler.Compiles

set_option autoImplicit false

namespace ShelfQuery.Expression

open ShelfQuery.Sql ShelfQuery.Schema ShelfQuery.Calendar

variable {c : Context} {scope : Scope} {pos at' : Nat}

theorem literal?_eq_some {sql : Sql} {l : Literal} (h : sql.literal? = some l) : sql = .literal l := by
  cases sql <;> simp_all [Sql.literal?]

theorem isLiteral_eq_true {sql : Sql} (h : sql.isLiteral = true) : ∃ l, sql.literal? = some l := by
  cases sql <;> simp_all [Sql.isLiteral, Sql.literal?]

theorem coerceTemporal_checks (t : Typed) {target : ValueType} (wholeDay : Bool) (htarget : target.isTemporal = true) :
    Checks (coerceTemporal c t target wholeDay) fun r => ∃ t', r = some t' ∧ Brought c target wholeDay t t' := by
  unfold coerceTemporal
  extract_lets finish
  split
  · next s hs =>
    refine (Checks.readClock c).bind fun now => ?_
    split
    · next m hm =>
      refine .pure fun hnow => ⟨_, rfl, .moment htarget ?_⟩
      rw [hs, moment?, ← hnow, hm]
      rfl
    · exact (Checks.note _).bind fun _ => .pure fun h => h.elim
  · next m hm => exact .pure ⟨_, rfl, .moment htarget (by rw [hm]; rfl)⟩
  · next d hd => exact .pure ⟨_, rfl, .moment htarget (by rw [hd]; rfl)⟩
  · next htext hdatetime hdate =>
    refine .pure ⟨_, rfl, .same fun _ => ?_⟩
    unfold namesMoment
    split
    · next s hs => exact absurd hs (htext s)
    · next d hd => exact absurd hd (hdate d)
    · next m hm => exact absurd hm (hdatetime m)
    · rfl

theorem coerceIfTemporal_checks (t : Typed) (target : ValueType) :
    Checks (coerceIfTemporal c t target) fun r => ∃ t', r = some t' ∧ Brought c target false t t' := by
  unfold coerceIfTemporal
  split
  · next h => exact coerceTemporal_checks t false h
  · next h => exact .pure ⟨_, rfl, .same fun h' => absurd h' h⟩

theorem Brought.moment_of_names {target : ValueType} {wholeDay : Bool} {t t' : Typed}
    (h : Brought c target wholeDay t t') (htarget : target.isTemporal = true) (hnames : namesMoment t.sql = true) :
    ∃ m, moment? c t.sql = some m ∧ t' = momentLiteral target wholeDay m := by
  cases h with
  | moment _ hm => exact ⟨_, hm, rfl⟩
  | same hsame => exact absurd hnames (by simp [hsame htarget])

theorem coercePair_checks (l r : Typed) :
    Checks (coercePair c l r) fun p => ∃ l' r', p = some (l', r') ∧ Paired c l r l' r' := by
  unfold coercePair
  simp only [Bool.and_eq_true]
  split
  · next h =>
    refine (coerceTemporal_checks r false h.1).bind fun a => .pure ?_
    rintro ⟨r', rfl, hr'⟩
    obtain ⟨m, hm, rfl⟩ := hr'.moment_of_names h.1 h.2
    exact ⟨l, _, rfl, .right h.1 hm⟩
  · next hr =>
    split
    · next h =>
      refine (coerceTemporal_checks l false h.1).bind fun a => .pure ?_
      rintro ⟨l', rfl, hl'⟩
      obtain ⟨m, hm, rfl⟩ := hl'.moment_of_names h.1 h.2
      exact ⟨_, r, rfl, .left hr h.1 hm⟩
    · next hl => exact .pure ⟨l, r, rfl, .same hr hl⟩

variable {arg left right : Tree} {t l r : Typed}

theorem visitConstant_checks (value : Constant) :
    Checks (visitConstant value at') fun t => Compiles c scope (.constant pos value) t := by
  cases value with
  | float x =>
    simp only [visitConstant]
    split
    · next h => exact .pure (.constant h)
    · exact .refuse _ _
  | _ => exact .pure (.constant rfl)

theorem checkNeg_checks :
    Checks (checkNeg t at') fun t' => Compiles c scope arg t → Compiles c scope (.neg pos arg) t' := by
  unfold checkNeg
  split
  · next hbroken => exact .pure fun h => absurd hbroken (by simp [h.not_broken])
  · split
    · next l hl =>
      refine .pure fun h => ?_
      cases hsql : t.sql with
      | literal l' =>
        cases hnumber : l'.number? with
        | none => simp [hsql, Sql.literal?, hnumber] at hl
        | some x =>
          simp only [hsql, Sql.literal?, Option.bind_some, hnumber, Option.map_some, Option.some.injEq] at hl
          rw [← hl]
          exact .negLiteral h hsql hnumber
      | _ => simp [hsql, Sql.literal?] at hl
    · next hnone =>
      have hnumber : ∀ l, t.sql = .literal l → l.number? = none := by
        intro l hl
        simpa [hl, Sql.literal?] using hnone
      split
      · next htype => exact .pure fun h => .neg h hnumber htype
      · next htype => exact .pure fun h => .negNull h hnumber htype
      · exact .refuse _ _

theorem checkNot_checks :
    Checks (checkNot t at') fun t' => Compiles c scope arg t → Compiles c scope (.not pos arg) t' := by
  unfold checkNot
  split
  · next hbroken => exact .pure fun h => absurd hbroken (by simp [h.not_broken])
  · split
    · exact .refuse _ _
    · next htype => exact .pure fun h => .not h (by simpa using htype)

theorem checkArith_checks (op : Arith) :
    Checks (checkArith op l r at') fun t => Compiles c scope left l → Compiles c scope right r →
      Compiles c scope (.arith pos op left right) t := by
  unfold checkArith
  split
  · next hbroken =>
    refine .pure fun hl hr => ?_
    have := hl.not_broken
    have := hr.not_broken
    rcases hbroken with h | h <;> simp_all [ValueType.isBroken]
  · split
    · exact .refuse _ _
    · next type htype =>
      split
      · next a b ha hb =>
        split
        · next v hv =>
          refine .pure fun hl hr => .arithFold hl hr htype ?_ ?_ hv
          · exact literal?_eq_some ha
          · exact literal?_eq_some hb
        · exact .refuseUnplaced _
      · next hliteral =>
        split
        · next sql hsql =>
          refine .pure fun hl hr => .arith hl hr htype (Bool.eq_false_iff.mpr fun hboth => ?_) hsql
          rw [Bool.and_eq_true] at hboth
          obtain ⟨a, ha⟩ := isLiteral_eq_true hboth.1
          obtain ⟨b, hb⟩ := isLiteral_eq_true hboth.2
          exact hliteral a b ha hb
        · exact .refuseUnplaced _

theorem checkCompare_checks (op : Comparison) :
    Checks (checkCompare c op l r at') fun t => Compiles c scope left l → Compiles c scope right r →
      Compiles c scope (.compare pos op left right) t := by
  unfold checkCompare
  split
  · next hbroken =>
    refine .pure fun hl hr => absurd hbroken ?_
    simp [hl.not_broken, hr.not_broken]
  · refine (coercePair_checks l r).bind fun p => ?_
    split
    · exact .pure nofun
    · next l' r' =>
      split
      · exact .refuse _ _
      · next hcompatible =>
        refine .pure ?_
        rintro ⟨_, _, ⟨⟩, hpair⟩ hl hr
        exact .compare hl hr hpair (by simpa using hcompatible)

theorem checkCondition_checks :
    Checks (checkCondition t at') fun b => t.type.isBroken = false → b = true ∧ t.type.isCondition := by
  unfold checkCondition
  split
  · next hbroken => exact .pure fun h => absurd hbroken (by simp [h])
  · split
    · next htype => exact .pure fun _ => ⟨rfl, htype⟩
    · exact (Checks.report _ _).bind fun _ => .pure False.elim

theorem checkItems_checks (type : ValueType) (visited : List Typed) :
    Checks (checkItems c type at' visited) fun r => ∃ brought : List Typed,
      r = some (brought.map fun b => wholeItem b.sql) ∧ visited.length = brought.length ∧
        ∀ ⦃a b⦄, (a, b) ∈ visited.zip brought → Brought c type false a b ∧ type.compatible b.type = true := by
  induction visited with
  | nil => exact .pure ⟨[], rfl, rfl, by simp⟩
  | cons item rest ih =>
    refine (coerceIfTemporal_checks item type).bind fun item' => ?_
    split
    · exact .pure nofun
    · next item' =>
      split
      · exact (Checks.report _ _).bind fun _ => .pure False.elim
      · next hcompatible =>
        refine ih.bind fun rest' => .pure ?_
        rintro ⟨brought, rfl, hlen, hrest⟩ ⟨_, ⟨⟩, hitem⟩
        refine ⟨item' :: brought, rfl, by simp [hlen], fun a b hmem => ?_⟩
        rcases List.mem_cons.mp hmem with heq | hmem
        · cases heq
          exact ⟨hitem, by simpa using hcompatible⟩
        · exact hrest hmem

theorem checkIn_checks {items : List Tree} {visited : List Typed} (negated : Bool) (firstPos : Nat) :
    Checks (checkIn c t visited negated at' firstPos) fun t' => Compiles c scope arg t → t.sql.isLiteral = false →
      items.length = visited.length → (∀ ⦃a b⦄, (a, b) ∈ items.zip visited → Compiles c scope a b) →
      Compiles c scope (.inList pos arg items negated) t' := by
  unfold checkIn
  extract_lets has
  split
  · exact .refuse _ _
  · next hkinds =>
    split
    · next hbroken =>
      refine .pure fun h _ hlen hitems => ?_
      simp only [h.not_broken, Bool.false_or, List.any_eq_true] at hbroken
      obtain ⟨b, hb, hbroken⟩ := hbroken
      obtain ⟨a, ha⟩ := exists_zip_of_mem hlen hb
      simp [(hitems ha).not_broken] at hbroken
    · refine (checkItems_checks t.type visited).bind fun r => ?_
      split
      · exact .pure nofun
      · refine .pure ?_
        rintro ⟨brought, ⟨⟩, hlen', hbrought⟩ h hliteral hlen hitems
        exact .inList h hliteral hlen hitems hlen' hbrought (Bool.eq_false_iff.mpr hkinds)

theorem checkBetween_checks {low high : Tree} {lo hi : Typed} :
    Checks (checkBetween c t lo hi at') fun t' => Compiles c scope arg t → Compiles c scope low lo →
      Compiles c scope high hi → Compiles c scope (.between pos arg low high) t' := by
  unfold checkBetween
  split
  · next hbroken =>
    refine .pure fun h hlow hhigh => absurd hbroken ?_
    simp [h.not_broken, hlow.not_broken, hhigh.not_broken]
  · extract_lets build
    have hbuild (b : Option (Typed × Typed)) : Checks (build b) fun t' =>
        (∃ lo' hi', b = some (lo', hi') ∧ Brought c t.type false lo lo' ∧
          Brought c t.type (t.type == .datetime) hi hi') →
        Compiles c scope arg t → Compiles c scope low lo → Compiles c scope high hi →
        Compiles c scope (.between pos arg low high) t' := by
      simp only [build]
      split
      · exact .pure nofun
      · split
        · exact .refuse _ _
        · next hcompatible =>
          simp only [Bool.or_eq_true, Bool.not_eq_true', not_or, Bool.not_eq_false] at hcompatible
          refine .pure ?_
          rintro ⟨_, _, ⟨⟩, hlo, hhi⟩ h hlow hhigh
          exact .between h hlow hhigh hlo hhi hcompatible.1 hcompatible.2
    split
    · next htemporal =>
      refine (coerceTemporal_checks lo false htemporal).bind fun lo' => ?_
      refine (coerceTemporal_checks hi _ htemporal).bind fun hi' => (hbuild _).imp ?_
      rintro t' hbuilt ⟨_, rfl, hhi⟩ ⟨_, rfl, hlo⟩
      exact hbuilt ⟨_, _, rfl, hlo, hhi⟩
    · next htemporal =>
      refine (hbuild _).imp fun t' hbuilt => hbuilt ⟨_, _, rfl, ?_, ?_⟩
      · exact .same fun h => absurd h htemporal
      · exact .same fun h => absurd h htemporal

theorem checkLike_checks {pattern : Tree} {p : Typed} (ignoreCase negated : Bool) :
    Checks (checkLike t p ignoreCase negated at') fun t' => Compiles c scope arg t → Compiles c scope pattern p →
      Compiles c scope (.like pos arg pattern ignoreCase negated) t' := by
  unfold checkLike
  split
  · next hbroken =>
    refine .pure fun h hp => absurd hbroken ?_
    simp [h.not_broken, hp.not_broken]
  · split
    · exact .refuse _ _
    · next htypes =>
      simp only [not_or, ne_eq, Decidable.not_not] at htypes
      refine .pure fun h hp => ?_
      cases ignoreCase with
      | false => exact .like h hp htypes.1 htypes.2
      | true => exact .ilike h hp htypes.1 htypes.2

theorem checkRange_checks (offset units : String) (offsetPos : Nat) :
    Checks (checkRange c t offset units at' offsetPos) fun t' => Compiles c scope arg t →
      Compiles c scope (.isRange pos arg offset units offsetPos) t' := by
  unfold checkRange
  split
  · next hbroken => exact .pure fun h => absurd hbroken (by simp [h.not_broken])
  · split
    · exact .refuse _ _
    · next htemporal =>
      refine (Checks.readClock c).bind fun now => ?_
      split
      · exact .refuse _ _
      · next low high hrange =>
        refine .pure fun hnow h => ?_
        rw [hnow] at hrange
        cases htype : t.type with
        | date => exact .isDateRange h htype hrange
        | datetime => exact .isDatetimeRange h htype hrange
        | _ => simp [htype, ValueType.isTemporal] at htemporal

theorem reportAll_checks (faults : List Fault) : Checks (reportAll at' faults) fun _ => faults = [] := by
  induction faults with
  | nil => exact .pure rfl
  | cons fault rest ih => exact (Checks.report _ _).bind fun _ => ih.imp fun _ _ h => h.elim

theorem noteAll_checks (faults : List Diagnostic) : Checks (noteAll faults) fun _ => faults = [] := by
  induction faults with
  | nil => exact .pure rfl
  | cons fault rest ih => exact (Checks.note _).bind fun _ => ih.imp fun _ _ h => h.elim

theorem noteAggregation_run (n : Notes) :
    (noteAggregation c scope at').run n =
      if c.options.forbidAggregation && !scope.inTotal && !n.forbiddenReported then
        ((), { n with
          aggregated := true, forbiddenReported := true,
          errors := n.errors ++ [.placed .forbiddenAggregation at'] })
      else ((), { n with aggregated := true }) := by
  change StateT.run (if c.options.forbidAggregation && !scope.inTotal && !n.forbiddenReported then _ else _) _ = _
  split <;> rfl

theorem noteAggregation_yields :
    Yields (noteAggregation c scope at') fun _ _ n' =>
      n'.aggregated = true ∧ (c.options.forbidAggregation && !scope.inTotal) = false := by
  intro n hfinal
  rw [noteAggregation_run] at hfinal ⊢
  split at hfinal
  · simp at hfinal
  · next hallowed =>
    rw [if_neg hallowed]
    exact ⟨hfinal, fun hforbidden => ⟨hforbidden, rfl, by simpa [hforbidden] using hallowed⟩⟩

theorem checkAggregate_yields (aggregate : Aggregate) :
    Yields (checkAggregate c scope aggregate t at') fun _ t' n' =>
      t.type.isBroken = false → n'.aggregated = true ∧ t' = aggregate.apply t ∧
        (c.options.forbidAggregation && !scope.inTotal) = false ∧ aggregateFaults c aggregate t.type = [] := by
  unfold checkAggregate
  extract_lets faults
  refine Yields.bind (reportAll_checks faults) fun _ => ?_
  split
  · next hbroken =>
    refine .pure ?_
    rintro n _ ⟨_, hfaults⟩ hsound
    simp [hsound, hfaults] at hbroken
  · refine noteAggregation_yields.bind fun _ => .pure ?_
    rintro n _ ⟨haggregated, hallowed⟩ _ ⟨_, hfaults⟩ _
    exact ⟨haggregated, rfl, hallowed, hfaults⟩

theorem checkSubstr_checks {args : List (Typed × Nat)} :
    Checks (checkSubstr args) fun t => (∀ p ∈ args, p.1.type.isBroken = false) →
      substrFaults args = [] ∧ t = ⟨.func "substr" (args.map fun p => p.1.sql), .str⟩ := by
  unfold checkSubstr
  split
  · next hbroken =>
    refine .pure fun hsound => ?_
    obtain ⟨p, hp, hbroken⟩ := List.any_eq_true.mp hbroken
    exact absurd hbroken (by simp [hsound p hp])
  · extract_lets faults
    refine (noteAll_checks faults).bind fun _ => ?_
    split
    · exact .pure fun hfaults _ => ⟨hfaults, rfl⟩
    · next hnonempty => exact .pure fun hfaults => absurd hfaults (by simpa using hnonempty)

theorem checkDate_checks {name : String} (hname : Function.ofName? name = some (.scalar .date)) :
    Checks (checkDate c t at') fun t' => Compiles c scope arg t → Compiles c scope (.call pos name [arg]) t' := by
  unfold checkDate
  split
  · next hbroken => exact .pure fun h => absurd hbroken (by simp [h.not_broken])
  · split
    · next s hs =>
      refine (Checks.readClock c).bind fun now => ?_
      split
      · next m hm =>
        refine .pure fun hnow h => .dateOfText hname h hs ?_
        rw [← hnow]
        exact hm
      · exact .refuseUnplaced _
    · split
      · next htype => exact .pure fun h => .dateOfDate hname h htype
      · next htype => exact .pure fun h => .dateOfDatetime hname h htype
      · exact .refuse _ _

theorem checkTrunc_checks {name : String} {unit : TruncUnit} (shown : String)
    (hname : Function.ofName? name = some (.scalar (.trunc unit))) :
    Checks (checkTrunc unit shown t at') fun t' => Compiles c scope arg t →
      Compiles c scope (.call pos name [arg]) t' := by
  unfold checkTrunc
  split
  · next hbroken => exact .pure fun h => absurd hbroken (by simp [h.not_broken])
  · split
    · exact .refuse _ _
    · next htemporal => exact .pure fun h => .trunc hname h (by simpa using htemporal)

theorem checkCoalesced_checks (type : ValueType) (args : List (Typed × Nat)) :
    Checks (checkCoalesced c type args) fun r => ∃ brought : List Typed, r = some (brought.map Typed.sql) ∧
      args.length = brought.length ∧ ∀ ⦃a b⦄, (a, b) ∈ (args.map Prod.fst).zip brought →
        Brought c type false a b ∧ type.compatible b.type = true := by
  induction args with
  | nil => exact .pure ⟨[], rfl, rfl, by simp⟩
  | cons arg rest ih =>
    refine (coerceIfTemporal_checks arg.1 type).bind fun arg' => ?_
    split
    · exact .pure nofun
    · next arg' =>
      split
      · exact (Checks.report _ _).bind fun _ => .pure False.elim
      · next hcompatible =>
        refine ih.bind fun rest' => .pure ?_
        rintro ⟨brought, rfl, hlen, hrest⟩ ⟨_, ⟨⟩, harg⟩
        refine ⟨arg' :: brought, rfl, by simp [hlen], fun a b hmem => ?_⟩
        rcases List.mem_cons.mp hmem with heq | hmem
        · cases heq
          exact ⟨harg, by simpa using hcompatible⟩
        · exact hrest hmem

theorem checkCoalesce_checks {name : String} {args : List Tree} {visited : List Typed}
    (hname : Function.ofName? name = some (.scalar .coalesce)) (hargs : args ≠ []) :
    Checks (checkCoalesce c (visited.zip (args.map Tree.pos))) fun t => args.length = visited.length →
      (∀ ⦃a b⦄, (a, b) ∈ args.zip visited → Compiles c scope a b) → Compiles c scope (.call pos name args) t := by
  have hmap (hlen : args.length = visited.length) : (visited.zip (args.map Tree.pos)).map Prod.fst = visited :=
    List.map_fst_zip (by simp [hlen])
  unfold checkCoalesce
  split
  · next hbroken =>
    refine .pure fun hlen hvisited => ?_
    obtain ⟨⟨t, p⟩, ht, hbroken⟩ := List.any_eq_true.mp hbroken
    obtain ⟨a, ha⟩ := exists_zip_of_mem hlen (List.of_mem_zip ht).1
    exact absurd hbroken (by simp [(hvisited ha).not_broken])
  · extract_lets type
    have htype (hlen : args.length = visited.length) : type = commonType visited := by
      have htypes : ((visited.zip (args.map Tree.pos)).map fun p => p.1.type) = visited.map Typed.type :=
        List.map_map.symm.trans (congrArg (List.map Typed.type) (hmap hlen))
      simp only [type, commonType, decidingType, ← htypes]
    refine (checkCoalesced_checks type _).bind fun r => ?_
    split
    · exact .pure nofun
    · refine .pure ?_
      rintro ⟨brought, ⟨⟩, hlen', hbrought⟩ hlen hvisited
      rw [hmap hlen] at hbrought
      exact .coalesce hname hargs hlen hvisited (htype hlen) (by simp at hlen'; omega) hbrought

end ShelfQuery.Expression
