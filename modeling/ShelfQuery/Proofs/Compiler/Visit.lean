import Mathlib.Data.List.Forall2
import ShelfQuery.Proofs.Compiler.Checks

set_option autoImplicit false

namespace ShelfQuery.Expression

open ShelfQuery.Sql ShelfQuery.Schema ShelfQuery.Calendar

def namesAggregate (name : String) : Bool :=
  match Function.ofName? name with
  | some (.aggregate _) => true
  | _ => false

mutual

/-- Whether a tree calls an aggregate outside of totals and of those conditions that are skipped. -/
def Tree.aggregatesOutside (skips : Tree → Bool) : Tree → Bool
  | .column _ _ => false
  | .constant _ _ => false
  | .star _ => false
  | .neg _ arg => arg.aggregatesOutside skips
  | .not _ arg => arg.aggregatesOutside skips
  | .arith _ _ left right => left.aggregatesOutside skips || right.aggregatesOutside skips
  | .compare _ _ left right => left.aggregatesOutside skips || right.aggregatesOutside skips
  | .and pos left right =>
    !skips (.and pos left right) && (left.aggregatesOutside skips || right.aggregatesOutside skips)
  | .or pos left right =>
    !skips (.or pos left right) && (left.aggregatesOutside skips || right.aggregatesOutside skips)
  | .inList _ arg items _ => arg.aggregatesOutside skips || anyAggregatesOutside skips items
  | .between _ arg low high =>
    arg.aggregatesOutside skips || low.aggregatesOutside skips || high.aggregatesOutside skips
  | .like _ arg pattern _ _ => arg.aggregatesOutside skips || pattern.aggregatesOutside skips
  | .isNull _ arg _ => arg.aggregatesOutside skips
  | .isRange _ arg _ _ _ => arg.aggregatesOutside skips
  | .call _ name args => namesAggregate name || anyAggregatesOutside skips args
  | .total _ _ => false

def anyAggregatesOutside (skips : Tree → Bool) : List Tree → Bool
  | [] => false
  | tree :: rest => tree.aggregatesOutside skips || anyAggregatesOutside skips rest

end

/-- Whether a tree calls an aggregate outside of totals. -/
def Tree.aggregates (tree : Tree) : Bool := tree.aggregatesOutside fun _ => false

def anyAggregates (trees : List Tree) : Bool := anyAggregatesOutside (fun _ => false) trees

theorem anyAggregates_cons (tree : Tree) (rest : List Tree) :
    anyAggregates (tree :: rest) = (tree.aggregates || anyAggregates rest) := rfl

section

variable {c : Context} {scope : Scope}

def Visited (c : Context) (scope : Scope) (tree : Tree) (n : Notes) (t : Typed) (n' : Notes) : Prop :=
  Compiles c scope tree t ∧ n'.aggregated = (n.aggregated || tree.aggregates)

def VisitedAll (c : Context) (scope : Scope) (trees : List Tree) (n : Notes) (ts : List Typed) (n' : Notes) : Prop :=
  trees.length = ts.length ∧ (∀ ⦃a b⦄, (a, b) ∈ trees.zip ts → Compiles c scope a b) ∧
    n'.aggregated = (n.aggregated || anyAggregates trees)

theorem VisitedAll.nil (n : Notes) : VisitedAll c scope [] n [] n := ⟨rfl, by simp, (Bool.or_false _).symm⟩

theorem VisitedAll.cons {tree : Tree} {trees : List Tree} {t : Typed} {ts : List Typed} {n n' n'' : Notes}
    (h : Visited c scope tree n t n') (hrest : VisitedAll c scope trees n' ts n'') :
    VisitedAll c scope (tree :: trees) n (t :: ts) n'' := by
  refine ⟨by simp [hrest.1], fun a b hmem => ?_, ?_⟩
  · rcases List.mem_cons.mp hmem with heq | hmem
    · cases heq
      exact h.1
    · exact hrest.2.1 hmem
  · rw [hrest.2.2, h.2, anyAggregates_cons, Bool.or_assoc]

theorem Yields.check {tree whole : Tree} {m : Walk Typed} {f : Typed → Walk Typed}
    (hm : Yields m (Visited c scope tree)) (hwhole : whole.aggregates = tree.aggregates)
    (hf : ∀ t, Checks (f t) fun t' => Compiles c scope tree t → Compiles c scope whole t') :
    Yields (m >>= f) (Visited c scope whole) := by
  refine hm.bind fun t => Yields.imp (hf t) ?_
  rintro n t' after ⟨hkeeps, hcheck⟩ before ⟨ht, hflag⟩
  exact ⟨hcheck ht, by rw [hkeeps, hflag, hwhole]⟩

theorem Yields.check₂ {left right whole : Tree} {m k : Walk Typed} {f : Typed → Typed → Walk Typed}
    (hm : Yields m (Visited c scope left)) (hk : Yields k (Visited c scope right))
    (hwhole : whole.aggregates = (left.aggregates || right.aggregates))
    (hf : ∀ l r, Checks (f l r) fun t => Compiles c scope left l → Compiles c scope right r →
      Compiles c scope whole t) :
    Yields (m >>= fun l => k >>= fun r => f l r) (Visited c scope whole) := by
  refine hm.bind fun l => hk.bind fun r => Yields.imp (hf l r) ?_
  rintro n t after ⟨hkeeps, hcheck⟩ mid ⟨hright, hflagr⟩ before ⟨hleft, hflagl⟩
  exact ⟨hcheck hleft hright, by rw [hkeeps, hflagr, hflagl, hwhole, Bool.or_assoc]⟩

theorem Yields.check₃ {first second third whole : Tree} {m k o : Walk Typed} {f : Typed → Typed → Typed → Walk Typed}
    (hm : Yields m (Visited c scope first)) (hk : Yields k (Visited c scope second))
    (ho : Yields o (Visited c scope third))
    (hwhole : whole.aggregates = (first.aggregates || second.aggregates || third.aggregates))
    (hf : ∀ x y z, Checks (f x y z) fun t => Compiles c scope first x → Compiles c scope second y →
      Compiles c scope third z → Compiles c scope whole t) :
    Yields (m >>= fun x => k >>= fun y => o >>= fun z => f x y z) (Visited c scope whole) := by
  refine hm.bind fun x => hk.bind fun y => ho.bind fun z => Yields.imp (hf x y z) ?_
  rintro n t after ⟨hkeeps, hcheck⟩ n₃ ⟨hz, hflagz⟩ n₂ ⟨hy, hflagy⟩ n₁ ⟨hx, hflagx⟩
  refine ⟨hcheck hx hy hz, ?_⟩
  rw [hkeeps, hflagz, hflagy, hflagx, hwhole, Bool.or_assoc, Bool.or_assoc, Bool.or_assoc]

theorem readsColumns_checks : Checks (modify fun n => { n with readsColumns := true }) fun _ => True :=
  fun _ hfinal => ⟨hfinal, fun hforbidden => ⟨hforbidden, rfl, trivial⟩⟩

theorem visitColumn_checks (name : String) (pos at' : Nat) :
    Checks (visitColumn c name at') fun t => Compiles c scope (.column pos name) t := by
  unfold visitColumn
  split
  · exact (Checks.report _ _).bind fun _ => .pure False.elim
  · next column hfind =>
    obtain ⟨hcolumn, husable⟩ := Option.filter_eq_some_iff.mp hfind
    refine readsColumns_checks.bind fun _ => ?_
    extract_lets type sql converter
    split
    · next unit hunit => exact .pure fun _ => .columnTrunc hcolumn husable hunit
    · next hnone => exact .pure fun _ => .column hcolumn husable hnone

theorem Checks.visited {whole : Tree} {m : Walk Typed} (hm : Checks m fun t => Compiles c scope whole t)
    (hwhole : whole.aggregates = false) : Yields m (Visited c scope whole) := by
  refine Yields.imp hm ?_
  rintro n t after ⟨hkeeps, ht⟩
  exact ⟨ht, by rw [hkeeps, hwhole, Bool.or_false]⟩

theorem Yields.get : Yields get fun n a n' => a = n ∧ n' = n :=
  fun _ hfinal => ⟨hfinal, fun hforbidden => ⟨hforbidden, rfl, rfl⟩⟩

/-- What is aggregated in a total does not count outside of it. -/
theorem total_yields {pos : Nat} {arg : Tree} (harg : Yields (visit c ⟨true, false⟩ arg) (Visited c ⟨true, false⟩ arg)) :
    Yields (visit c scope (.total pos arg)) (Visited c scope (.total pos arg)) := by
  rw [visit]
  refine Yields.get.bind fun before => harg.bind fun t => ?_
  have hrestore : Yields (modify fun n => { n with aggregated := before.aggregated }) fun _ _ n' =>
      n'.aggregated = before.aggregated := fun _ hfinal => ⟨hfinal, fun hforbidden => ⟨hforbidden, rfl⟩⟩
  refine hrestore.bind fun _ => ?_
  split
  · next hbroken =>
    refine .pure ?_
    rintro after n - inside ⟨ht, -⟩
    exact absurd hbroken (by simp [ht.not_broken])
  · refine .pure ?_
    rintro after n hrestored inside ⟨ht, -⟩ start ⟨rfl, rfl⟩
    exact ⟨.total ht, hrestored.trans (Bool.or_false _).symm⟩

def branchConditions : List Typed → List Typed
  | condition :: _ :: rest => condition :: branchConditions rest
  | _ => []

def branchWhens : List Typed → List (Sql × Typed)
  | condition :: v :: rest => (condition.sql, v) :: branchWhens rest
  | _ => []

def branchElse : List Typed → Option Typed
  | [] => none
  | [v] => some v
  | _ :: _ :: rest => branchElse rest

/-- What is known of a conditional after some more arguments have been read. -/
structure Extended (b : Branches) (visited : List Typed) (b' : Branches) : Prop where
  whens : b'.whens = b.whens ++ branchWhens visited
  otherwise : b'.otherwise = (branchElse visited).or b.otherwise
  type : b'.type = b.type.or (decidingType (branchValues visited))
  sound : b'.sound = b.sound
  conditions : ∀ t ∈ branchConditions visited, t.type = .bool
  values : ∀ v ∈ branchValues visited, v.type = .null ∨ ∃ type, b'.type = some type ∧ type.compatible v.type = true

theorem decidingType_cons (v : Typed) (ts : List Typed) :
    decidingType (v :: ts) = (decidingType [v]).or (decidingType ts) := by
  by_cases h : v.type = .null <;> simp [decidingType, h]

theorem compatible_self (type : ValueType) : type.compatible type = true := by
  simp [ValueType.compatible]

theorem checkValueType_checks (first : Option ValueType) (v : Typed) (at' : Nat) :
    Checks (checkValueType first v at') fun p => v.type.isBroken = false →
      p = (first.or (decidingType [v]), true) ∧
        (v.type = .null ∨ ∃ type, p.1 = some type ∧ type.compatible v.type = true) := by
  unfold checkValueType
  split
  · next hbroken => exact .pure fun h => absurd hbroken (by simp [h])
  · split
    · next hnull => exact .pure fun _ => ⟨by simp [decidingType, hnull], .inl hnull⟩
    · next hnull =>
      split
      · exact .pure fun _ => ⟨by simp [decidingType, hnull], .inr ⟨_, rfl, compatible_self _⟩⟩
      · next type =>
        split
        · next hcompatible => exact .pure fun _ => ⟨by simp, .inr ⟨type, rfl, hcompatible⟩⟩
        · exact (Checks.report _ _).bind fun _ => .pure False.elim

theorem Extended.cons {b b' : Branches} {condition v : Typed} {rest : List Typed} {type : Option ValueType}
    (hcondition : condition.type = .bool) (htype : type = b.type.or (decidingType [v]))
    (hv : v.type = .null ∨ ∃ τ, type = some τ ∧ τ.compatible v.type = true)
    (h : Extended { b with whens := b.whens ++ [(condition.sql, v)], type := type } rest b') :
    Extended b (condition :: v :: rest) b' where
  whens := by rw [h.whens]; simp [branchWhens]
  otherwise := h.otherwise
  type := by
    rw [h.type, htype, branchValues, decidingType_cons v (branchValues rest), Option.or_assoc]
  sound := h.sound
  conditions := by
    rintro t ht
    rcases List.mem_cons.mp ht with rfl | ht
    · exact hcondition
    · exact h.conditions t ht
  values := by
    rintro w hw
    rcases List.mem_cons.mp hw with rfl | hw
    · rcases hv with hnull | ⟨τ, hτ, hcompatible⟩
      · exact .inl hnull
      · exact .inr ⟨τ, by rw [h.type]; simp [hτ], hcompatible⟩
    · exact h.values w hw

theorem finishWhens_checks {c : Context} (type : ValueType) (whens : List (Sql × Typed)) :
    Checks (finishWhens c type whens) fun r => ∃ whens', r = some whens' ∧
      List.Forall₂ (fun w w' => w'.1 = w.1 ∧ ∃ v', Brought c type false w.2 v' ∧ w'.2 = v'.sql) whens whens' := by
  induction whens with
  | nil => exact .pure ⟨[], rfl, .nil⟩
  | cons w rest ih =>
    refine (coerceIfTemporal_checks w.2 type).bind fun v => ?_
    split
    · exact .pure nofun
    · next v' =>
      refine ih.bind fun rest' => .pure ?_
      rintro ⟨whens', rfl, hrest⟩ ⟨_, ⟨⟩, hv⟩
      exact ⟨_, rfl, .cons ⟨rfl, _, hv, rfl⟩ hrest⟩

inductive Closed (c : Context) (type : ValueType) : Option Typed → Option Sql → Prop where
  | none : Closed c type none none
  | null {v : Typed} : v.sql.isNullLiteral = true → Closed c type (some v) none
  | value {v v' : Typed} : v.sql.isNullLiteral = false → Brought c type false v v' → Closed c type (some v) (some v'.sql)

theorem branched_of_forall₂ {c : Context} {type : ValueType} : ∀ {visited : List Typed} {whens : List (Sql × Sql)}
    {otherwise : Option Sql}, (∀ t ∈ branchConditions visited, t.type = .bool) →
    (∀ v ∈ branchValues visited, Fits type v) →
    List.Forall₂ (fun w w' => w'.1 = w.1 ∧ ∃ v', Brought c type false w.2 v' ∧ w'.2 = v'.sql)
      (branchWhens visited) whens →
    Closed c type (branchElse visited) otherwise → Branched c type visited whens otherwise
  | [], _, _, _, _, .nil, .none => .done
  | [_], _, _, _, hfits, .nil, .null hnull => .otherwiseNull (hfits _ (by simp [branchValues])) hnull
  | [_], _, _, _, hfits, .nil, .value hnull hv => .otherwise (hfits _ (by simp [branchValues])) hnull hv
  | condition :: v :: rest, _, _, hconditions, hfits, .cons ⟨hcondition, v', hv, hsql⟩ hrest, helse => by
    rename_i w' whens'
    obtain ⟨condition', sql⟩ := w'
    cases hcondition
    cases hsql
    refine .when (hconditions condition (by simp [branchConditions])) (hfits v (by simp [branchValues])) hv ?_
    refine branched_of_forall₂ (fun t ht => ?_) (fun t ht => ?_) hrest helse
    · exact hconditions t (by simp [branchConditions, ht])
    · exact hfits t (by simp [branchValues, ht])

theorem Extended.fits {b : Branches} {visited : List Typed} (h : Extended {} visited b) :
    b.type.getD .null = commonType (branchValues visited) ∧
      ∀ v ∈ branchValues visited, Fits (commonType (branchValues visited)) v := by
  have htype : b.type = decidingType (branchValues visited) := by simpa using h.type
  refine ⟨by rw [htype]; rfl, fun v hv => ?_⟩
  rcases h.values v hv with hnull | ⟨τ, hτ, hcompatible⟩
  · exact .inl hnull
  · have hfound := htype.symm.trans hτ
    have hcommon : commonType (branchValues visited) = τ := by rw [commonType, hfound]; rfl
    rw [hcommon]
    exact .inr ⟨by simpa using List.find?_some hfound, hcompatible⟩

theorem finishIf_checks {c : Context} (b : Branches) (visited : List Typed) :
    Checks (finishIf c b) fun t => Extended {} visited b → ∃ whens otherwise,
      t = ⟨.case whens otherwise, commonType (branchValues visited)⟩ ∧
        Branched c (commonType (branchValues visited)) visited whens otherwise := by
  unfold finishIf
  split
  · next hunsound => exact .pure fun h => absurd hunsound (by simp [h.sound])
  · extract_lets type
    have hfinish {whens : List (Sql × Sql)} {otherwise : Option Sql} (h : Extended {} visited b)
        (hwhens : List.Forall₂ (fun w w' => w'.1 = w.1 ∧ ∃ v', Brought c type false w.2 v' ∧ w'.2 = v'.sql)
          b.whens whens) (helse : Closed c type b.otherwise otherwise) :
        Branched c (commonType (branchValues visited)) visited whens otherwise := by
      rw [show type = commonType (branchValues visited) from h.fits.1, h.whens] at hwhens
      rw [show type = commonType (branchValues visited) from h.fits.1, h.otherwise, Option.or_none] at helse
      exact branched_of_forall₂ h.conditions h.fits.2 hwhens helse
    have htyped {sql : Sql} (h : Extended {} visited b) :
        (⟨sql, type⟩ : Typed) = ⟨sql, commonType (branchValues visited)⟩ := congrArg (Typed.mk sql) h.fits.1
    refine (finishWhens_checks type b.whens).bind fun r => ?_
    split
    · exact .pure nofun
    · split
      · next whens hnone =>
        refine .pure ?_
        rintro ⟨_, ⟨⟩, hwhens⟩ h
        exact ⟨_, _, htyped h, hfinish h hwhens (hnone ▸ .none)⟩
      · next whens v hsome =>
        split
        · next hnull =>
          refine .pure ?_
          rintro ⟨_, ⟨⟩, hwhens⟩ h
          exact ⟨_, _, htyped h, hfinish h hwhens (hsome ▸ .null hnull)⟩
        · next hnull =>
          refine (coerceIfTemporal_checks v type).bind fun v' => ?_
          split
          · exact .pure nofun
          · refine .pure ?_
            rintro ⟨_, ⟨⟩, hv⟩ ⟨_, ⟨⟩, hwhens⟩ h
            exact ⟨_, _, htyped h, hfinish h hwhens (hsome ▸ .value (by simpa using hnull) hv)⟩

def VisitedBranches (c : Context) (scope : Scope) (b : Branches) (trees : List Tree) (n : Notes) (b' : Branches)
    (n' : Notes) : Prop :=
  ∃ ts, VisitedAll c scope trees n ts n' ∧ Extended b ts b'

section

variable {pos : Nat} {name : String} {args : List Tree}

theorem VisitedAll.single {arg : Tree} {ts : List Typed} {n n' : Notes} (h : VisitedAll c scope [arg] n ts n') :
    ∃ t, ts = [t] ∧ Compiles c scope arg t := by
  obtain ⟨hlen, hcompiles, -⟩ := h
  match ts, hlen with
  | [t], _ => exact ⟨t, rfl, hcompiles (by simp)⟩

theorem aggregate_yields {aggregate : Aggregate} (hname : Function.ofName? name = some (.aggregate aggregate))
    (hall : ∀ scope, Yields (visitAll c scope args) (VisitedAll c scope args)) :
    Yields (visit c scope (.call pos name args)) (Visited c scope (.call pos name args)) := by
  have hflag : (Tree.call pos name args).aggregates = true := by
    simp [Tree.aggregates, Tree.aggregatesOutside, namesAggregate, hname]
  simp only [visit, hname]
  split
  · exact .refuse _ _
  · next hlen =>
    obtain ⟨arg, rfl⟩ : ∃ arg, args = [arg] := List.length_eq_one_iff.mp (by simpa using hlen)
    split
    · exact .refuse _ _
    · next hnested =>
      split
      · next hstar =>
        split
        · exact .refuse _ _
        · next hcount =>
          refine Yields.bind readsColumns_checks fun _ => noteAggregation_yields.bind fun _ => .pure ?_
          rintro n mid ⟨hnoted, hallowed⟩ before -
          cases arg with
          | star starPos =>
            obtain rfl : aggregate = .count := by simpa using hcount
            exact ⟨.countAll hname (by simpa using hnested) hallowed, by rw [hnoted, hflag, Bool.or_true]⟩
          | _ => simp [isStar] at hstar
      · refine (hall _).bind fun visited => Yields.imp (checkAggregate_yields aggregate) ?_
        rintro n t after hchecked before hvisited
        obtain ⟨value, rfl, hvalue⟩ := hvisited.single
        obtain ⟨hnoted, rfl, hallowed, hfaults⟩ := hchecked hvalue.not_broken
        exact ⟨.aggregate hname (by simpa using hnested) hallowed hvalue hfaults, by rw [hnoted, hflag, Bool.or_true]⟩

theorem aggregates_scalar {scalar : Scalar} (hname : Function.ofName? name = some (.scalar scalar)) :
    (Tree.call pos name args).aggregates = anyAggregates args := by
  simp [Tree.aggregates, Tree.aggregatesOutside, anyAggregates, namesAggregate, hname]

theorem cond_yields (hname : Function.ofName? name = some (.scalar .if))
    (hbranches : Yields (visitBranches c scope {} args) (VisitedBranches c scope {} args)) :
    Yields (visit c scope (.call pos name args)) (Visited c scope (.call pos name args)) := by
  simp only [visit, hname]
  split
  · exact .refuse _ _
  · next hlen =>
    refine hbranches.bind fun b => ?_
    have hfinish : Yields (finishIf c b) fun n t n' => ∀ ts, n'.aggregated = n.aggregated ∧
        (Extended {} ts b → ∃ whens otherwise, t = ⟨.case whens otherwise, commonType (branchValues ts)⟩ ∧
          Branched c (commonType (branchValues ts)) ts whens otherwise) := by
      intro n hfinal
      have h (ts : List Typed) := finishIf_checks b ts n hfinal
      exact ⟨(h []).1, fun hforbidden => ⟨((h []).2 hforbidden).1, fun ts => ((h ts).2 hforbidden).2⟩⟩
    refine hfinish.imp ?_
    rintro n t after hfinished before ⟨ts, ⟨hargs, hcompiles, hflag⟩, hextended⟩
    obtain ⟨hkeeps, hbuilt⟩ := hfinished ts
    obtain ⟨whens, otherwise, rfl, hbranched⟩ := hbuilt hextended
    refine ⟨.cond hname (by omega) hargs hcompiles rfl hbranched, ?_⟩
    rw [hkeeps, hflag, aggregates_scalar hname]

theorem Yields.checkAll {whole : Tree} {m : Walk (List Typed)} {f : List Typed → Walk Typed}
    (hm : Yields m (VisitedAll c scope args)) (hwhole : whole.aggregates = anyAggregates args)
    (hf : ∀ ts, Checks (f ts) fun t => args.length = ts.length →
      (∀ ⦃a b⦄, (a, b) ∈ args.zip ts → Compiles c scope a b) → Compiles c scope whole t) :
    Yields (m >>= f) (Visited c scope whole) := by
  refine hm.bind fun ts => Yields.imp (hf ts) ?_
  rintro n t after ⟨hkeeps, hcheck⟩ before ⟨hlen, hcompiles, hflag⟩
  exact ⟨hcheck hlen hcompiles, by rw [hkeeps, hflag, hwhole]⟩

theorem coalesce_yields (hname : Function.ofName? name = some (.scalar .coalesce))
    (hall : Yields (visitAll c scope args) (VisitedAll c scope args)) :
    Yields (visit c scope (.call pos name args)) (Visited c scope (.call pos name args)) := by
  simp only [visit, hname]
  split
  · exact .refuse _ _
  · next hempty =>
    exact hall.checkAll (aggregates_scalar hname) fun ts => checkCoalesce_checks hname (by simpa using hempty)

theorem substr_yields (hname : Function.ofName? name = some (.scalar .substr))
    (hall : Yields (visitAll c scope args) (VisitedAll c scope args)) :
    Yields (visit c scope (.call pos name args)) (Visited c scope (.call pos name args)) := by
  simp only [visit, hname]
  by_cases harity : args.length < Scalar.substr.arity.1 ∨ Scalar.substr.arity.2 < args.length
  · rw [if_pos harity]
    exact .refuse _ _
  · rw [if_neg harity]
    simp only [Scalar.arity, not_or, Nat.not_lt] at harity
    refine hall.checkAll (aggregates_scalar hname) fun ts => checkSubstr_checks.imp ?_
    intro t hchecked hlen hcompiles
    obtain ⟨hfaults, rfl⟩ := hchecked fun p hp => by
      obtain ⟨a, ha⟩ := exists_zip_of_mem hlen (List.of_mem_zip hp).1
      exact (hcompiles ha).not_broken
    have hmap : (ts.zip (args.map Tree.pos)).map Prod.fst = ts := List.map_fst_zip (by simp [hlen])
    have hsql : ((ts.zip (args.map Tree.pos)).map fun p => p.1.sql) = ts.map Typed.sql :=
      List.map_map.symm.trans (congrArg (List.map Typed.sql) hmap)
    rw [hsql]
    exact .substr hname harity.1 harity.2 hlen hcompiles hfaults

theorem Yields.checkFirst {arg whole : Tree} {m : Walk (List Typed)} {f : Typed → Walk Typed}
    (hm : Yields m (VisitedAll c scope [arg])) (hwhole : whole.aggregates = anyAggregates [arg])
    (hf : ∀ t, Checks (f t) fun t' => Compiles c scope arg t → Compiles c scope whole t') :
    Yields (m >>= fun ts => f (ts.headD .broken)) (Visited c scope whole) := by
  refine hm.checkAll hwhole fun ts => (hf _).imp fun t' hchecked hlen hcompiles => ?_
  match ts, hlen with
  | [t], _ => exact hchecked (hcompiles (by simp))

theorem cast_checks {t built : Typed} {arg whole : Tree} (hbuilt : Compiles c scope arg t → Compiles c scope whole built) :
    Checks (if t.type.isBroken then return .broken else return built) fun t' =>
      Compiles c scope arg t → Compiles c scope whole t' := by
  split
  · next hbroken => exact .pure fun h => absurd hbroken (by simp [h.not_broken])
  · exact .pure hbuilt

theorem unary_yields {scalar : Scalar} (hname : Function.ofName? name = some (.scalar scalar))
    (hunary : scalar ∉ [.if, .coalesce, .substr])
    (hall : Yields (visitAll c scope args) (VisitedAll c scope args)) :
    Yields (visit c scope (.call pos name args)) (Visited c scope (.call pos name args)) := by
  have harity : scalar.arity = (1, 1) := by cases scalar <;> simp_all [Scalar.arity]
  by_cases hargs : args.length < 1 ∨ 1 < args.length
  · cases scalar with
    | «if» | coalesce | substr => simp at hunary
    | _ =>
      simp only [visit, hname, harity]
      rw [if_pos hargs]
      exact .refuse _ _
  · obtain ⟨arg, rfl⟩ : ∃ arg, args = [arg] := List.length_eq_one_iff.mp (by omega)
    have hwhole : (Tree.call pos name [arg]).aggregates = anyAggregates [arg] := aggregates_scalar hname
    cases scalar with
    | «if» | coalesce | substr => simp at hunary
    | string =>
      simp only [visit, hname, harity]
      rw [if_neg hargs]
      exact hall.checkFirst hwhole fun t => cast_checks fun ht => .string hname ht
    | int =>
      simp only [visit, hname, harity]
      rw [if_neg hargs]
      exact hall.checkFirst hwhole fun t => cast_checks fun ht => .int hname ht
    | date =>
      simp only [visit, hname, harity]
      rw [if_neg hargs]
      exact hall.checkFirst hwhole fun t => checkDate_checks hname
    | trunc unit =>
      simp only [visit, hname, harity]
      rw [if_neg hargs]
      exact hall.checkFirst hwhole fun t => checkTrunc_checks _ hname

theorem call_yields (hall : ∀ scope, Yields (visitAll c scope args) (VisitedAll c scope args))
    (hbranches : Yields (visitBranches c scope {} args) (VisitedBranches c scope {} args)) :
    Yields (visit c scope (.call pos name args)) (Visited c scope (.call pos name args)) := by
  cases hname : Function.ofName? name with
  | none =>
    simp only [visit, hname]
    exact .refuse _ _
  | some function =>
    cases function with
    | aggregate aggregate => exact aggregate_yields hname hall
    | scalar scalar =>
      cases scalar with
      | «if» => exact cond_yields hname hbranches
      | coalesce => exact coalesce_yields hname (hall scope)
      | substr => exact substr_yields hname (hall scope)
      | _ => exact unary_yields hname (by simp) (hall scope)

end

/-- AND and OR check their operands as they go. -/
theorem conditions_yields {left right whole : Tree} {m k : Walk Typed} {join : Typed → Typed → Typed}
    (hm : Yields m (Visited c scope left)) (hk : Yields k (Visited c scope right))
    (hwhole : whole.aggregates = (left.aggregates || right.aggregates))
    (hjoin : ∀ l r, Compiles c scope left l → Compiles c scope right r → l.type.isCondition → r.type.isCondition →
      Compiles c scope whole (join l r)) (lpos rpos : Nat) :
    Yields (do
      let l ← m
      let lSound ← checkCondition l lpos
      let r ← k
      let rSound ← checkCondition r rpos
      if lSound && rSound then return join l r else return .broken) (Visited c scope whole) := by
  refine hm.bind fun l => Yields.bind checkCondition_checks fun lSound => ?_
  refine hk.bind fun r => Yields.bind checkCondition_checks fun rSound => ?_
  split
  · refine .pure ?_
    rintro n n₄ ⟨hkeepsr, hcheckr⟩ n₃ ⟨hr, hflagr⟩ n₂ ⟨hkeepsl, hcheckl⟩ n₁ ⟨hl, hflagl⟩
    refine ⟨hjoin l r hl hr (hcheckl hl.not_broken).2 (hcheckr hr.not_broken).2, ?_⟩
    rw [hkeepsr, hflagr, hkeepsl, hflagl, hwhole, Bool.or_assoc]
  · next hunsound =>
    refine .pure ?_
    rintro n n₄ ⟨-, hcheckr⟩ n₃ ⟨hr, -⟩ n₂ ⟨-, hcheckl⟩ n₁ ⟨hl, -⟩
    exact absurd hunsound (by simp [(hcheckl hl.not_broken).1, (hcheckr hr.not_broken).1])

theorem branch_yields {condition value : Tree} {rest : List Tree} {b : Branches}
    (hcondition : Yields (visit c scope condition) (Visited c scope condition))
    (hvalue : Yields (visit c scope value) (Visited c scope value))
    (hrest : ∀ b, Yields (visitBranches c scope b rest) (VisitedBranches c scope b rest)) :
    Yields (visitBranches c scope b (condition :: value :: rest)) (VisitedBranches c scope b (condition :: value :: rest)) := by
  rw [visitBranches]
  refine hcondition.bind fun t => ?_
  extract_lets read
  have hread (s : Bool) : Yields (read s) fun n b' n' => s = true → t.type = .bool → ∀ before,
      Visited c scope condition before t n →
      VisitedBranches c scope b (condition :: value :: rest) before b' n' := by
    refine hvalue.bind fun v => Yields.bind (checkValueType_checks b.type v value.pos) ?_
    rintro ⟨type, valueSound⟩
    refine (hrest _).imp ?_
    rintro n₂ b' after ⟨ts, hall, hextended⟩ n₁ ⟨hkeeps, hchecked⟩ n hv rfl hbool before ht
    obtain ⟨htype, hfits⟩ := hchecked hv.1.not_broken
    obtain ⟨rfl, rfl⟩ := Prod.mk.inj htype
    simp only [Bool.and_true] at hextended
    have hv' : Visited c scope value n v n₂ := ⟨hv.1, by rw [hkeeps, hv.2]⟩
    exact ⟨t :: v :: ts, .cons ht (.cons hv' hall), hextended.cons hbool rfl hfits⟩
  split
  · next hbroken =>
    refine (hread false).imp ?_
    rintro n b' after - before ht
    exact absurd hbroken (by simp [ht.1.not_broken])
  · split
    · exact Yields.bind (Checks.report _ _) fun _ => (hread false).imp fun _ _ _ _ _ h => h.2.elim
    · next hbool =>
      refine (hread true).imp ?_
      rintro n b' after hbranches before ht
      exact hbranches rfl (by simpa using hbool) before ht

theorem last_yields {value : Tree} {b : Branches} (hvalue : Yields (visit c scope value) (Visited c scope value)) :
    Yields (visitBranches c scope b [value]) (VisitedBranches c scope b [value]) := by
  rw [visitBranches]
  refine hvalue.bind fun v => Yields.bind (checkValueType_checks b.type v value.pos) ?_
  rintro ⟨type, sound⟩
  refine .pure ?_
  rintro n n₁ ⟨hkeeps, hchecked⟩ before hv
  obtain ⟨htype, hfits⟩ := hchecked hv.1.not_broken
  obtain ⟨rfl, rfl⟩ := Prod.mk.inj htype
  refine ⟨[v], .cons ⟨hv.1, by rw [hkeeps, hv.2]⟩ (.nil n), ?_⟩
  exact {
    whens := by simp [branchWhens]
    otherwise := by simp [branchElse]
    type := rfl
    sound := by simp
    conditions := by simp [branchConditions]
    values := by simpa [branchValues] using hfits }

/-- A list is looked at only after what is sought in it is known not to be a constant. -/
theorem inList_yields {pos : Nat} {arg : Tree} {items : List Tree} {negated : Bool}
    (harg : Yields (visit c scope arg) (Visited c scope arg))
    (hitems : Yields (visitAll c scope items) (VisitedAll c scope items)) :
    Yields (visit c scope (.inList pos arg items negated)) (Visited c scope (.inList pos arg items negated)) := by
  rw [visit]
  refine harg.bind fun t => ?_
  split
  · exact .refuse _ _
  · next hliteral =>
    refine hitems.bind fun visited => Yields.imp (@checkIn_checks c scope pos arg.pos arg t items visited negated _) ?_
    rintro n t' after ⟨hkeeps, hcheck⟩ mid ⟨hlen, hvisited, hflags⟩ before ⟨ht, hflag⟩
    refine ⟨hcheck ht ?_ hlen hvisited, by rw [hkeeps, hflags, hflag, Bool.or_assoc]; rfl⟩
    simpa [ht.not_broken, Typed.isLiteral] using hliteral

end

mutual

theorem visit_yields (c : Context) (scope : Scope) : ∀ tree, Yields (visit c scope tree) (Visited c scope tree)
  | .column pos name => by
    rw [visit]
    exact (visitColumn_checks name pos pos).visited rfl
  | .constant pos value => by
    rw [visit]
    exact (visitConstant_checks value).visited rfl
  | .star pos => by
    rw [visit]
    exact .refuse _ _
  | .neg pos arg => by
    rw [visit]
    exact (visit_yields c scope arg).check rfl fun t => checkNeg_checks
  | .not pos arg => by
    rw [visit]
    exact (visit_yields c scope arg).check rfl fun t => checkNot_checks
  | .arith pos op left right => by
    rw [visit]
    exact (visit_yields c scope left).check₂ (visit_yields c scope right) rfl fun l r => checkArith_checks op
  | .compare pos op left right => by
    rw [visit]
    exact (visit_yields c scope left).check₂ (visit_yields c scope right) rfl fun l r => checkCompare_checks op
  | .and pos left right => by
    rw [visit]
    exact conditions_yields (visit_yields c scope left) (visit_yields c scope right) rfl
      (fun l r hl hr htl htr => .and hl hr htl htr) left.pos right.pos
  | .or pos left right => by
    rw [visit]
    exact conditions_yields (visit_yields c scope left) (visit_yields c scope right) rfl
      (fun l r hl hr htl htr => .or hl hr htl htr) left.pos right.pos
  | .inList pos arg items negated => inList_yields (visit_yields c scope arg) (visitAll_yields c scope items)
  | .between pos arg low high => by
    rw [visit]
    exact (visit_yields c scope arg).check₃ (visit_yields c scope low) (visit_yields c scope high) rfl
      fun t lo hi => checkBetween_checks
  | .like pos arg pattern ignoreCase negated => by
    rw [visit]
    exact (visit_yields c scope arg).check₂ (visit_yields c scope pattern) rfl
      fun t p => checkLike_checks ignoreCase negated
  | .isNull pos arg negated => by
    rw [visit]
    exact (visit_yields c scope arg).check rfl fun t => cast_checks fun ht => .isNull ht
  | .isRange pos arg offset units offsetPos => by
    rw [visit]
    exact (visit_yields c scope arg).check rfl fun t => checkRange_checks offset units offsetPos
  | .call pos name args =>
    call_yields (fun scope => visitAll_yields c scope args) (visitBranches_yields c scope {} args)
  | .total pos arg => total_yields (visit_yields c ⟨true, false⟩ arg)

theorem visitAll_yields (c : Context) (scope : Scope) : ∀ trees, Yields (visitAll c scope trees) (VisitedAll c scope trees)
  | [] => by
    rw [visitAll]
    exact .pure fun n => .nil n
  | tree :: rest => by
    rw [visitAll]
    refine (visit_yields c scope tree).bind fun t => (visitAll_yields c scope rest).bind fun ts => .pure ?_
    rintro n n₁ hrest before htree
    exact .cons htree hrest

theorem visitBranches_yields (c : Context) (scope : Scope) (b : Branches) :
    ∀ trees, Yields (visitBranches c scope b trees) (VisitedBranches c scope b trees)
  | [] => by
    rw [visitBranches]
    refine .pure fun n => ⟨[], .nil n, ?_⟩
    exact {
      whens := by simp [branchWhens]
      otherwise := by simp [branchElse]
      type := by simp [branchValues, decidingType]
      sound := rfl
      conditions := by simp [branchConditions]
      values := by simp [branchValues] }
  | [value] => last_yields (visit_yields c scope value)
  | condition :: value :: rest =>
    branch_yields (visit_yields c scope condition) (visit_yields c scope value)
      fun b => visitBranches_yields c scope b rest

end

/-- A tree that compiles does so by the rules, and the flag of the result tells whether it aggregates. -/
theorem compiles_of_compile {c : Context} {tree : Tree} {compiled : Compiled} (h : tree.compile c = .ok compiled) :
    Compiles c {} tree ⟨compiled.sql, compiled.type⟩ ∧ compiled.aggregated = tree.aggregates := by
  simp only [Tree.compile] at h
  split at h
  next t notes hrun =>
  split at h
  · next herrors =>
    have hyields := visit_yields c {} tree {}
    rw [hrun] at hyields
    obtain ⟨-, hvisited⟩ := hyields (by simpa using herrors)
    obtain ⟨-, hcompiles, hflag⟩ := hvisited rfl
    cases h
    exact ⟨hcompiles, by simpa using hflag⟩
  · exact nomatch h

end ShelfQuery.Expression
