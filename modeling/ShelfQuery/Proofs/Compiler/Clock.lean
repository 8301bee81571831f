import ShelfQuery.Expression.Field
import ShelfQuery.Proofs.Compiler.Steps

set_option autoImplicit false

namespace ShelfQuery.Expression

open ShelfQuery.Sql ShelfQuery.Schema ShelfQuery.Calendar

/-- The note of a reading of the clock is never taken back, and a run of `m` that ends without it is
a run of `m'`. -/
def Agrees {α : Type} (m m' : Walk α) : Prop :=
  ∀ n, (m.run n).2.readsClock = false → n.readsClock = false ∧ m'.run n = m.run n

def Context.at (c : Context) (now : DateTime) : Context := { c with now }

namespace Agrees

variable {α β : Type} {m m' : Walk α} {f f' : α → Walk β}

theorem bind (hm : Agrees m m') (hf : ∀ a, Agrees (f a) (f' a)) : Agrees (m >>= f) (m' >>= f') := by
  intro n hfinal
  obtain ⟨hmid, hlast⟩ := hf (m.run n).1 (m.run n).2 hfinal
  obtain ⟨hfirst, hstep⟩ := hm n hmid
  refine ⟨hfirst, ?_⟩
  calc (m' >>= f').run n = (f' (m'.run n).1).run (m'.run n).2 := rfl
    _ = (f' (m.run n).1).run (m.run n).2 := by rw [hstep]
    _ = (m >>= f).run n := hlast

theorem pure (a : α) : Agrees (pure a) (pure a) := fun _ hfinal => ⟨hfinal, rfl⟩

theorem modify {g : Notes → Notes} (hg : ∀ n, (g n).readsClock = n.readsClock) :
    Agrees (modify g : Walk Unit) (modify g) := fun n hfinal => ⟨(hg n).symm.trans hfinal, rfl⟩

theorem get : Agrees (get : Walk Notes) get := fun _ hfinal => ⟨hfinal, rfl⟩

theorem readClock (c c' : Context) : Agrees (readClock c) (readClock c') := fun _ hfinal => nomatch hfinal

theorem note (d : Diagnostic) : Agrees (note d) (note d) := modify fun _ => rfl

theorem report (fault : Fault) (pos : Nat) : Agrees (report fault pos) (report fault pos) := note _

theorem refuse (fault : Fault) (pos : Nat) : Agrees (refuse fault pos) (refuse fault pos) :=
  (report fault pos).bind fun _ => pure _

end Agrees

theorem noteAggregation_agrees (c : Context) (scope : Scope) (pos : Nat) :
    Agrees (noteAggregation c scope pos) (noteAggregation c scope pos) := by
  unfold noteAggregation
  refine Agrees.bind (.modify fun _ => rfl) fun _ => Agrees.get.bind fun n => ?_
  split
  · exact Agrees.bind (.modify fun _ => rfl) fun _ => .report _ _
  · exact .pure _

theorem Agrees.of_steps {α : Type} {m m' : Walk α} (h : Steps (fun _ => True) m m') : Agrees m m' := by
  induction h with
  | pure a => exact .pure a
  | bind _ _ ihm ihf => exact ihm.bind ihf
  | readClock c c' => exact .readClock c c'
  | note => exact .note _
  | noteAggregation c scope => exact noteAggregation_agrees c scope _

theorem visitColumn_agrees (c : Context) (name : String) (pos : Nat) :
    Agrees (visitColumn c name pos) (visitColumn c name pos) := by
  unfold visitColumn
  split
  · exact (Agrees.report _ _).bind fun _ => .pure _
  · refine Agrees.bind (.modify fun _ => rfl) fun _ => ?_
    extract_lets type sql converter
    split
    · exact .pure _
    · exact .pure _

section

variable {c : Context} {now : DateTime}

theorem conditions_agree {m m' k k' : Walk Typed} (hm : Agrees m m') (hk : Agrees k k') (lpos rpos : Nat)
    (join : Typed → Typed → Typed) :
    Agrees
      (do
        let l ← m
        let lSound ← checkCondition l lpos
        let r ← k
        let rSound ← checkCondition r rpos
        if lSound && rSound then return join l r else return .broken)
      (do
        let l ← m'
        let lSound ← checkCondition l lpos
        let r ← k'
        let rSound ← checkCondition r rpos
        if lSound && rSound then return join l r else return .broken) := by
  refine hm.bind fun l => (Agrees.of_steps (checkCondition_steps trivial)).bind fun lSound => ?_
  refine hk.bind fun r => (Agrees.of_steps (checkCondition_steps trivial)).bind fun rSound => ?_
  split
  · exact .pure _
  · exact .pure _

theorem aggregate_agrees {args : List Tree} (scope : Scope) (aggregate : Aggregate) (pos : Nat) {name : String}
    (hname : Function.ofName? name = some (.aggregate aggregate))
    (hall : ∀ scope, Agrees (visitAll c scope args) (visitAll (c.at now) scope args)) :
    Agrees (visit c scope (.call pos name args)) (visit (c.at now) scope (.call pos name args)) := by
  simp only [visit, hname]
  split
  · exact .refuse _ _
  · split
    · exact .refuse _ _
    · split
      · split
        · exact .refuse _ _
        · refine Agrees.bind (.modify fun _ => rfl) fun _ => ?_
          exact (noteAggregation_agrees c scope pos).bind fun _ => .pure _
      · exact (hall _).bind fun visited => .of_steps (checkAggregate_steps scope aggregate trivial)

theorem scalar_agrees {args : List Tree} (scope : Scope) (scalar : Scalar) (pos : Nat) {name : String}
    (hname : Function.ofName? name = some (.scalar scalar))
    (hall : Agrees (visitAll c scope args) (visitAll (c.at now) scope args))
    (hbranches : Agrees (visitBranches c scope {} args) (visitBranches (c.at now) scope {} args)) :
    Agrees (visit c scope (.call pos name args)) (visit (c.at now) scope (.call pos name args)) := by
  cases scalar with
  | «if» =>
    simp only [visit, hname]
    split
    · exact .refuse _ _
    · exact hbranches.bind fun b => .of_steps (finishIf_steps b)
  | coalesce =>
    simp only [visit, hname]
    split
    · exact .refuse _ _
    · exact hall.bind fun visited => .of_steps (checkCoalesce_steps fun _ _ => trivial)
  | substr =>
    simp only [visit, hname]
    split
    · exact .refuse _ _
    · exact hall.bind fun visited => .of_steps (checkSubstr_steps fun _ _ => trivial)
  | string | int =>
    simp only [visit, hname]
    split
    · exact .refuse _ _
    · exact hall.bind fun visited => .of_steps (sound_steps _)
  | date =>
    simp only [visit, hname]
    split
    · exact .refuse _ _
    · exact hall.bind fun visited => .of_steps (checkDate_steps trivial)
  | trunc unit =>
    simp only [visit, hname]
    split
    · exact .refuse _ _
    · exact hall.bind fun visited => .of_steps (checkTrunc_steps unit _ trivial)

theorem branch_agrees {condition value : Tree} {rest : List Tree} {scope : Scope} (b : Branches)
    (hcondition : Agrees (visit c scope condition) (visit (c.at now) scope condition))
    (hvalue : Agrees (visit c scope value) (visit (c.at now) scope value))
    (hrest : ∀ b, Agrees (visitBranches c scope b rest) (visitBranches (c.at now) scope b rest)) :
    Agrees (visitBranches c scope b (condition :: value :: rest))
      (visitBranches (c.at now) scope b (condition :: value :: rest)) := by
  rw [visitBranches, visitBranches]
  refine hcondition.bind fun t => ?_
  extract_lets read read'
  have hread (sound : Bool) : Agrees (read sound) (read' sound) :=
    hvalue.bind fun v => (Agrees.of_steps (checkValueType_steps b.type trivial)).bind fun _ => hrest _
  split
  · exact (Agrees.pure _).bind hread
  · split
    · exact (Agrees.report _ _).bind fun _ => (Agrees.pure _).bind hread
    · exact (Agrees.pure _).bind hread

end

mutual

/-- A tree is walked in the same way at any other time, unless the clock is read. -/
theorem visit_agrees (c : Context) (now : DateTime) (scope : Scope) :
    ∀ tree, Agrees (visit c scope tree) (visit (c.at now) scope tree)
  | .column pos name => by
    rw [visit, visit]
    exact visitColumn_agrees c name pos
  | .constant pos value => by
    rw [visit, visit]
    exact .of_steps (visitConstant_steps value trivial)
  | .star pos => by
    rw [visit, visit]
    exact .refuse _ _
  | .neg _ arg => by
    rw [visit, visit]
    exact (visit_agrees c now scope arg).bind fun t => .of_steps (checkNeg_steps trivial)
  | .not pos arg => by
    rw [visit, visit]
    exact (visit_agrees c now scope arg).bind fun t => .of_steps (checkNot_steps trivial)
  | .arith _ op left right => by
    rw [visit, visit]
    exact (visit_agrees c now scope left).bind fun l => (visit_agrees c now scope right).bind fun r =>
      .of_steps (checkArith_steps op l r trivial)
  | .compare _ op left right => by
    rw [visit, visit]
    exact (visit_agrees c now scope left).bind fun l => (visit_agrees c now scope right).bind fun r =>
      .of_steps (checkCompare_steps op l r trivial)
  | .and _ left right => by
    rw [visit, visit]
    exact conditions_agree (visit_agrees c now scope left) (visit_agrees c now scope right) _ _ _
  | .or _ left right => by
    rw [visit, visit]
    exact conditions_agree (visit_agrees c now scope left) (visit_agrees c now scope right) _ _ _
  | .inList _ arg items negated => by
    rw [visit, visit]
    refine (visit_agrees c now scope arg).bind fun t => ?_
    split
    · exact .refuse _ _
    · exact (visitAll_agrees c now scope items).bind fun visited => .of_steps (checkIn_steps visited negated trivial trivial)
  | .between _ arg low high => by
    rw [visit, visit]
    exact (visit_agrees c now scope arg).bind fun t => (visit_agrees c now scope low).bind fun l =>
      (visit_agrees c now scope high).bind fun h => .of_steps (checkBetween_steps l h trivial)
  | .like _ arg pattern ignoreCase negated => by
    rw [visit, visit]
    exact (visit_agrees c now scope arg).bind fun t => (visit_agrees c now scope pattern).bind fun p =>
      .of_steps (checkLike_steps p ignoreCase negated trivial)
  | .isNull _ arg negated => by
    rw [visit, visit]
    exact (visit_agrees c now scope arg).bind fun t => .of_steps (sound_steps _)
  | .isRange _ arg offset units offsetPos => by
    rw [visit, visit]
    exact (visit_agrees c now scope arg).bind fun t => .of_steps (checkRange_steps offset units trivial trivial)
  | .call pos name args => by
    cases hname : Function.ofName? name with
    | none =>
      simp only [visit, hname]
      exact .refuse _ _
    | some function =>
      cases function with
      | aggregate aggregate =>
        exact aggregate_agrees scope aggregate pos hname fun scope => visitAll_agrees c now scope args
      | scalar scalar =>
        exact scalar_agrees scope scalar pos hname (visitAll_agrees c now scope args)
          (visitBranches_agrees c now scope {} args)
  | .total _ arg => by
    rw [visit, visit]
    refine Agrees.get.bind fun before => (visit_agrees c now ⟨true, false⟩ arg).bind fun t => ?_
    exact Agrees.bind (.modify fun _ => rfl) fun _ => .of_steps (sound_steps _)

theorem visitAll_agrees (c : Context) (now : DateTime) (scope : Scope) :
    ∀ trees, Agrees (visitAll c scope trees) (visitAll (c.at now) scope trees)
  | [] => by
    rw [visitAll, visitAll]
    exact .pure _
  | tree :: rest => by
    rw [visitAll, visitAll]
    exact (visit_agrees c now scope tree).bind fun t => (visitAll_agrees c now scope rest).bind fun ts => .pure _

theorem visitBranches_agrees (c : Context) (now : DateTime) (scope : Scope) (b : Branches) :
    ∀ trees, Agrees (visitBranches c scope b trees) (visitBranches (c.at now) scope b trees)
  | [] => by
    rw [visitBranches, visitBranches]
    exact .pure _
  | [value] => by
    rw [visitBranches, visitBranches]
    exact (visit_agrees c now scope value).bind fun v =>
      (Agrees.of_steps (checkValueType_steps b.type trivial)).bind fun _ => .pure _
  | condition :: value :: rest =>
    branch_agrees b (visit_agrees c now scope condition) (visit_agrees c now scope value) fun b =>
      visitBranches_agrees c now scope b rest

end

theorem compile_at_of_not_readsClock {c : Context} {tree : Tree} {compiled : Compiled}
    (h : tree.compile c = .ok compiled) (hclock : compiled.readsClock = false) (now : DateTime) :
    tree.compile (c.at now) = .ok compiled := by
  have hagrees := visit_agrees c now {} tree {}
  unfold Tree.compile at h ⊢
  split at h
  next t notes hrun =>
  split at h
  · next herrors =>
    cases h
    rw [hrun] at hagrees
    rw [(hagrees hclock).2]
    dsimp only
    rw [if_pos herrors]
  · exact nomatch h

theorem readField_at_of_not_readsClock {c : Context} {text : String} {reading : FieldReading}
    (h : readField c text = .ok reading) (hclock : reading.readsClock = false) (now : DateTime) :
    readField (c.at now) text = .ok reading := by
  unfold readField at h ⊢
  split at h
  · exact nomatch h
  · next tree hparse =>
    split at h
    · exact nomatch h
    · next compiled hcompile =>
      split at h
      · next hcolumns =>
        cases h
        rw [compile_at_of_not_readsClock hcompile hclock now]
        dsimp only
        rw [if_pos hcolumns]
        rfl
      · exact nomatch h

def Clock.shown (fixed : Option DateTime) (reading : DateTime) : Clock :=
  match fixed with
  | some now => .fixed now
  | none => .running reading

structure FieldCall where
  text : String
  options : Options
  reading : DateTime

namespace FieldCache

variable (schema : Table) (dialect : Dialect) (fixed : Option DateTime)

/-- The answer to a call, without the number of the field, and the cache after it. -/
def answer (cache : FieldCache) (call : FieldCall) : Except FieldError Field × FieldCache :=
  let read := cache.read schema dialect (.shown fixed call.reading) call.text call.options
  (read.1.map Prod.snd, read.2)

def answers : FieldCache → List FieldCall → List (Except FieldError Field)
  | _, [] => []
  | cache, call :: rest =>
    (cache.answer schema dialect fixed call).1 :: answers (cache.answer schema dialect fixed call).2 rest

/-- The answer at the time of a call to someone who keeps nothing. -/
def freshAnswer (text : String) (options : Options) (reading : DateTime) : Except FieldError Field :=
  (readField ⟨schema, dialect, options, (Clock.shown fixed reading).now⟩ text).map FieldReading.field

def Timeless (cache : FieldCache) : Prop :=
  ∀ entry ∈ cache.entries, ∀ reading, freshAnswer schema dialect fixed entry.1.1 entry.1.2 reading = .ok entry.2.2

variable {schema dialect fixed}

theorem Timeless.find? {cache : FieldCache} (h : cache.Timeless schema dialect fixed) {text : String}
    {options : Options} {found : Nat × Field} (hfind : cache.find? text options = some found) (reading : DateTime) :
    freshAnswer schema dialect fixed text options reading = .ok found.2 := by
  obtain ⟨entry, hentry, rfl⟩ := Option.map_eq_some_iff.mp hfind
  have hkey := List.find?_some hentry
  simp only [Bool.and_eq_true, beq_iff_eq, decide_eq_true_eq] at hkey
  rw [← hkey.1, ← hkey.2]
  exact h entry (List.mem_of_find?_eq_some hentry) reading

theorem freshAnswer_of_kept {text : String} {options : Options} {reading : DateTime} {r : FieldReading}
    (h : readField ⟨schema, dialect, options, (Clock.shown fixed reading).now⟩ text = .ok r)
    (hkept : ((Clock.shown fixed reading).isFixed || !r.readsClock) = true) (later : DateTime) :
    freshAnswer schema dialect fixed text options later = .ok r.field := by
  have hread : readField ⟨schema, dialect, options, (Clock.shown fixed later).now⟩ text = .ok r := by
    cases fixed with
    | some now => exact h
    | none =>
      have hclock : r.readsClock = false := by simpa [Clock.shown, Clock.isFixed] using hkept
      exact readField_at_of_not_readsClock h hclock later
  rw [freshAnswer, hread]
  rfl

theorem Timeless.answer {cache : FieldCache} (h : cache.Timeless schema dialect fixed) (call : FieldCall) :
    (cache.answer schema dialect fixed call).1 =
        freshAnswer schema dialect fixed call.text call.options call.reading ∧
      (cache.answer schema dialect fixed call).2.Timeless schema dialect fixed := by
  unfold FieldCache.answer FieldCache.read
  split
  · next found hfind => exact ⟨(h.find? hfind call.reading).symm, h⟩
  · split
    · next e herror =>
      refine ⟨?_, h⟩
      rw [freshAnswer, herror]
      rfl
    · next r hr =>
      refine ⟨?_, ?_⟩
      · rw [freshAnswer, hr]
        rfl
      · intro entry hentry later
        dsimp only at hentry
        split at hentry
        · next hkept =>
          rcases List.mem_cons.mp hentry with rfl | hentry
          · exact freshAnswer_of_kept hr hkept later
          · exact h entry hentry later
        · exact h entry hentry later

theorem Timeless.answers {cache : FieldCache} (h : cache.Timeless schema dialect fixed) (calls : List FieldCall) :
    cache.answers schema dialect fixed calls =
      calls.map fun call => freshAnswer schema dialect fixed call.text call.options call.reading := by
  induction calls generalizing cache with
  | nil => rfl
  | cons call rest ih =>
    obtain ⟨hanswer, hafter⟩ := h.answer call
    rw [List.map_cons, ← hanswer, ← ih hafter]
    rfl

variable (schema dialect fixed)

theorem timeless_empty : ({} : FieldCache).Timeless schema dialect fixed := fun _ hentry => nomatch hentry

/-- Calls that are made in turn on one cache are each answered as if the cache were empty, whatever
the clock shows at each. This rests on the walk: what compiles without reading the clock compiles
to the same at every other time. -/
theorem answers_eq_fresh (calls : List FieldCall) :
    ({} : FieldCache).answers schema dialect fixed calls =
        (calls.map fun call => (({} : FieldCache).answer schema dialect fixed call).1) ∧
      ∀ (c : Context) (tree : Tree) (compiled : Compiled) (now : DateTime),
        tree.compile c = .ok compiled → compiled.readsClock = false → tree.compile (c.at now) = .ok compiled := by
  refine ⟨?_, fun c tree compiled now h hclock => compile_at_of_not_readsClock h hclock now⟩
  have hempty := timeless_empty schema dialect fixed
  rw [hempty.answers calls]
  exact List.map_congr_left fun call _ => (hempty.answer call).1.symm

/-- One text follows the running clock and the other is kept. -/
theorem answers_at_two_readings :
    let schema : Table := ⟨"scores", [⟨"score", .num⟩, ⟨"day", .date⟩]⟩
    let first : DateTime := .startOfDay ⟨2024, 1, 31, by decide⟩
    let later : DateTime := .startOfDay ⟨2024, 2, 29, by decide⟩
    let calls : List FieldCall :=
      [⟨"[day] = \"today\"", {}, first⟩, ⟨"sum([score]) > 1", {}, first⟩, ⟨"[day] = \"today\"", {}, later⟩,
        ⟨"sum([score]) > 1", {}, later⟩]
    let c : Context := ⟨schema, .sqlite, {}, first⟩
    let tree : Tree := .compare 0 .gt (.call 0 "sum" [.column 5 "score"]) (.constant 15 (.int 1))
    ({} : FieldCache).answers schema .sqlite none calls =
        (calls.map fun call => (({} : FieldCache).answer schema .sqlite none call).1) ∧
      ∃ compiled, tree.compile c = .ok compiled ∧ compiled.readsClock = false ∧
        tree.compile (c.at later) = .ok compiled := by
  intro schema first later calls c tree
  obtain ⟨hanswers, hcompile⟩ := answers_eq_fresh schema .sqlite none calls
  have hok : tree.compile c = .ok ⟨.compare .gt (.func "sum" [.column "scores" "score"]) (.literal (.int 1)), .bool,
      true, true, false⟩ := rfl
  exact ⟨hanswers, _, hok, rfl, hcompile c tree _ later hok rfl⟩

end FieldCache

end ShelfQuery.Expression
