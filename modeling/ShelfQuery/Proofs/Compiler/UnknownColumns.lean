import ShelfQuery.Proofs.Compiler.Exact
import ShelfQuery.Proofs.Compiler.Faults

set_option autoImplicit false

namespace ShelfQuery.Expression

open ShelfQuery.Sql ShelfQuery.Schema ShelfQuery.Calendar

/-- The first column of the name cannot be used, or there is none. -/
def Context.Lacks (c : Context) (name : String) : Prop :=
  ∀ column, c.schema.find? name = some column → column.datatype.isUsable = false

namespace Tree

def entersCall (scope : Scope) (name : String) (args : List Tree) : Bool :=
  match Function.ofName? name with
  | none => false
  | some (.aggregate _) => args.length == 1 && !scope.inAggregate
  | some (.scalar .if) => decide (2 ≤ args.length)
  | some (.scalar .coalesce) => !args.isEmpty
  | some (.scalar scalar) => decide (scalar.arity.1 ≤ args.length ∧ args.length ≤ scalar.arity.2)

/-- The children that the walk goes on to. -/
def walked (c : Context) (scope : Scope) : Tree → List Tree
  | .inList _ arg items _ =>
    if (arg.valueIn c scope).isLiteral && !(arg.valueIn c scope).type.isBroken then [arg] else arg :: items
  | .call _ name args => if entersCall scope name args then args else []
  | tree => tree.children

/-- `Reaches c scope tree place node`: the walk over `tree` comes to `node`, in the scope `place`. -/
inductive Reaches (c : Context) : Scope → Tree → Scope → Tree → Prop where
  | self {scope : Scope} {tree : Tree} : Reaches c scope tree scope tree
  | step {scope place : Scope} {tree child node : Tree} : child ∈ tree.walked c scope →
      Reaches c (tree.scopeInside scope) child place node → Reaches c scope tree place node

/-- The places that the faults of a node may point at, besides those of its children. -/
def marks : Tree → List Nat
  | .isRange pos _ _ _ offsetPos => [pos, offsetPos]
  | tree => [tree.pos]

def Pointed (c : Context) (scope : Scope) (tree : Tree) (p : Nat) : Prop :=
  ∃ place node, Reaches c scope tree place node ∧ p ∈ node.marks

variable {c : Context} {scope : Scope} {tree child : Tree}

theorem pos_mem_marks (tree : Tree) : tree.pos ∈ tree.marks := by
  cases tree <;> simp [marks, pos]

theorem pointed_pos : tree.Pointed c scope tree.pos := ⟨scope, tree, .self, tree.pos_mem_marks⟩

theorem Pointed.of_child {p : Nat} (hchild : child ∈ tree.walked c scope)
    (h : child.Pointed c (tree.scopeInside scope) p) : tree.Pointed c scope p := by
  obtain ⟨place, node, hreaches, hp⟩ := h
  exact ⟨place, node, .step hchild hreaches, hp⟩

theorem pointed_childPos (hchild : child ∈ tree.walked c scope) : tree.Pointed c scope child.pos :=
  .of_child hchild pointed_pos

theorem walked_subset (c : Context) (scope : Scope) (tree : Tree) : tree.walked c scope ⊆ tree.children := by
  cases tree with
  | inList pos arg items negated =>
    simp only [walked, children]
    split <;> simp
  | call pos name args =>
    simp only [walked, children]
    split <;> simp
  | _ => exact List.Subset.refl _

theorem Reaches.within {place : Scope} {node : Tree} (h : Reaches c scope tree place node) : tree.Within node := by
  induction h with
  | self => exact .self
  | step hchild _ ih => exact .step (walked_subset _ _ _ hchild) ih

/-- The walk comes to a node, or turns back before a child of another that it comes to and that the node stands in. -/
theorem Within.reaches_or {node : Tree} (h : tree.Within node) (c : Context) (scope : Scope) :
    (∃ place, Reaches c scope tree place node) ∨
      ∃ place parent child, Reaches c scope tree place parent ∧ child ∈ parent.children ∧
        child ∉ parent.walked c place ∧ child.Within node := by
  induction h generalizing scope with
  | self => exact .inl ⟨scope, .self⟩
  | @step tree child node hchild hwithin ih =>
    by_cases hwalked : child ∈ tree.walked c scope
    · rcases ih (tree.scopeInside scope) with ⟨place, hreaches⟩ | ⟨place, parent, lost, hreaches, hlost⟩
      · exact .inl ⟨place, .step hwalked hreaches⟩
      · exact .inr ⟨place, parent, lost, .step hwalked hreaches, hlost⟩
    · exact .inr ⟨scope, tree, child, .self, hchild, hwalked, hwithin⟩

end Tree

/-- What is reported on the way over trees: of columns exactly those that are lacking and that the walk comes to, and
faults at places of `P` only. -/
structure Reports (c : Context) (P : Nat → Prop) (scope : Scope) (trees : List Tree) (new : List Diagnostic) : Prop where
  unknown : ∀ name pos, .placed (.unknownColumn name) pos ∈ new ↔
    c.Lacks name ∧ ∃ tree ∈ trees, ∃ place, Tree.Reaches c scope tree place (.column pos name)
  placed : ∀ d ∈ new, ∀ p ∈ d.pos, P p

def Surveys {α : Type} (c : Context) (P : Nat → Prop) (scope : Scope) (trees : List Tree) (m : Walk α) : Prop :=
  Adds m (Reports c P scope trees)

section

variable {α β : Type} {c : Context} {P Q : Nat → Prop} {scope : Scope} {trees more : List Tree} {m : Walk α}
  {f : α → Walk β}

theorem Reports.of_points {new : List Diagnostic} (h : ∀ d ∈ new, d.Points P) : Reports c P scope [] new where
  unknown := by
    intro name pos
    constructor
    · intro hmem
      cases (h _ hmem).1
    · rintro ⟨-, tree, hnone, -⟩
      cases hnone
  placed := fun d hd => (h d hd).2

theorem Reports.append {x y : List Diagnostic} (hx : Reports c P scope trees x) (hy : Reports c P scope more y) :
    Reports c P scope (trees ++ more) (x ++ y) where
  unknown := by
    intro name pos
    rw [List.mem_append, hx.unknown, hy.unknown, ← and_or_left]
    simp only [List.mem_append, or_and_right, exists_or]
  placed := List.forall_mem_append.mpr ⟨hx.placed, hy.placed⟩

namespace Surveys

theorem bind (hm : Surveys c P scope trees m) (hf : Surveys c P scope more (f (m.run {}).1)) :
    Surveys c P scope (trees ++ more) (m >>= f) :=
  Adds.bind hm hf fun _ _ hx hy => hx.append hy

theorem of_steps (h : Steps P m m) : Surveys c P scope [] m := Adds.imp (Points.of_steps h) fun _ => .of_points

theorem check (hm : Surveys c P scope trees m) (hf : Steps P (f (m.run {}).1) (f (m.run {}).1)) :
    Surveys c P scope trees (m >>= f) := by
  simpa using hm.bind (of_steps hf)

theorem after (hm : Steps P m m) (hf : Surveys c P scope trees (f (m.run {}).1)) : Surveys c P scope trees (m >>= f) :=
  (of_steps hm).bind hf

theorem mono (hm : Surveys c P scope trees m) (h : ∀ p, P p → Q p) : Surveys c Q scope trees m :=
  Adds.imp hm fun _ hx => ⟨hx.unknown, fun d hd p hp => h p (hx.placed d hd p hp)⟩

variable {tree child : Tree}

theorem node {inside : Scope} (hinside : tree.scopeInside scope = inside) (hwalked : tree.walked c scope = trees)
    (hcolumn : ∀ pos name, tree ≠ .column pos name) (hm : Surveys c P inside trees m) : Surveys c P scope [tree] m := by
  subst hinside hwalked
  refine Adds.imp hm fun new hnew => ⟨fun name pos => ?_, hnew.placed⟩
  rw [hnew.unknown]
  refine and_congr_right fun _ => ?_
  constructor
  · rintro ⟨child, hchild, place, hreaches⟩
    exact ⟨tree, List.mem_singleton.mpr rfl, place, .step hchild hreaches⟩
  · rintro ⟨_, hmem, place, hreaches⟩
    obtain rfl := List.mem_singleton.mp hmem
    cases hreaches with
    | self => exact absurd rfl (hcolumn pos name)
    | step hchild hreaches => exact ⟨_, hchild, place, hreaches⟩

theorem refused {fault : Fault} (hwalked : tree.walked c scope = []) (hcolumn : ∀ pos name, tree ≠ .column pos name)
    (hfault : fault.isUnknownColumn = false) :
    Surveys c (tree.Pointed c scope) scope [tree] (refuse fault tree.pos) :=
  node rfl hwalked hcolumn (of_steps (.refuse hfault Tree.pointed_pos))

theorem stars (hstars : ∀ tree ∈ trees, isStar tree = true) (hm : Points P m) : Surveys c P scope trees m := by
  refine Adds.imp hm fun new hnew => ⟨fun name pos => ?_, fun d hd => (hnew d hd).2⟩
  constructor
  · intro hmem
    cases (hnew _ hmem).1
  · rintro ⟨-, tree, htree, place, hreaches⟩
    have hstar := hstars tree htree
    cases hreaches with
    | self => cases hstar
    | step hchild =>
      cases tree with
      | star => cases hchild
      | _ => cases hstar

end Surveys

end

section

variable {c : Context} {scope : Scope} {pos : Nat}

theorem column_surveys (c : Context) (scope : Scope) (pos : Nat) (name : String) :
    Surveys c ((Tree.column pos name).Pointed c scope) scope [.column pos name] (visitColumn c name pos) := by
  have hplace : (Tree.column pos name).Pointed c scope pos := Tree.pointed_pos
  have hreach (name' : String) (pos' : Nat) :
      (∃ tree ∈ [Tree.column pos name], ∃ place, Tree.Reaches c scope tree place (.column pos' name')) ↔
        pos' = pos ∧ name' = name := by
    constructor
    · rintro ⟨_, hmem, place, hreaches⟩
      obtain rfl := List.mem_singleton.mp hmem
      cases hreaches with
      | self => exact ⟨rfl, rfl⟩
      | step hchild => cases hchild
    · rintro ⟨rfl, rfl⟩
      exact ⟨_, List.mem_singleton.mpr rfl, scope, .self⟩
  unfold visitColumn
  split
  · next hnone =>
    have hlacks : c.Lacks name := by
      intro column hcolumn
      cases husable : column.datatype.isUsable with
      | false => rfl
      | true => cases hnone.symm.trans (Option.filter_eq_some_iff.mpr ⟨hcolumn, husable⟩)
    refine fun n => ⟨rfl, [.placed (.unknownColumn name) pos], rfl, ?_, ?_⟩
    · intro name' pos'
      rw [hreach, List.mem_singleton]
      constructor
      · intro heq
        cases heq
        exact ⟨hlacks, rfl, rfl⟩
      · rintro ⟨-, rfl, rfl⟩
        rfl
    · intro d hd p hp
      rw [List.mem_singleton.mp hd] at hp
      cases hp
      exact hplace
  · next column hsome =>
    obtain ⟨hcolumn, husable⟩ := Option.filter_eq_some_iff.mp hsome
    have hsilent : Points ((Tree.column pos name).Pointed c scope) (visitColumn c name pos) := by
      unfold visitColumn
      rw [hsome]
      refine Points.bind (.silent fun _ => ⟨rfl, rfl⟩) fun _ => ?_
      extract_lets type sql converter
      split
      · exact .pure _
      · exact .pure _
    rw [visitColumn, hsome] at hsilent
    refine Adds.imp hsilent fun new hnew => ⟨fun name' pos' => ?_, fun d hd => (hnew d hd).2⟩
    rw [hreach]
    constructor
    · intro hmem
      cases (hnew _ hmem).1
    · rintro ⟨hlacks, -, rfl⟩
      cases (hlacks column hcolumn).symm.trans husable

theorem single_surveys {α β : Type} {tree arg : Tree} {m : Walk α} {f : α → Walk β}
    (hwalked : tree.walked c scope = [arg]) (hinside : tree.scopeInside scope = scope)
    (hcolumn : ∀ pos name, tree ≠ .column pos name) (hm : Surveys c (arg.Pointed c scope) scope [arg] m)
    (hf : ∀ a, Steps (tree.Pointed c scope) (f a) (f a)) : Surveys c (tree.Pointed c scope) scope [tree] (m >>= f) := by
  have hmem : arg ∈ tree.walked c scope := by simp [hwalked]
  have harg (p : Nat) (hp : arg.Pointed c scope p) : tree.Pointed c scope p := .of_child hmem (by rwa [hinside])
  exact .node hinside hwalked hcolumn ((hm.mono harg).check (hf _))

theorem pair_surveys {α β γ : Type} {tree left right : Tree} {m : Walk α} {k : Walk β} {f : α → β → Walk γ}
    (hwalked : tree.walked c scope = [left, right]) (hinside : tree.scopeInside scope = scope)
    (hcolumn : ∀ pos name, tree ≠ .column pos name) (hm : Surveys c (left.Pointed c scope) scope [left] m)
    (hk : Surveys c (right.Pointed c scope) scope [right] k)
    (hf : ∀ a b, Steps (tree.Pointed c scope) (f a b) (f a b)) :
    Surveys c (tree.Pointed c scope) scope [tree] (m >>= fun a => k >>= fun b => f a b) := by
  have harg {arg : Tree} (hmem : arg ∈ [left, right]) (p : Nat) (hp : arg.Pointed c scope p) : tree.Pointed c scope p :=
    .of_child (hwalked ▸ hmem) (by rwa [hinside])
  refine .node hinside hwalked hcolumn ((hm.mono (harg (by simp))).bind ?_)
  exact (hk.mono (harg (by simp))).check (hf _ _)

theorem conditions_survey {tree left right : Tree} {m k : Walk Typed} {join : Typed → Typed → Typed}
    (hwalked : tree.walked c scope = [left, right]) (hinside : tree.scopeInside scope = scope)
    (hcolumn : ∀ pos name, tree ≠ .column pos name) (hm : Surveys c (left.Pointed c scope) scope [left] m)
    (hk : Surveys c (right.Pointed c scope) scope [right] k) :
    Surveys c (tree.Pointed c scope) scope [tree]
      (do
        let l ← m
        let lSound ← checkCondition l left.pos
        let r ← k
        let rSound ← checkCondition r right.pos
        if lSound && rSound then return join l r else return .broken) := by
  have harg {arg : Tree} (hmem : arg ∈ [left, right]) (p : Nat) (hp : arg.Pointed c scope p) : tree.Pointed c scope p :=
    .of_child (hwalked ▸ hmem) (by rwa [hinside])
  have hleft : tree.Pointed c scope left.pos := harg (by simp) _ Tree.pointed_pos
  have hright : tree.Pointed c scope right.pos := harg (by simp) _ Tree.pointed_pos
  refine .node hinside hwalked hcolumn ((hm.mono (harg (by simp))).bind (.after (checkCondition_steps hleft) ?_))
  apply (hk.mono (harg (by simp))).check
  apply (checkCondition_steps hright).bind
  intro sound
  split
  · exact .pure _
  · exact .pure _

theorem inList_surveys {arg : Tree} {items : List Tree} (negated : Bool)
    (harg : Surveys c (arg.Pointed c scope) scope [arg] (visit c scope arg))
    (hitems : Surveys c (fun p => ∃ a ∈ items, a.Pointed c scope p) scope items (visitAll c scope items)) :
    Surveys c ((Tree.inList pos arg items negated).Pointed c scope) scope [.inList pos arg items negated]
      (visit c scope (.inList pos arg items negated)) := by
  have hfirst : arg ∈ (Tree.inList pos arg items negated).walked c scope := by
    rw [Tree.walked]
    split <;> simp
  have hpos := Tree.pointed_childPos hfirst
  have harg' := harg.mono fun _ => Tree.Pointed.of_child hfirst
  rw [visit]
  cases hliteral : (arg.valueIn c scope).isLiteral && !(arg.valueIn c scope).type.isBroken with
  | true =>
    refine .node rfl (show _ = [arg] by rw [Tree.walked, hliteral, if_pos rfl]) (by simp) (harg'.check ?_)
    have hvalue : ((visit c scope arg).run {}).1 = arg.valueIn c scope := rfl
    rw [hvalue, hliteral, if_pos rfl]
    exact .refuse rfl hpos
  | false =>
    have hall : (Tree.inList pos arg items negated).walked c scope = [arg] ++ items := by
      rw [Tree.walked, hliteral, if_neg Bool.false_ne_true]
      rfl
    have hitem {a : Tree} (ha : a ∈ items) : a ∈ (Tree.inList pos arg items negated).walked c scope := by simp [hall, ha]
    refine .node rfl hall (by simp) (harg'.bind ?_)
    have hvalue : ((visit c scope arg).run {}).1 = arg.valueIn c scope := rfl
    rw [hvalue, hliteral, if_neg Bool.false_ne_true]
    have hitems' := hitems.mono fun p ⟨a, ha, hp⟩ => Tree.Pointed.of_child (hitem ha) hp
    refine hitems'.check (checkIn_steps _ negated hpos ?_)
    cases items with
    | nil => exact hpos
    | cons a rest => exact Tree.pointed_childPos (hitem (by simp))

section

variable {name : String} {args : List Tree}

theorem walked_call (h : Tree.entersCall scope name args = true) : (Tree.call pos name args).walked c scope = args := by
  rw [Tree.walked, if_pos h]

theorem walked_call_refused (h : Tree.entersCall scope name args = false) :
    (Tree.call pos name args).walked c scope = [] := by
  rw [Tree.walked, h, if_neg Bool.false_ne_true]

theorem pointed_headPos (hwalked : (Tree.call pos name args).walked c scope = args) :
    (Tree.call pos name args).Pointed c scope ((args.head?.map Tree.pos).getD pos) := by
  cases args with
  | nil => exact Tree.pointed_pos
  | cons a rest => exact Tree.pointed_childPos (by simp [hwalked])

theorem pointed_zip (hwalked : (Tree.call pos name args).walked c scope = args) (visited : List Typed) :
    ∀ arg ∈ visited.zip (args.map Tree.pos), (Tree.call pos name args).Pointed c scope arg.2 := by
  rintro ⟨t, p⟩ hmem
  obtain ⟨a, ha, rfl⟩ := List.mem_map.mp (List.of_mem_zip hmem).2
  exact Tree.pointed_childPos (by simpa [hwalked] using ha)

theorem arguments_survey {α β : Type} {inside : Scope} {m : Walk α} {f : α → Walk β}
    (henters : Tree.entersCall scope name args = true) (hinside : (Tree.call pos name args).scopeInside scope = inside)
    (hm : Surveys c (fun p => ∃ a ∈ args, a.Pointed c inside p) inside args m)
    (hf : ∀ a, Steps ((Tree.call pos name args).Pointed c scope) (f a) (f a)) :
    Surveys c ((Tree.call pos name args).Pointed c scope) scope [.call pos name args] (m >>= f) := by
  have hwalked : (Tree.call pos name args).walked c scope = args := walked_call henters
  have harg (p : Nat) (hp : ∃ a ∈ args, a.Pointed c inside p) : (Tree.call pos name args).Pointed c scope p := by
    obtain ⟨a, ha, hp⟩ := hp
    exact Tree.Pointed.of_child (by simpa [hwalked] using ha) (by rwa [hinside])
  exact .node hinside hwalked (by simp) ((hm.mono harg).check (hf _))

theorem aggregate_surveys {aggregate : Aggregate} (hname : Function.ofName? name = some (.aggregate aggregate))
    (hall : ∀ inside, Surveys c (fun p => ∃ a ∈ args, a.Pointed c inside p) inside args (visitAll c inside args)) :
    Surveys c ((Tree.call pos name args).Pointed c scope) scope [.call pos name args]
      (visit c scope (.call pos name args)) := by
  have henters : Tree.entersCall scope name args = (args.length == 1 && !scope.inAggregate) := by
    simp only [Tree.entersCall, hname]
  have hinside : (Tree.call pos name args).scopeInside scope = { scope with inAggregate := true } := by
    simp [Tree.scopeInside, namesAggregate, hname]
  simp only [visit, hname]
  split
  · next hlength => exact .refused (walked_call_refused (by simp [henters, hlength])) (by simp) rfl
  · next hlength =>
    split
    · next hnested => exact .refused (walked_call_refused (by simp [henters, hnested])) (by simp) rfl
    · next hnested =>
      have hargs : Tree.entersCall scope name args = true := by simp [henters, not_not.mp hlength, hnested]
      have hwalked : (Tree.call pos name args).walked c scope = args := walked_call hargs
      split
      · next hstar =>
        have hstars : ∀ a ∈ args, isStar a = true := by
          obtain ⟨arg, rfl⟩ := List.length_eq_one_iff.mp (not_not.mp hlength)
          simpa using hstar
        refine .node hinside hwalked (by simp) (.stars hstars ?_)
        split
        · exact .of_steps (.refuse rfl (pointed_headPos hwalked))
        · refine Points.bind (.silent fun _ => ⟨rfl, rfl⟩) fun _ => ?_
          exact (Points.noteAggregation c scope Tree.pointed_pos).bind fun _ => .pure _
      · exact arguments_survey hargs hinside (hall _) fun _ => checkAggregate_steps scope aggregate Tree.pointed_pos

theorem arity_surveys {least most : Nat} {display : String} {f : List Typed → Walk Typed}
    (henters : Tree.entersCall scope name args = decide (least ≤ args.length ∧ args.length ≤ most))
    (hinside : (Tree.call pos name args).scopeInside scope = scope)
    (hall : Surveys c (fun p => ∃ a ∈ args, a.Pointed c scope p) scope args (visitAll c scope args))
    (hf : (Tree.call pos name args).walked c scope = args →
      ∀ visited, Steps ((Tree.call pos name args).Pointed c scope) (f visited) (f visited)) :
    Surveys c ((Tree.call pos name args).Pointed c scope) scope [.call pos name args]
      (if args.length < least ∨ most < args.length then refuse (.arity display least most) pos
        else visitAll c scope args >>= f) := by
  split
  · next harity =>
    have hnone : Tree.entersCall scope name args = false := by
      rw [henters, decide_eq_false_iff_not]
      omega
    exact .refused (walked_call_refused hnone) (by simp) rfl
  · next harity =>
    have hargs : Tree.entersCall scope name args = true := by
      rw [henters, decide_eq_true_iff]
      omega
    exact arguments_survey hargs hinside hall (hf (walked_call hargs))

theorem scalar_surveys {scalar : Scalar} (hname : Function.ofName? name = some (.scalar scalar))
    (hall : Surveys c (fun p => ∃ a ∈ args, a.Pointed c scope p) scope args (visitAll c scope args))
    (hbranches : Surveys c (fun p => ∃ a ∈ args, a.Pointed c scope p) scope args (visitBranches c scope {} args)) :
    Surveys c ((Tree.call pos name args).Pointed c scope) scope [.call pos name args]
      (visit c scope (.call pos name args)) := by
  have hinside : (Tree.call pos name args).scopeInside scope = scope := scopeInside_scalar hname
  cases scalar with
  | «if» =>
    have henters : Tree.entersCall scope name args = decide (2 ≤ args.length) := by simp only [Tree.entersCall, hname]
    simp only [visit, hname]
    split
    · next hfew => exact .refused (walked_call_refused (by simp [henters]; omega)) (by simp) rfl
    · exact arguments_survey (by simp [henters]; omega) hinside hbranches fun b => finishIf_steps b
  | coalesce =>
    have henters : Tree.entersCall scope name args = !args.isEmpty := by simp only [Tree.entersCall, hname]
    simp only [visit, hname]
    split
    · next hempty => exact .refused (walked_call_refused (by simp [henters, hempty])) (by simp) rfl
    · next hargs =>
      have hargs : Tree.entersCall scope name args = true := by simpa [henters] using hargs
      exact arguments_survey hargs hinside hall fun visited => checkCoalesce_steps (pointed_zip (walked_call hargs) visited)
  | substr =>
    simp only [visit, hname]
    exact arity_surveys (by simp only [Tree.entersCall, hname]) hinside hall
      fun hwalked visited => checkSubstr_steps (pointed_zip hwalked visited)
  | string | int =>
    simp only [visit, hname]
    exact arity_surveys (by simp only [Tree.entersCall, hname]) hinside hall fun _ _ => sound_steps _
  | date =>
    simp only [visit, hname]
    exact arity_surveys (by simp only [Tree.entersCall, hname]) hinside hall
      fun hwalked _ => checkDate_steps (pointed_headPos hwalked)
  | trunc unit =>
    simp only [visit, hname]
    exact arity_surveys (by simp only [Tree.entersCall, hname]) hinside hall
      fun hwalked _ => checkTrunc_steps unit _ (pointed_headPos hwalked)

theorem call_surveys
    (hall : ∀ inside, Surveys c (fun p => ∃ a ∈ args, a.Pointed c inside p) inside args (visitAll c inside args))
    (hbranches : Surveys c (fun p => ∃ a ∈ args, a.Pointed c scope p) scope args (visitBranches c scope {} args)) :
    Surveys c ((Tree.call pos name args).Pointed c scope) scope [.call pos name args]
      (visit c scope (.call pos name args)) := by
  cases hname : Function.ofName? name with
  | none =>
    have henters : Tree.entersCall scope name args = false := by simp only [Tree.entersCall, hname]
    simp only [visit, hname]
    exact .refused (walked_call_refused henters) (by simp) rfl
  | some function =>
    cases function with
    | aggregate aggregate => exact aggregate_surveys hname hall
    | scalar scalar => exact scalar_surveys hname (hall scope) hbranches

theorem branch_surveys {condition value : Tree} {rest : List Tree} (b : Branches) {P : Nat → Prop}
    (hcondition : Surveys c P scope [condition] (visit c scope condition)) (hconditionPos : P condition.pos)
    (hvalue : Surveys c P scope [value] (visit c scope value)) (hvaluePos : P value.pos)
    (hrest : ∀ b, Surveys c P scope rest (visitBranches c scope b rest)) :
    Surveys c P scope (condition :: value :: rest) (visitBranches c scope b (condition :: value :: rest)) := by
  rw [visitBranches]
  apply hcondition.bind
  extract_lets read
  have hread (sound : Bool) : Surveys c P scope ([value] ++ rest) (read sound) :=
    hvalue.bind (.after (checkValueType_steps b.type hvaluePos) (hrest _))
  split
  · exact .after (.pure _) (hread _)
  · split
    · exact .after (.report rfl hconditionPos) (.after (.pure _) (hread _))
    · exact .after (.pure _) (hread _)

/-- The mark of aggregation is put back, which the faults do not depend on. -/
theorem total_surveys {arg : Tree} (harg : Surveys c (arg.Pointed c ⟨true, false⟩) ⟨true, false⟩ [arg] (visit c ⟨true, false⟩ arg)) :
    Surveys c ((Tree.total pos arg).Pointed c scope) scope [.total pos arg] (visit c scope (.total pos arg)) := by
  have hmem : arg ∈ (Tree.total pos arg).walked c scope := List.mem_singleton.mpr rfl
  have harg' := harg.mono fun _ => Tree.Pointed.of_child hmem
  refine .node rfl rfl (by simp) ?_
  have hrun (n : Notes) : (visit c scope (.total pos arg)).run n =
      (if ((visit c ⟨true, false⟩ arg).run n).1.type.isBroken then pure .broken
        else pure ⟨.total c.schema.name ((visit c ⟨true, false⟩ arg).run n).1.sql, ((visit c ⟨true, false⟩ arg).run n).1.type⟩ :
        Walk Typed).run { ((visit c ⟨true, false⟩ arg).run n).2 with aggregated := n.aggregated } := by
    rw [visit]
    rfl
  intro n
  obtain ⟨hvalue, new, hnew, hreports⟩ := harg' n
  rw [hrun, hrun, hvalue]
  split
  · exact ⟨rfl, new, hnew, hreports⟩
  · exact ⟨rfl, new, hnew, hreports⟩

end

end

mutual

/-- The walk over a tree reports the columns that it comes to and that are lacking, and points at nodes that it comes
to only. -/
theorem visit_surveys (c : Context) (scope : Scope) :
    ∀ tree, Surveys c (tree.Pointed c scope) scope [tree] (visit c scope tree)
  | .column pos name => by
    rw [visit]
    exact column_surveys c scope pos name
  | .constant pos value => by
    rw [visit]
    exact .node rfl rfl (by simp) (.of_steps (visitConstant_steps value Tree.pointed_pos))
  | .star pos => by
    rw [visit]
    exact .refused rfl (by simp) rfl
  | .neg pos arg => by
    rw [visit]
    exact single_surveys rfl rfl (by simp) (visit_surveys c scope arg)
      fun t => checkNeg_steps (Tree.pointed_childPos (List.mem_singleton.mpr rfl))
  | .not pos arg => by
    rw [visit]
    exact single_surveys rfl rfl (by simp) (visit_surveys c scope arg) fun t => checkNot_steps Tree.pointed_pos
  | .arith pos op left right => by
    rw [visit]
    exact pair_surveys rfl rfl (by simp) (visit_surveys c scope left) (visit_surveys c scope right)
      fun l r => checkArith_steps op l r (Tree.pointed_childPos (List.mem_cons_self ..))
  | .compare pos op left right => by
    rw [visit]
    exact pair_surveys rfl rfl (by simp) (visit_surveys c scope left) (visit_surveys c scope right)
      fun l r => checkCompare_steps op l r (Tree.pointed_childPos (List.mem_cons_self ..))
  | .and pos left right => by
    rw [visit]
    exact conditions_survey rfl rfl (by simp) (visit_surveys c scope left) (visit_surveys c scope right)
  | .or pos left right => by
    rw [visit]
    exact conditions_survey rfl rfl (by simp) (visit_surveys c scope left) (visit_surveys c scope right)
  | .inList pos arg items negated => inList_surveys negated (visit_surveys c scope arg) (visitAll_surveys c scope items)
  | .between pos arg low high => by
    have hmem {child : Tree} (h : child ∈ [arg, low, high]) :
        child ∈ (Tree.between pos arg low high).walked c scope := h
    rw [visit]
    refine .node rfl rfl (by simp) ((visit_surveys c scope arg).mono (fun _ => .of_child (hmem (by simp))) |>.bind ?_)
    refine (visit_surveys c scope low).mono (fun _ => .of_child (hmem (by simp))) |>.bind ?_
    refine (visit_surveys c scope high).mono (fun _ => .of_child (hmem (by simp))) |>.check ?_
    exact checkBetween_steps _ _ (Tree.pointed_childPos (hmem (by simp)))
  | .like pos arg pattern ignoreCase negated => by
    rw [visit]
    exact pair_surveys rfl rfl (by simp) (visit_surveys c scope arg) (visit_surveys c scope pattern)
      fun t p => checkLike_steps p ignoreCase negated (Tree.pointed_childPos (List.mem_cons_self ..))
  | .isNull pos arg negated => by
    rw [visit]
    exact single_surveys rfl rfl (by simp) (visit_surveys c scope arg) fun t => sound_steps _
  | .isRange pos arg offset units offsetPos => by
    rw [visit]
    refine single_surveys rfl rfl (by simp) (visit_surveys c scope arg) fun t => checkRange_steps offset units ?_ ?_
    · exact Tree.pointed_childPos (List.mem_singleton.mpr rfl)
    · exact ⟨scope, _, .self, by simp [Tree.marks]⟩
  | .call pos name args => call_surveys (fun inside => visitAll_surveys c inside args) (visitBranches_surveys c scope {} args)
  | .total pos arg => total_surveys (visit_surveys c ⟨true, false⟩ arg)

theorem visitAll_surveys (c : Context) (scope : Scope) :
    ∀ trees, Surveys c (fun p => ∃ tree ∈ trees, tree.Pointed c scope p) scope trees (visitAll c scope trees)
  | [] => by
    rw [visitAll]
    exact .of_steps (.pure _)
  | tree :: rest => by
    rw [visitAll]
    refine (visit_surveys c scope tree).mono (fun p hp => ⟨tree, by simp, hp⟩) |>.bind ?_
    refine (visitAll_surveys c scope rest).mono ?_ |>.check (.pure _)
    rintro p ⟨a, ha, hp⟩
    exact ⟨a, List.mem_cons_of_mem _ ha, hp⟩

theorem visitBranches_surveys (c : Context) (scope : Scope) (b : Branches) :
    ∀ trees, Surveys c (fun p => ∃ tree ∈ trees, tree.Pointed c scope p) scope trees (visitBranches c scope b trees)
  | [] => by
    rw [visitBranches]
    exact .of_steps (.pure _)
  | [value] => by
    rw [visitBranches]
    refine (visit_surveys c scope value).mono (fun p hp => ⟨value, by simp, hp⟩) |>.check ?_
    exact (checkValueType_steps b.type ⟨value, by simp, Tree.pointed_pos⟩).bind fun _ => .pure _
  | condition :: value :: rest => by
    refine branch_surveys b ?_ ⟨condition, by simp, Tree.pointed_pos⟩ ?_ ⟨value, by simp, Tree.pointed_pos⟩ fun b => ?_
    · exact (visit_surveys c scope condition).mono fun p hp => ⟨condition, by simp, hp⟩
    · exact (visit_surveys c scope value).mono fun p hp => ⟨value, by simp, hp⟩
    · refine (visitBranches_surveys c scope b rest).mono ?_
      rintro p ⟨a, ha, hp⟩
      exact ⟨a, by simp [ha], hp⟩

end

theorem reports_of_compile {c : Context} {tree : Tree} {ds : List Diagnostic} (h : tree.compile c = .error ds) :
    Reports c (tree.Pointed c {}) {} [tree] ds := by
  obtain ⟨-, new, hnew, hreports⟩ := visit_surveys c {} tree {}
  unfold Tree.compile at h
  split at h
  next t notes hrun =>
  rw [hrun] at hnew
  split at h
  · cases h
  · cases h
    rw [show notes.errors = new from hnew]
    exact hreports

theorem exists_error_of_lacks {c : Context} {tree : Tree} {name : String} {pos : Nat} (hlacks : c.Lacks name)
    (hwithin : tree.Within (.column pos name)) : ∃ ds, tree.compile c = .error ds := by
  cases h : tree.compile c with
  | error ds => exact ⟨ds, rfl⟩
  | ok compiled =>
    obtain ⟨place, hstands⟩ := Tree.stands_of_within hwithin {}
    have hcolumn := (compiles_of_compile h).1.stands hstands rfl
    generalize (Tree.column pos name).valueIn c place = t at hcolumn
    cases hcolumn with
    | column hfind husable | columnTrunc hfind husable => cases (hlacks _ hfind).symm.trans husable

/-- A column is reported where it stands exactly if it is lacking and the walk comes to it. A tree with a column that is
lacking has faults in any case, and if the column is not reported it stands in a child that the walk does not go on
to. -/
theorem unknownColumn_reported_iff (c : Context) (tree : Tree) (name : String) (pos : Nat) :
    (Fault.unknownColumn name).message = name ++ " is not a valid column name" ∧
    ((∃ ds, tree.compile c = .error ds ∧ .placed (.unknownColumn name) pos ∈ ds) ↔
      c.Lacks name ∧ ∃ place, Tree.Reaches c {} tree place (.column pos name)) ∧
    (c.Lacks name → tree.Within (.column pos name) → ∃ ds, tree.compile c = .error ds ∧
      (.placed (.unknownColumn name) pos ∈ ds ∨
        ∃ place parent child, Tree.Reaches c {} tree place parent ∧ child ∈ parent.children ∧
          child ∉ parent.walked c place ∧ child.Within (.column pos name))) := by
  have hmem {ds : List Diagnostic} (h : tree.compile c = .error ds) :
      .placed (.unknownColumn name) pos ∈ ds ↔
        c.Lacks name ∧ ∃ place, Tree.Reaches c {} tree place (.column pos name) := by
    rw [(reports_of_compile h).unknown]
    simp
  refine ⟨rfl, ⟨?_, ?_⟩, ?_⟩
  · rintro ⟨ds, hcompile, hreported⟩
    exact (hmem hcompile).mp hreported
  · rintro ⟨hlacks, place, hreaches⟩
    obtain ⟨ds, hcompile⟩ := exists_error_of_lacks hlacks hreaches.within
    exact ⟨ds, hcompile, (hmem hcompile).mpr ⟨hlacks, place, hreaches⟩⟩
  · intro hlacks hwithin
    obtain ⟨ds, hcompile⟩ := exists_error_of_lacks hlacks hwithin
    refine ⟨ds, hcompile, ?_⟩
    rcases hwithin.reaches_or c {} with hreached | hlost
    · exact .inl ((hmem hcompile).mpr ⟨hlacks, hreached⟩)
    · exact .inr hlost

/-- Of two columns that are lacking, the one in the argument of a function that is not known is not reported. -/
theorem unknownColumn_reported_iff_argument :
    let c : Context := ⟨⟨"visits", []⟩, .sqlite, {}, .startOfDay ⟨2020, 1, 14, by decide⟩⟩
    let tree : Tree := .arith 0 .add (.call 0 "foo" [.column 5 "nope"]) (.column 15 "gone")
    (c.Lacks "nope" ∧ tree.Within (.column 5 "nope")) ∧
      (∃ ds, tree.compile c = .error ds ∧ .placed (.unknownColumn "gone") 15 ∈ ds) ∧
      ¬ ∃ ds, tree.compile c = .error ds ∧ .placed (.unknownColumn "nope") 5 ∈ ds := by
  intro c tree
  have hlacks (name : String) : c.Lacks name := by
    intro column hcolumn
    cases hcolumn
  have hleft : .call 0 "foo" [.column 5 "nope"] ∈ tree.children := List.mem_cons_self ..
  have hright : .column 15 "gone" ∈ tree.walked c {} := List.mem_cons_of_mem _ (List.mem_cons_self ..)
  refine ⟨⟨hlacks _, .step hleft (.step (List.mem_cons_self ..) .self)⟩, ?_, ?_⟩
  · exact (unknownColumn_reported_iff c tree "gone" 15).2.1.mpr ⟨hlacks _, _, .step hright .self⟩
  · rw [(unknownColumn_reported_iff c tree "nope" 5).2.1]
    rintro ⟨-, place, hreaches⟩
    have hskipped (scope : Scope) : (Tree.call 0 "foo" [.column 5 "nope"]).walked c scope = [] :=
      walked_call_refused rfl
    generalize hnode : Tree.column 5 "nope" = node at hreaches
    cases hreaches with
    | self => exact absurd hnode (by simp [tree])
    | step hchild hreaches =>
      subst hnode
      rcases List.mem_cons.mp hchild with rfl | hchild
      · cases hreaches with
        | step hchild =>
          rw [hskipped] at hchild
          cases hchild
      · obtain rfl := List.mem_singleton.mp hchild
        cases hreaches with
        | step hchild => cases hchild

end ShelfQuery.Expression
