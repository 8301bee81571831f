import ShelfQuery.Proofs.Compiler.Steps

set_option autoImplicit false

namespace ShelfQuery.Expression

/-- The value does not depend on what was noted before, and the faults that are added satisfy `R`. -/
def Adds {α : Type} (m : Walk α) (R : List Diagnostic → Prop) : Prop :=
  ∀ n, (m.run n).1 = (m.run {}).1 ∧ ∃ new, (m.run n).2.errors = n.errors ++ new ∧ R new

def Points {α : Type} (P : Nat → Prop) (m : Walk α) : Prop := Adds m fun new => ∀ d ∈ new, d.Points P

section

variable {α β : Type} {m : Walk α} {f : α → Walk β} {R S T : List Diagnostic → Prop} {P : Nat → Prop}

namespace Adds

theorem bind (hm : Adds m R) (hf : Adds (f (m.run {}).1) S) (h : ∀ x y, R x → S y → T (x ++ y)) :
    Adds (m >>= f) T := by
  have hrun (n : Notes) : (m >>= f).run n = (f (m.run {}).1).run (m.run n).2 := by
    rw [← (hm n).1]
    rfl
  intro n
  obtain ⟨-, x, hx, hR⟩ := hm n
  obtain ⟨hvalue, y, hy, hS⟩ := hf (m.run n).2
  rw [hrun, hrun]
  refine ⟨hvalue.trans (hf (m.run {}).2).1.symm, x ++ y, ?_, h x y hR hS⟩
  rw [hy, hx, List.append_assoc]

theorem imp (hm : Adds m R) (h : ∀ x, R x → S x) : Adds m S := by
  intro n
  obtain ⟨hvalue, x, hx, hR⟩ := hm n
  exact ⟨hvalue, x, hx, h x hR⟩

end Adds

namespace Points

theorem bind (hm : Points P m) (hf : ∀ a, Points P (f a)) : Points P (m >>= f) :=
  Adds.bind hm (hf _) fun _ _ hx hy => List.forall_mem_append.mpr ⟨hx, hy⟩

theorem silent (h : ∀ n, (m.run n).1 = (m.run {}).1 ∧ (m.run n).2.errors = n.errors) : Points P m := by
  intro n
  refine ⟨(h n).1, [], ?_, by simp⟩
  rw [(h n).2, List.append_nil]

theorem pure (a : α) : Points P (pure a : Walk α) := silent fun _ => ⟨rfl, rfl⟩

theorem note {d : Diagnostic} (h : d.Points P) : Points P (note d) :=
  fun _ => ⟨rfl, [d], rfl, List.forall_mem_singleton.mpr h⟩

/-- Whether the fault is noted depends on what was noted before. -/
theorem noteAggregation (c : Context) (scope : Scope) {pos : Nat} (h : P pos) : Points P (noteAggregation c scope pos) := by
  intro n
  have hrun : (Expression.noteAggregation c scope pos).run n =
      (if c.options.forbidAggregation && !scope.inTotal && !n.forbiddenReported then do
        modify fun n => { n with forbiddenReported := true }
        report .forbiddenAggregation pos
      else Pure.pure () : Walk Unit).run { n with aggregated := true } := rfl
  rw [hrun]
  refine ⟨rfl, ?_⟩
  split
  · exact ⟨[.placed .forbiddenAggregation pos], rfl, List.forall_mem_singleton.mpr (Diagnostic.points_placed rfl h)⟩
  · exact ⟨[], (List.append_nil _).symm, by simp⟩

end Points

theorem Points.of_steps (h : Steps P m m) : Points P m := by
  replace h : ∃ m', Steps P m m' := ⟨m, h⟩
  obtain ⟨m', h⟩ := h
  induction h with
  | pure a => exact .pure a
  | bind _ _ ihm ihf => exact ihm.bind ihf
  | readClock => exact .silent fun _ => ⟨rfl, rfl⟩
  | note hd => exact .note hd
  | noteAggregation c scope hpos => exact .noteAggregation c scope hpos

end

end ShelfQuery.Expression
