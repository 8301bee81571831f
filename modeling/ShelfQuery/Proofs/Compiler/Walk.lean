import ShelfQuery.Expression.Compile

set_option autoImplicit false

/-!
# Walks that note no fault

Faults are never taken back: a run that ends without one had none at any step, and the statements about the steps can
be joined.
-/

namespace ShelfQuery.Expression

open ShelfQuery.Sql ShelfQuery.Schema ShelfQuery.Calendar

/-- A run that ends without faults starts without faults. If it starts before any forbidden
aggregation was reported, it ends so, with a result that stands in the relation `P` to the notes
before and after. -/
def Yields {α : Type} (m : Walk α) (P : Notes → α → Notes → Prop) : Prop :=
  ∀ n, (m.run n).2.errors = [] →
    n.errors = [] ∧
      (n.forbiddenReported = false → (m.run n).2.forbiddenReported = false ∧ P n (m.run n).1 (m.run n).2)

def Checks {α : Type} (m : Walk α) (Q : α → Prop) : Prop :=
  Yields m fun n a n' => n'.aggregated = n.aggregated ∧ Q a

section

variable {α β : Type} {m : Walk α} {f : α → Walk β} {P P' : Notes → α → Notes → Prop}
  {R : Notes → β → Notes → Prop} {Q Q' : α → Prop} {S : β → Prop}

namespace Yields

theorem bind (hm : Yields m P) (hf : ∀ a, Yields (f a) fun n' b n'' => ∀ n, P n a n' → R n b n'') :
    Yields (m >>= f) R := by
  intro n hfinal
  obtain ⟨hmid, hlast⟩ := hf (m.run n).1 (m.run n).2 hfinal
  obtain ⟨hfirst, hstep⟩ := hm n hmid
  refine ⟨hfirst, fun hforbidden => ?_⟩
  obtain ⟨hmidForbidden, hP⟩ := hstep hforbidden
  obtain ⟨hendForbidden, hR⟩ := hlast hmidForbidden
  exact ⟨hendForbidden, hR n hP⟩

theorem imp (hm : Yields m P) (h : ∀ n a n', P n a n' → P' n a n') : Yields m P' := by
  intro n hfinal
  obtain ⟨hfirst, hstep⟩ := hm n hfinal
  exact ⟨hfirst, fun hforbidden => ⟨(hstep hforbidden).1, h _ _ _ (hstep hforbidden).2⟩⟩

theorem pure {a : α} (h : ∀ n, P n a n) : Yields (pure a) P :=
  fun n hfinal => ⟨hfinal, fun hforbidden => ⟨hforbidden, h n⟩⟩

theorem note (d : Diagnostic) {P : Notes → Unit → Notes → Prop} : Yields (note d) P := by
  intro n hfinal
  exact absurd hfinal (List.append_ne_nil_of_right_ne_nil _ (by simp))

theorem refuse (fault : Fault) (pos : Nat) {P : Notes → Typed → Notes → Prop} : Yields (refuse fault pos) P :=
  Yields.bind (P := fun _ _ _ => False) (Yields.note _) fun _ => .pure fun _ _ => False.elim

end Yields

namespace Checks

theorem bind (hm : Checks m Q) (hf : ∀ a, Checks (f a) fun b => Q a → S b) : Checks (m >>= f) S :=
  Yields.bind hm fun a => (hf a).imp fun _ _ _ h _ hQ => ⟨h.1.trans hQ.1, h.2 hQ.2⟩

theorem imp (hm : Checks m Q) (h : ∀ a, Q a → Q' a) : Checks m Q' :=
  Yields.imp hm fun _ a _ hQ => ⟨hQ.1, h a hQ.2⟩

theorem pure {a : α} (h : Q a) : Checks (pure a) Q :=
  Yields.pure fun _ => ⟨rfl, h⟩

theorem note (d : Diagnostic) : Checks (note d) fun _ => False := Yields.note d

theorem report (fault : Fault) (pos : Nat) : Checks (report fault pos) fun _ => False := Yields.note _

theorem refuse (fault : Fault) (pos : Nat) {Q : Typed → Prop} : Checks (refuse fault pos) Q := Yields.refuse fault pos

theorem refuseUnplaced (fault : Fault) {Q : Typed → Prop} : Checks (refuseUnplaced fault) Q :=
  (note _).bind fun _ => .pure False.elim

theorem readClock (c : Context) : Checks (readClock c) fun m => m = c.now :=
  fun _ hfinal => ⟨hfinal, fun hforbidden => ⟨hforbidden, rfl, rfl⟩⟩

end Checks

end

end ShelfQuery.Expression
