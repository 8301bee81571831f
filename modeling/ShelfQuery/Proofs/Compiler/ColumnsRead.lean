import ShelfQuery.Proofs.Compiler.Exact
import ShelfQuery.Proofs.Compiler.Steps

set_option autoImplicit false

namespace ShelfQuery.Expression

open ShelfQuery.Sql ShelfQuery.Schema ShelfQuery.Calendar

def Retains {α : Type} (m : Walk α) : Prop := ∀ n, n.readsColumns = true → (m.run n).2.readsColumns = true

def ReadsColumn {α : Type} (m : Walk α) : Prop := ∀ n, (m.run n).2.readsColumns = true

section

variable {α β : Type} {m : Walk α} {f : α → Walk β}

namespace Retains

theorem bind (hm : Retains m) (hf : ∀ a, Retains (f a)) : Retains (m >>= f) := by
  intro n hn
  exact hf _ _ (hm n hn)

theorem pure (a : α) : Retains (pure a : Walk α) := fun _ hn => hn

theorem noteAggregation (c : Context) (scope : Scope) (pos : Nat) : Retains (noteAggregation c scope pos) := by
  refine bind (fun _ hn => hn) fun _ => bind (fun _ hn => hn) fun n => ?_
  split
  · exact bind (fun _ hn => hn) fun _ _ hn => hn
  · exact pure _

theorem of_steps (h : Steps (fun _ => True) m m) : Retains m := by
  replace h : ∃ m', Steps (fun _ => True) m m' := ⟨m, h⟩
  obtain ⟨m', h⟩ := h
  induction h with
  | pure a => exact pure a
  | bind _ _ ihm ihf => exact ihm.bind ihf
  | readClock | note => exact fun _ hn => hn
  | noteAggregation c scope => exact noteAggregation c scope _

end Retains

theorem ReadsColumn.bind (hm : ReadsColumn m) (hf : ∀ a, Retains (f a)) : ReadsColumn (m >>= f) := by
  intro n
  exact hf _ _ (hm n)

end

variable {c : Context}

theorem visitColumn_reads {name : String} {column : Column} (hcolumn : c.schema.find? name = some column)
    (husable : column.datatype.isUsable = true) (pos : Nat) : ReadsColumn (visitColumn c name pos) := by
  have hfilter : ((c.schema.find? name).filter fun column => column.datatype.isUsable) = some column :=
    Option.filter_eq_some_iff.mpr ⟨hcolumn, husable⟩
  have hmodify : ReadsColumn (modify fun n => { n with readsColumns := true }) := fun _ => rfl
  rw [visitColumn, hfilter]
  apply hmodify.bind
  intro _
  extract_lets type sql converter
  cases converterUnit? converter with
  | none => exact .pure _
  | some unit => exact .pure _

theorem readsColumns_of_compile {tree : Tree} {compiled : Compiled} (h : tree.compile c = .ok compiled)
    (hreads : ReadsColumn (visit c {} tree)) : compiled.readsColumns = true := by
  have hnoted := hreads {}
  simp only [Tree.compile] at h
  split at h
  next t notes hrun =>
  rw [hrun] at hnoted
  split at h
  · cases h
    exact hnoted
  · cases h

end ShelfQuery.Expression
