import Mathlib.Data.List.Nodup

set_option autoImplicit false

namespace ShelfQuery

theorem exists_zip_of_mem {α β : Type} {xs : List α} {ys : List β} (hlen : xs.length = ys.length) {y : β}
    (hy : y ∈ ys) : ∃ x, (x, y) ∈ xs.zip ys := by
  induction ys generalizing xs with
  | nil => exact nomatch hy
  | cons z ys ih =>
    cases xs with
    | nil => exact nomatch hlen
    | cons x xs =>
      rcases List.mem_cons.mp hy with rfl | hy
      · exact ⟨x, by simp⟩
      · obtain ⟨w, hw⟩ := ih (Nat.succ.inj hlen) hy
        exact ⟨w, List.mem_cons_of_mem _ hw⟩

theorem forall_of_zip {α β : Type} {xs : List α} {ys : List β} {P : β → Prop} (hlen : xs.length = ys.length)
    (h : ∀ ⦃x y⦄, (x, y) ∈ xs.zip ys → P y) : ∀ y ∈ ys, P y := by
  intro y hy
  obtain ⟨x, hx⟩ := exists_zip_of_mem hlen hy
  exact h hx

theorem map_eq_of_zip {α β γ : Type} {g : α → γ} {k : β → γ} {xs : List α} {ys : List β} (hlen : xs.length = ys.length)
    (h : ∀ ⦃x y⦄, (x, y) ∈ xs.zip ys → k y = g x) : ys.map k = xs.map g := by
  induction ys generalizing xs with
  | nil =>
    cases xs with
    | nil => rfl
    | cons => exact nomatch hlen
  | cons y ys ih =>
    cases xs with
    | nil => exact nomatch hlen
    | cons x xs =>
      rw [List.map_cons, List.map_cons, h (List.mem_cons_self ..),
        ih (Nat.succ.inj hlen) fun a b hab => h (List.mem_cons_of_mem _ hab)]

theorem any_eq_of_zip {α β : Type} {xs : List α} {ys : List β} {f : α → Bool} {g : β → Bool}
    (hlen : xs.length = ys.length) (h : ∀ ⦃x y⦄, (x, y) ∈ xs.zip ys → g y = f x) : ys.any g = xs.any f := by
  induction xs generalizing ys with
  | nil => cases ys <;> first | rfl | exact nomatch hlen
  | cons x xs ih =>
    cases ys with
    | nil => exact nomatch hlen
    | cons y ys =>
      have hrest := ih (Nat.succ.inj hlen) fun a b hmem => h (List.mem_cons_of_mem _ hmem)
      rw [List.any_cons, List.any_cons, hrest, h (List.mem_cons_self ..)]

theorem find?_key_eq_some_iff {α κ : Type} [DecidableEq κ] {key : α → κ} {l : List α} (h : (l.map key).Nodup) {k : κ}
    {a : α} : l.find? (fun b => key b == k) = some a ↔ a ∈ l ∧ key a = k := by
  constructor
  · intro hfind
    exact ⟨List.mem_of_find?_eq_some hfind, by simpa using List.find?_some hfind⟩
  · rintro ⟨hmem, rfl⟩
    cases hfind : l.find? fun b => key b == key a with
    | none => simpa using List.find?_eq_none.mp hfind a hmem
    | some b =>
      have hkey : key b = key a := by simpa using List.find?_some hfind
      rw [List.inj_on_of_nodup_map h (List.mem_of_find?_eq_some hfind) hmem hkey]

end ShelfQuery
