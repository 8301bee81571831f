import Mathlib.Data.List.Sort

set_option autoImplicit false

namespace ShelfQuery.Data

variable {α β κ : Type} [LinearOrder κ] {key : α → κ} {f : α → β} {xs ys : List α}

def itemsOf (key : α → κ) (k : κ) (xs : List α) : List α := xs.filter fun x => key x = k

theorem mem_itemsOf_iff {k : κ} {x : α} : x ∈ itemsOf key k xs ↔ x ∈ xs ∧ key x = k := by
  rw [itemsOf, List.mem_filter, decide_eq_true_eq]

def sortBy (key : α → κ) (xs : List α) : List α := xs.mergeSort fun x y => key x ≤ key y

theorem sortBy_perm (key : α → κ) (xs : List α) : (sortBy key xs).Perm xs := List.mergeSort_perm ..

theorem keyLe_trans (key : α → κ) (x y z : α) (hxy : decide (key x ≤ key y) = true) (hyz : decide (key y ≤ key z) = true) :
    decide (key x ≤ key z) = true :=
  decide_eq_true (le_trans (of_decide_eq_true hxy) (of_decide_eq_true hyz))

theorem keyLe_total (key : α → κ) (x y : α) : (decide (key x ≤ key y) || decide (key y ≤ key x)) = true := by
  simpa using le_total (key x) (key y)

theorem sortBy_pairwise (key : α → κ) (xs : List α) : (sortBy key xs).Pairwise fun x y => key x ≤ key y :=
  (List.pairwise_mergeSort (keyLe_trans key) (keyLe_total key) xs).imp of_decide_eq_true

theorem itemsOf_sortBy (key : α → κ) (k : κ) (xs : List α) : itemsOf key k (sortBy key xs) = itemsOf key k xs := by
  have hpairwise : (itemsOf key k xs).Pairwise fun x y => decide (key x ≤ key y) = true := by
    refine List.pairwise_of_forall_mem_list fun x hx y hy => ?_
    simp [(mem_itemsOf_iff.mp hx).2, (mem_itemsOf_iff.mp hy).2]
  have hsublist : (itemsOf key k xs).Sublist (sortBy key xs) :=
    List.sublist_mergeSort (keyLe_trans key) (keyLe_total key) hpairwise List.filter_sublist
  have hitems : (itemsOf key k xs).Sublist (itemsOf key k (sortBy key xs)) := by
    have hfilter := hsublist.filter fun x => decide (key x = k)
    rwa [itemsOf, List.filter_filter, funext fun x => Bool.and_self (decide (key x = k))] at hfilter
  exact (hitems.eq_of_length ((sortBy_perm key xs).filter _).length_eq.symm).symm

theorem map_eq_of_itemsOf (hxs : xs.Pairwise fun x y => key x ≤ key y) (hys : ys.Pairwise fun x y => key x ≤ key y)
    (h : ∀ k, (itemsOf key k xs).map f = (itemsOf key k ys).map f) : xs.map f = ys.map f := by
  have hmem {xs ys : List α} (h : ∀ k, (itemsOf key k xs).map f = (itemsOf key k ys).map f) {x : α} (hx : x ∈ xs) :
      ∃ y ∈ ys, key y = key x := by
    have hne : (itemsOf key (key x) ys).map f ≠ [] := by
      rw [← h, ne_eq, List.map_eq_nil_iff]
      exact List.ne_nil_of_mem (mem_itemsOf_iff.mpr ⟨hx, rfl⟩)
    obtain ⟨y, hy⟩ := List.exists_mem_of_ne_nil _ fun hnil => hne (List.map_eq_nil_iff.mpr hnil)
    exact ⟨y, mem_itemsOf_iff.mp hy⟩
  induction xs generalizing ys with
  | nil =>
    cases ys with
    | nil => rfl
    | cons y ys =>
      obtain ⟨x, hx, -⟩ := hmem (fun k => (h k).symm) (List.mem_cons_self (a := y) (l := ys))
      cases hx
  | cons x xs ih =>
    cases ys with
    | nil =>
      obtain ⟨y, hy, -⟩ := hmem h (List.mem_cons_self (a := x) (l := xs))
      cases hy
    | cons y ys =>
      have hle {x y : α} {xs ys : List α} (hxs : (x :: xs).Pairwise fun x y => key x ≤ key y)
          (h : ∀ k, (itemsOf key k (y :: ys)).map f = (itemsOf key k (x :: xs)).map f) : key x ≤ key y := by
        obtain ⟨z, hz, hkey⟩ := hmem h (List.mem_cons_self (a := y) (l := ys))
        rw [← hkey]
        rcases List.mem_cons.mp hz with rfl | hz
        · exact le_rfl
        · exact (List.pairwise_cons.mp hxs).1 z hz
      -- the first items have the least key, so they are the first of one class
      have hkey : key x = key y := le_antisymm (hle hxs fun k => (h k).symm) (hle hys h)
      have hhead := h (key x)
      simp only [itemsOf, List.filter_cons, hkey, decide_true, if_true, List.map_cons] at hhead
      obtain ⟨hf, -⟩ := List.cons.inj hhead
      rw [List.map_cons, List.map_cons, hf]
      refine congrArg _ (ih (List.pairwise_cons.mp hxs).2 (List.pairwise_cons.mp hys).2 fun k => ?_)
      have hk := h k
      simp only [itemsOf, List.filter_cons, hkey] at hk
      split at hk
      · exact (List.cons.inj hk).2
      · exact hk

theorem itemsOf_of_map_eq (hperm : xs.Perm ys) (hxs : xs.Pairwise fun x y => key x ≤ key y)
    (hys : ys.Pairwise fun x y => key x ≤ key y) (h : xs.map f = ys.map f) (k : κ) :
    (itemsOf key k xs).map f = (itemsOf key k ys).map f := by
  have hkeys : xs.map key = ys.map key :=
    (hperm.map key).eq_of_pairwise (fun _ _ _ _ => le_antisymm) (List.pairwise_map.mpr hxs) (List.pairwise_map.mpr hys)
  have hitems (zs : List α) :
      (itemsOf key k zs).map f = (((zs.map key).zip (zs.map f)).filter fun p => p.1 = k).map Prod.snd := by
    rw [itemsOf]
    induction zs with
    | nil => rfl
    | cons z zs ih =>
      simp only [List.filter_cons, List.map_cons, List.zip_cons_cons]
      split <;> simp [ih]
  rw [hitems, hitems, hkeys, h]

/-- Two arrangements are sorted to the same images if and only if their classes have the same images. -/
theorem sortBy_map_eq_iff (hperm : xs.Perm ys) :
    (sortBy key xs).map f = (sortBy key ys).map f ↔ ∀ k, (itemsOf key k xs).map f = (itemsOf key k ys).map f := by
  have hsorted : (sortBy key xs).Perm (sortBy key ys) :=
    (sortBy_perm key xs).trans (hperm.trans (sortBy_perm key ys).symm)
  constructor
  · intro h k
    rw [← itemsOf_sortBy key k xs, ← itemsOf_sortBy key k ys]
    exact itemsOf_of_map_eq hsorted (sortBy_pairwise key xs) (sortBy_pairwise key ys) h k
  · intro h
    refine map_eq_of_itemsOf (sortBy_pairwise key xs) (sortBy_pairwise key ys) fun k => ?_
    rw [itemsOf_sortBy, itemsOf_sortBy, h]

end ShelfQuery.Data
