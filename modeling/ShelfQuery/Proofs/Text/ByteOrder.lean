import Mathlib.Tactic.SplitIfs
import ShelfQuery.Proofs.Digest.Bytes
import ShelfQuery.Text.Words

set_option autoImplicit false

namespace ShelfQuery.Text

open ShelfQuery.Digest

theorem append_lt_append_iff (l u v : List UInt8) : l ++ u < l ++ v ↔ u < v := by
  induction l with
  | nil => rfl
  | cons b l ih =>
    rw [List.cons_append, List.cons_append, List.cons_lt_cons_iff, ih]
    simp

theorem ofNat_eq_ofNat_iff {m n : Nat} (hm : m < 256) (hn : n < 256) : UInt8.ofNat m = UInt8.ofNat n ↔ m = n := by
  rw [← UInt8.toNat_inj, UInt8.toNat_ofNat_of_lt' hm, UInt8.toNat_ofNat_of_lt' hn]

theorem ofNat_lt_ofNat_iff {m n : Nat} (hm : m < 256) (hn : n < 256) : UInt8.ofNat m < UInt8.ofNat n ↔ m < n := by
  rw [UInt8.lt_iff_toNat_lt, UInt8.toNat_ofNat_of_lt' hm, UInt8.toNat_ofNat_of_lt' hn]

theorem utf8EncodeChar_append_lt {c d : Char} (h : c.toNat < d.toNat) (u v : List UInt8) :
    String.utf8EncodeChar c ++ u < String.utf8EncodeChar d ++ v := by
  have hlt : c.val.toNat < d.val.toNat := h
  have hmax : d.val.toNat < 0x110000 := by
    rcases d.valid with hvalid | hvalid
    · exact Nat.lt_trans hvalid (by decide)
    · exact hvalid.2
  -- the places of the bytes, each from the one after it
  have hplaces (n : Nat) : n / 4096 = n / 64 / 64 ∧ n / 262144 = n / 64 / 64 / 64 := by omega
  unfold String.utf8EncodeChar
  simp only [hplaces]
  -- one case for each pair of lengths
  split_ifs <;>
    simp (disch := omega) only [List.cons_append, List.nil_append, List.cons_lt_cons_iff, ofNat_lt_ofNat_iff,
      ofNat_eq_ofNat_iff] <;>
    omega

theorem before_iff_flatMap_lt (a b : List Char) :
    before a b = true ↔ a.flatMap String.utf8EncodeChar < b.flatMap String.utf8EncodeChar := by
  have hnonempty (c : Char) (u : List UInt8) : [] < String.utf8EncodeChar c ++ u := by
    unfold String.utf8EncodeChar
    dsimp only
    split_ifs <;> exact List.nil_lt_cons ..
  induction a generalizing b with
  | nil =>
    cases b with
    | nil => simp [before]
    | cons d b => exact iff_of_true rfl (hnonempty d _)
  | cons c a ih =>
    cases b with
    | nil => exact iff_of_false Bool.false_ne_true (List.not_lt_nil _)
    | cons d b =>
      rw [List.flatMap_cons, List.flatMap_cons]
      rcases Nat.lt_trichotomy c.toNat d.toNat with hlt | heq | hgt
      · exact iff_of_true (by simp [before, hlt]) (utf8EncodeChar_append_lt hlt _ _)
      · obtain rfl := Char.toNat_inj.mp heq
        rw [append_lt_append_iff]
        simpa [before] using ih b
      · have hne : c ≠ d := fun h => by simp [h] at hgt
        have hbefore : before (c :: a) (d :: b) = false := by simp [before, hne, Nat.le_of_lt hgt]
        exact iff_of_false (by simp [hbefore]) (List.lt_asymm (utf8EncodeChar_append_lt hgt _ _))

theorem before_iff_bytes_lt (s t : String) : before s.toList t.toList = true ↔ bytes s < bytes t := by
  rw [bytes_eq_flatMap, bytes_eq_flatMap, before_iff_flatMap_lt]

end ShelfQuery.Text
