import ShelfQuery.Digest.Sha256

set_option autoImplicit false

namespace ShelfQuery.Digest

theorem toList_loop (b : ByteArray) (i : Nat) (r : List UInt8) :
    ByteArray.toList.loop b i r = r.reverse ++ b.data.toList.drop i := by
  fun_induction ByteArray.toList.loop b i r with
  | case1 i r hi ih =>
    have hi' : i < b.data.toList.length := by simpa using hi
    have hget : b.get! i = b.data.toList[i] := by
      simp only [ByteArray.get!]
      rw [getElem!_pos b.data i (by simpa using hi')]
      simp
    rw [ih, List.drop_eq_getElem_cons hi', hget]
    simp
  | case2 i r hi =>
    have hi' : b.data.toList.length ≤ i := by simpa using hi
    rw [List.drop_eq_nil_of_le hi', List.append_nil]

theorem bytes_eq (s : String) : bytes s = s.toByteArray.data.toList := by
  rw [bytes, String.toUTF8_eq_toByteArray, ByteArray.toList, toList_loop]
  rfl

theorem bytes_injective {s t : String} (h : bytes s = bytes t) : s = t := by
  rw [bytes_eq, bytes_eq, Array.toList_inj, ← ByteArray.ext_iff] at h
  exact String.toByteArray_inj.mp h

theorem bytes_append (s t : String) : bytes (s ++ t) = bytes s ++ bytes t := by
  rw [bytes_eq, bytes_eq, bytes_eq, String.toByteArray_append, ByteArray.toList_data_append]

theorem bytes_eq_flatMap (s : String) : bytes s = s.toList.flatMap String.utf8EncodeChar := by
  rw [bytes_eq, ← String.utf8Encode_toList, List.utf8Encode, List.toList_data_toByteArray]

theorem zero_eq_ofNat {n : Nat} : (0 : UInt8) = UInt8.ofNat n ↔ n % 256 = 0 := by
  rw [← UInt8.toNat_inj, UInt8.toNat_ofNat', eq_comm]
  rfl

theorem zero_mem_utf8EncodeChar {c : Char} : 0 ∈ String.utf8EncodeChar c ↔ c = '\x00' := by
  have hnull : c = '\x00' ↔ c.val.toNat = 0 := by
    rw [← Char.toNat_inj]
    rfl
  rw [hnull]
  unfold String.utf8EncodeChar
  dsimp only
  split
  · rw [List.mem_singleton, zero_eq_ofNat]
    omega
  · split
    · simp only [List.mem_cons, List.not_mem_nil, or_false, zero_eq_ofNat]
      omega
    · split
      · simp only [List.mem_cons, List.not_mem_nil, or_false, zero_eq_ofNat]
        omega
      · simp only [List.mem_cons, List.not_mem_nil, or_false, zero_eq_ofNat]
        omega

theorem zero_mem_bytes {s : String} : 0 ∈ bytes s ↔ '\x00' ∈ s.toList := by
  rw [bytes_eq_flatMap, List.mem_flatMap]
  constructor
  · rintro ⟨c, hc, hzero⟩
    rwa [← zero_mem_utf8EncodeChar.mp hzero]
  · intro h
    exact ⟨_, h, zero_mem_utf8EncodeChar.mpr rfl⟩

theorem hexOfByte_injective {a b : UInt8} (h : hexOfByte a = hexOfByte b) : a = b := by
  have hdigit : ∀ m < 16, ∀ n < 16, (if m < 10 then Char.ofNat (48 + m) else Char.ofNat (87 + m)) =
      (if n < 10 then Char.ofNat (48 + n) else Char.ofNat (87 + n)) → m = n := by decide
  simp only [hexOfByte, List.cons.injEq, and_true] at h
  have ha := a.toNat_lt
  have hb := b.toNat_lt
  have hhigh := hdigit _ (by omega) _ (by omega) h.1
  have hlow := hdigit _ (by omega) _ (by omega) h.2
  exact UInt8.toNat_inj.mp (by omega)

theorem flatMap_hex_injective {xs ys : List UInt8} (h : xs.flatMap hexOfByte = ys.flatMap hexOfByte) : xs = ys := by
  induction xs generalizing ys with
  | nil =>
    cases ys with
    | nil => rfl
    | cons y ys => exact nomatch h
  | cons x xs ih =>
    cases ys with
    | nil => exact nomatch h
    | cons y ys =>
      rw [List.flatMap_cons, List.flatMap_cons] at h
      obtain ⟨hx, hrest⟩ := List.append_inj h rfl
      rw [hexOfByte_injective hx, ih hrest]

theorem hexDigest_eq_iff {m n : List UInt8} : hexDigest m = hexDigest n ↔ sha256 m = sha256 n := by
  rw [hexDigest, hexDigest, String.ofList_inj]
  exact ⟨flatMap_hex_injective, fun h => by rw [h]⟩

/-- Two messages that differ and have one digest. -/
def Collision (m n : List UInt8) : Prop := m ≠ n ∧ sha256 m = sha256 n

end ShelfQuery.Digest
