import Mathlib.Data.List.Forall2
import ShelfQuery.Proofs.Digest.Bytes
import ShelfQuery.Proofs.Number.Digits
import ShelfQuery.Store.ResultCache

set_option autoImplicit false

/-!
# What a cache key tells

The bytes of a statement are its text and its parameters with a null byte before each, so they tell the statement as
long as no null character stands in a text.
-/

namespace ShelfQuery.Store

open ShelfQuery.Rows ShelfQuery.Digest
open ShelfQuery.Text (NullFree nullFree_append)

/-- The same parameter, where reals are told by their texts. -/
inductive SameParameter : Cell → Cell → Prop where
  | same (c : Cell) : SameParameter c c
  | real {x y : Float} : Number.plain x = Number.plain y → SameParameter (.real x) (.real y)

theorem taggedText_eq_iff {c d : Cell} : taggedText c = taggedText d ↔ SameParameter c d := by
  constructor
  · intro h
    -- the first character tells the kind
    have hhead := congrArg (fun t => t.toList.head?) h
    cases c <;> cases d <;> simp [taggedText] at hhead
    case null.null => exact .same _
    case int.int m n =>
      rw [Number.toString_inj ((String.append_right_inj "i:").mp h)]
      exact .same _
    case real.real x y => exact .real ((String.append_right_inj "r:").mp h)
    case text.text s t =>
      rw [(String.append_right_inj "t:").mp h]
      exact .same _
  · rintro (_ | h)
    · rfl
    · rw [taggedText, taggedText, h]

theorem nullFree_taggedText {cell : Cell} (h : ∀ s, cell = .text s → NullFree s) : NullFree (taggedText cell) := by
  cases cell with
  | null => decide
  | int n => exact nullFree_append.mpr ⟨by decide, Number.nullFree_int n⟩
  | real x => exact nullFree_append.mpr ⟨by decide, Number.nullFree_plain x⟩
  | text s => exact nullFree_append.mpr ⟨by decide, h s rfl⟩

theorem parameterBytes_congr {params₁ params₂ : List Cell} (h : List.Forall₂ SameParameter params₁ params₂)
    (index : Nat) : parameterBytes index params₁ = parameterBytes index params₂ := by
  induction h generalizing index with
  | nil => rfl
  | cons hcell _ ih => rw [parameterBytes, parameterBytes, taggedText_eq_iff.mpr hcell, ih]

/-- What follows the last null byte is told by the whole. -/
theorem append_zero_inj {xs ys as bs : List UInt8} (ha : 0 ∉ as) (hb : 0 ∉ bs) (h : xs ++ 0 :: as = ys ++ 0 :: bs) :
    xs = ys ∧ as = bs := by
  rcases List.append_eq_append_iff.mp h with ⟨zs, rfl, hzs⟩ | ⟨zs, rfl, hzs⟩
  · cases zs with
    | nil => simpa using hzs
    | cons z zs =>
      rw [List.cons_append, List.cons.injEq] at hzs
      exact absurd (by simp [hzs.2]) ha
  · cases zs with
    | nil => simpa [eq_comm] using hzs
    | cons z zs =>
      rw [List.cons_append, List.cons.injEq] at hzs
      exact absurd (by simp [hzs.2]) hb

section

variable {params params₁ params₂ : List Cell}

/-- No null character stands in a text among the parameters. -/
def NullFreeTexts (params : List Cell) : Prop := ∀ s, Cell.text s ∈ params → NullFree s

theorem zero_notMem_parameter (h : NullFreeTexts params) (index : Nat) {cell : Cell} (hcell : cell ∈ params) :
    0 ∉ bytes (toString index ++ "=" ++ taggedText cell) := by
  rw [zero_mem_bytes]
  refine nullFree_append.mpr ⟨nullFree_append.mpr ⟨Number.nullFree_nat index, by decide⟩, ?_⟩
  refine nullFree_taggedText ?_
  rintro s rfl
  exact h s hcell

theorem NullFreeTexts.tail {cell : Cell} (h : NullFreeTexts (cell :: params)) : NullFreeTexts params :=
  fun s hs => h s (List.mem_cons_of_mem cell hs)

theorem parameterBytes_count_zero (h : NullFreeTexts params) (index : Nat) :
    (parameterBytes index params).count 0 = params.length := by
  induction params generalizing index with
  | nil => rfl
  | cons cell rest ih =>
    have hcell := List.count_eq_zero.mpr (zero_notMem_parameter h index (List.mem_cons_self ..))
    rw [parameterBytes, List.count_append, List.count_cons_self, hcell, ih h.tail, List.length_cons]
    omega

theorem parameterBytes_inj (h₁ : NullFreeTexts params₁) (h₂ : NullFreeTexts params₂)
    (hlength : params₁.length = params₂.length) {index : Nat} {xs ys : List UInt8}
    (h : xs ++ parameterBytes index params₁ = ys ++ parameterBytes index params₂) :
    xs = ys ∧ List.Forall₂ SameParameter params₁ params₂ := by
  induction params₁ generalizing params₂ index xs ys with
  | nil =>
    obtain rfl := List.length_eq_zero_iff.mp hlength.symm
    exact ⟨by simpa [parameterBytes] using h, .nil⟩
  | cons c rest₁ ih =>
    cases params₂ with
    | nil => exact nomatch hlength
    | cons d rest₂ =>
      simp only [parameterBytes, ← List.append_assoc] at h
      obtain ⟨hfirst, hrest⟩ := ih h₁.tail h₂.tail (Nat.succ.inj hlength) h
      obtain ⟨hxs, hbytes⟩ := append_zero_inj (zero_notMem_parameter h₁ index (List.mem_cons_self ..))
        (zero_notMem_parameter h₂ index (List.mem_cons_self ..)) hfirst
      exact ⟨hxs, .cons (taggedText_eq_iff.mp ((String.append_right_inj _).mp (bytes_injective hbytes))) hrest⟩

end

section

variable {sql₁ sql₂ : String} {params₁ params₂ : List Cell}

theorem statementBytes_inj (h₁ : NullFreeTexts params₁) (h₂ : NullFreeTexts params₂)
    (hsql : params₁.length = params₂.length ∨ NullFree sql₁ ∧ NullFree sql₂)
    (h : statementBytes sql₁ params₁ = statementBytes sql₂ params₂) :
    sql₁ = sql₂ ∧ List.Forall₂ SameParameter params₁ params₂ := by
  have hlength : params₁.length = params₂.length := by
    rcases hsql with hlength | ⟨hsql₁, hsql₂⟩
    · exact hlength
    · have hcount := congrArg (List.count 0) h
      have hzero₁ := List.count_eq_zero.mpr (mt zero_mem_bytes.mp hsql₁)
      have hzero₂ := List.count_eq_zero.mpr (mt zero_mem_bytes.mp hsql₂)
      rwa [statementBytes, statementBytes, List.count_append, List.count_append, hzero₁, hzero₂, zero_add, zero_add,
        parameterBytes_count_zero h₁, parameterBytes_count_zero h₂] at hcount
  obtain ⟨hbytes, hparams⟩ := parameterBytes_inj h₁ h₂ hlength h
  exact ⟨bytes_injective hbytes, hparams⟩

/-- Statements with a key in common are the same or their bytes collide, if no null character stands in
their texts. Those of the statements themselves matter only if the numbers of parameters differ. -/
theorem cacheKey_eq_iff (h₁ : NullFreeTexts params₁) (h₂ : NullFreeTexts params₂)
    (hsql : params₁.length = params₂.length ∨ NullFree sql₁ ∧ NullFree sql₂) :
    cacheKey sql₁ params₁ = cacheKey sql₂ params₂ ↔
      (sql₁ = sql₂ ∧ List.Forall₂ SameParameter params₁ params₂) ∨
        Collision (statementBytes sql₁ params₁) (statementBytes sql₂ params₂) := by
  rw [cacheKey, cacheKey, String.append_right_inj, hexDigest_eq_iff]
  constructor
  · intro h
    by_cases hbytes : statementBytes sql₁ params₁ = statementBytes sql₂ params₂
    · exact .inl (statementBytes_inj h₁ h₂ hsql hbytes)
    · exact .inr ⟨hbytes, h⟩
  · rintro (⟨rfl, hparams⟩ | ⟨-, h⟩)
    · rw [statementBytes, statementBytes, parameterBytes_congr hparams]
    · exact h

end

/-- A null character in a text forges a parameter. -/
theorem cacheKey_forged (sql s : String) (cell : Cell) :
    cacheKey sql [.text (s ++ "\x00" ++ "2=" ++ taggedText cell)] = cacheKey sql [.text s, cell] := by
  have hzero : bytes "\x00" = [0] := by
    rw [bytes_eq_flatMap]
    decide
  have hindex : bytes "2=" = bytes (toString 2) ++ bytes "=" := by
    rw [← bytes_append]
    rfl
  have htagged (s : String) : taggedText (.text s) = "t:" ++ s := rfl
  have hbytes : statementBytes sql [.text (s ++ "\x00" ++ "2=" ++ taggedText cell)] =
      statementBytes sql [.text s, cell] := by
    simp [statementBytes, parameterBytes, htagged, bytes_append, hzero, hindex]
  rw [cacheKey, cacheKey, hbytes]

/-- The keys of swapped parameters differ unless their bytes collide. -/
theorem cacheKey_swapped :
    let sql := "SELECT ?1 AS p1, ?2 AS p2"
    let swapped : List Cell := [.text "1", .int 1]
    NullFreeTexts [.int 1, .text "1"] ∧ NullFreeTexts swapped ∧
      (cacheKey sql [.int 1, .text "1"] = cacheKey sql swapped →
        Collision (statementBytes sql [.int 1, .text "1"]) (statementBytes sql swapped)) := by
  have h₁ : NullFreeTexts [.int 1, .text "1"] := by simpa [NullFreeTexts] using (by decide : NullFree "1")
  have h₂ : NullFreeTexts [.text "1", .int 1] := by simpa [NullFreeTexts] using (by decide : NullFree "1")
  refine ⟨h₁, h₂, fun h => ?_⟩
  rcases (cacheKey_eq_iff h₁ h₂ (.inl rfl)).mp h with ⟨-, hsame⟩ | hcollision
  · cases hsame with
    | cons hfirst _ => exact nomatch hfirst
  · exact hcollision

end ShelfQuery.Store
