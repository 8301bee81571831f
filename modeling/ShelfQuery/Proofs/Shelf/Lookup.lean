import ShelfQuery.Proofs.Data.Lists
import ShelfQuery.Recipe.Basic

set_option autoImplicit false

namespace ShelfQuery.Shelf

open ShelfQuery.Expression ShelfQuery.Sql ShelfQuery.Recipe

namespace Definition

variable {d d' : Definition} {id key : String} {entry : Entry}

def Distinct (d : Definition) : Prop := (d.map Prod.fst).Nodup

theorem find?_eq_some_iff (h : d.Distinct) : d.find? id = some entry ↔ (id, entry) ∈ d := by
  unfold find?
  rw [Option.map_eq_some_iff]
  constructor
  · rintro ⟨⟨key, found⟩, hfind, rfl⟩
    obtain ⟨hmem, rfl⟩ := (find?_key_eq_some_iff h).mp hfind
    exact hmem
  · intro hmem
    exact ⟨(id, entry), (find?_key_eq_some_iff h).mpr ⟨hmem, rfl⟩, rfl⟩

structure Rearranges (d d' : Definition) : Prop where
  length_eq : d.length = d'.length
  find?_eq : ∀ id, d.find? id = d'.find? id

theorem rearranges_of_find?_eq (h : d.Distinct) (h' : d'.Distinct) (hfind : ∀ id, d.find? id = d'.find? id) :
    d.Rearranges d' := by
  have hperm : d.Perm d' := by
    rw [List.perm_ext_iff_of_nodup h.of_map h'.of_map]
    rintro ⟨id, entry⟩
    rw [← find?_eq_some_iff h, ← find?_eq_some_iff h', hfind]
  exact ⟨hperm.length_eq, hfind⟩

theorem mem_keys_put : key ∈ (Shelf.put id entry d).map Prod.fst ↔ key = id ∨ key ∈ d.map Prod.fst := by
  induction d with
  | nil => simp [Shelf.put]
  | cons e rest ih =>
    unfold Shelf.put
    split
    · next heq =>
      rw [beq_iff_eq] at heq
      simp [heq]
    · rw [List.map_cons, List.mem_cons, ih, List.map_cons, List.mem_cons]
      tauto

theorem Distinct.put (h : d.Distinct) (id : String) (entry : Entry) : Distinct (Shelf.put id entry d) := by
  induction d with
  | nil => exact List.nodup_singleton id
  | cons e rest ih =>
    obtain ⟨hnew, hrest⟩ := List.nodup_cons.mp h
    unfold Shelf.put
    split
    · next heq =>
      rw [beq_iff_eq] at heq
      exact heq ▸ h
    · next hne =>
      rw [beq_iff_eq] at hne
      refine List.nodup_cons.mpr ⟨fun hmem => ?_, ih hrest⟩
      exact (mem_keys_put.mp hmem).elim hne hnew

end Definition

namespace Definition.Rearranges

variable {w : Workbench} {d d' : Definition}

theorem expandWith (h : d.Rearranges d') (fuel : Nat) (path : List String) (text : String) :
    expandWith d fuel path text = Shelf.expandWith d' fuel path text := by
  induction fuel generalizing path text with
  | zero => rfl
  | succ fuel ih =>
    unfold Shelf.expandWith
    refine congrArg (expandSegments · (segments text)) (funext fun name => ?_)
    rw [h.find?_eq name]
    simp only [ih]

theorem expandReferences (h : d.Rearranges d') (id text : String) :
    expandReferences id text d = Shelf.expandReferences id text d' := by
  unfold Shelf.expandReferences
  rw [h.length_eq, h.expandWith]

section

variable {m : Type → Type} [MonadExceptOf IngredientError m] (read : String → Options → m Field)

theorem compileText (h : d.Rearranges d') : compileText read d = Shelf.compileText read d' := by
  funext id text options
  unfold Shelf.compileText
  rw [h.expandReferences]

variable [Monad m]

theorem compileRole (h : d.Rearranges d') : compileRole read d = Shelf.compileRole read d' := by
  funext id kind role text
  unfold Shelf.compileRole
  rw [h.compileText]

theorem compileQuickSelects (h : d.Rearranges d') (id : String) (quicks : List QuickSelect) :
    compileQuickSelects read d id quicks = Shelf.compileQuickSelects read d' id quicks := by
  induction quicks with
  | nil => rfl
  | cons q rest ih =>
    unfold Shelf.compileQuickSelects
    rw [h.compileText, ih]

end

theorem build (h : d.Rearranges d') : Ingredient.build w d = Ingredient.build w d' := by
  funext id spec
  unfold Ingredient.build Ingredient.compile Shelf.resolveKind
  simp only [h.compileText, h.compileRole, h.compileQuickSelects]

theorem find (h : d.Rearranges d') : Shelf.find ⟨w, d⟩ = Shelf.find ⟨w, d'⟩ := by
  funext key kinds
  unfold Shelf.find Shelf.compileEntry
  simp only [h.find?_eq, h.build]

theorem parse (h : d.Rearranges d') : Shelf.parse ⟨w, d⟩ = Shelf.parse ⟨w, d'⟩ := by
  funext text options
  unfold Shelf.parse Shelf.parseWith
  simp only [h.expandReferences]

theorem resolveFilter (h : d.Rearranges d') : Recipe.resolveFilter ⟨w, d⟩ = Recipe.resolveFilter ⟨w, d'⟩ := by
  funext filter
  unfold Recipe.resolveFilter Recipe.resolveFilterWith
  simp only [h.find?_eq, h.find, h.parse]

theorem query (h : d.Rearranges d') (r : Recipe) : r.query ⟨w, d⟩ = r.query ⟨w, d'⟩ := by
  have hconditions : resolveFilterWith (Shelf.find ⟨w, d⟩) (Shelf.parse ⟨w, d⟩) d =
      resolveFilterWith (Shelf.find ⟨w, d'⟩) (Shelf.parse ⟨w, d'⟩) d' := h.resolveFilter
  unfold Recipe.query Recipe.queryWith
  dsimp only
  rw [hconditions, h.find]

end Definition.Rearranges

end ShelfQuery.Shelf
