import ShelfQuery.Proofs.Compiler.Clock
import ShelfQuery.Shelf.Ingredient

set_option autoImplicit false

namespace ShelfQuery.Shelf

open ShelfQuery.Expression ShelfQuery.Schema ShelfQuery.Sql ShelfQuery.Rows

abbrev Caching (ε : Type) := ExceptT ε (StateM FieldCache)

def Workbench.Valid (w : Workbench) (cache : FieldCache) : Prop :=
  cache.Timeless w.schema w.dialect (some w.now)

/-- From every valid cache `m` comes to the result `a`, and leaves a valid one. -/
def Gives {α : Type} (w : Workbench) (m : StateM FieldCache α) (a : α) : Prop :=
  ∀ cache, w.Valid cache → (m.run cache).1 = a ∧ w.Valid (m.run cache).2

namespace Gives

variable {w : Workbench} {α β ε ε' : Type}

theorem pure (a : α) : Gives w (pure a) a := fun _ hvalid => ⟨rfl, hvalid⟩

theorem andThen {m : StateM FieldCache α} {a : α} {f : α → StateM FieldCache β} {b : β} (hm : Gives w m a)
    (hf : Gives w (f a) b) : Gives w (m >>= f) b := by
  intro cache hvalid
  obtain ⟨hresult, hafter⟩ := hm cache hvalid
  have hstep : (m >>= f).run cache = (f a).run (m.run cache).2 := by
    rw [← hresult]
    rfl
  rw [hstep]
  exact hf _ hafter

theorem map {m : StateM FieldCache α} {a : α} (f : α → β) (hm : Gives w m a) : Gives w (f <$> m) (f a) :=
  fun cache hvalid => ⟨congrArg f (hm cache hvalid).1, (hm cache hvalid).2⟩

theorem mapM {f : α → StateM FieldCache β} {g : α → β} (h : ∀ a, Gives w (f a) (g a)) (items : List α) :
    Gives w (items.mapM f) (items.map g) := by
  induction items with
  | nil => exact .pure _
  | cons item rest ih =>
    rw [List.mapM_cons]
    exact (h item).andThen (ih.andThen (.pure _))

variable {m : Caching ε α} {r : Except ε α}

theorem bind {f : α → Caching ε β} {g : α → Except ε β} (hm : Gives w m.run r)
    (hf : ∀ a, Gives w (f a).run (g a)) : Gives w (m >>= f).run (r >>= g) := by
  rw [ExceptT.run_bind]
  refine hm.andThen ?_
  cases r with
  | error e => exact .pure _
  | ok a => exact hf a

theorem lift (r : Except ε α) : Gives w (liftM r : Caching ε α).run r := .pure r

theorem adapt (f : ε → ε') (hm : Gives w m.run r) : Gives w (m.adapt f).run (r.mapError f) := hm.map (Except.mapError f)

theorem mapM_run {f : α → Caching ε β} {g : α → Except ε β} (h : ∀ a, Gives w (f a).run (g a)) (items : List α) :
    Gives w (items.mapM f).run (items.mapM g) := by
  induction items with
  | nil => exact .pure _
  | cons item rest ih =>
    rw [List.mapM_cons, List.mapM_cons]
    exact (h item).bind fun _ => ih.bind fun _ => .pure _

end Gives

namespace Caching

def field (w : Workbench) (text : String) (options : Options) : Caching FieldError Field :=
  .mk fun cache => cache.answer w.schema w.dialect (some w.now) ⟨text, options, w.now⟩

/-- Compiles an entry and has every field from the cache that is there. -/
def build (w : Workbench) (d : Definition) (id : String) (spec : Spec) : Caching IngredientError Ingredient :=
  Ingredient.compile (fun text options => (field w text options).adapt .expression) d id spec

variable {w : Workbench}

theorem gives_field (text : String) (options : Options) :
    Gives w (field w text options).run (w.field text options) :=
  fun _ hvalid => FieldCache.Timeless.answer hvalid ⟨text, options, w.now⟩

section

variable {d : Definition} {id : String} {read : String → Options → Caching IngredientError Field}
  {read' : String → Options → Except IngredientError Field}
  (hread : ∀ text options, Gives w (read text options).run (read' text options))

include hread

theorem gives_compileText (text : String) (options : Options) :
    Gives w (compileText read d id text options).run (compileText read' d id text options) := by
  unfold compileText
  cases expandReferences id text d with
  | error e => exact .pure _
  | ok expanded => exact hread expanded options

theorem gives_resolveKind (spec : Spec) :
    Gives w (resolveKind read d id spec).run (resolveKind read' d id spec) := by
  unfold resolveKind
  cases spec.kind with
  | some kind => exact .pure _
  | none => exact (gives_compileText hread _ _).bind fun f => .pure _

theorem gives_compileRole (kind : Kind) (role : Role) (text : Option String) :
    Gives w (compileRole read d id kind role text).run (compileRole read' d id kind role text) := by
  cases text with
  | none => exact .pure _
  | some text =>
    simp only [compileRole]
    split
    · exact .pure _
    · exact (gives_compileText hread _ _).bind fun f => .pure _

theorem gives_compileQuickSelects (quicks : List QuickSelect) :
    Gives w (compileQuickSelects read d id quicks).run (compileQuickSelects read' d id quicks) := by
  induction quicks with
  | nil => exact .pure _
  | cons q rest ih =>
    unfold compileQuickSelects
    refine (gives_compileText hread _ _).bind fun f => ?_
    split
    · exact .pure _
    · exact ih.bind fun others => .pure _

omit hread in
theorem gives_checkKind (kind : Kind) (f : Field) :
    Gives w (checkKind kind f : Caching IngredientError Unit).run (checkKind kind f) := by
  unfold checkKind
  split
  · exact .pure _
  · split <;> exact .pure _

omit hread in
theorem gives_compileFormat (format : Option String) :
    Gives w (compileFormat format : Caching IngredientError (Option Format)).run (compileFormat format) := by
  cases format with
  | none => exact .pure _
  | some format =>
    simp only [compileFormat]
    split <;> exact .pure _

theorem gives_compile (spec : Spec) :
    Gives w (Ingredient.compile read d id spec).run (Ingredient.compile read' d id spec) := by
  unfold Ingredient.compile
  split
  · exact .pure _
  · exact (gives_resolveKind hread spec).bind fun kind => (gives_compileText hread _ _).bind fun value =>
      (gives_checkKind kind value).bind fun _ => (gives_compileRole hread _ _ _).bind fun idField =>
        (gives_compileRole hread _ _ _).bind fun orderByField => (gives_compileFormat _).bind fun format =>
          (gives_compileQuickSelects hread _).bind fun quickSelects => .pure _

end

theorem gives_build (d : Definition) (id : String) (spec : Spec) :
    Gives w (build w d id spec).run (Ingredient.build w d id spec) :=
  gives_compile (fun _ _ => (gives_field _ _).adapt _) spec

end Caching

end ShelfQuery.Shelf
