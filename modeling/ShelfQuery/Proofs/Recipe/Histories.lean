import Mathlib.Data.List.Induction
import ShelfQuery.Proofs.Shelf.Caching
import ShelfQuery.Proofs.Shelf.Lookup

set_option autoImplicit false

namespace ShelfQuery.Recipe

open ShelfQuery.Shelf ShelfQuery.Expression ShelfQuery.Sql ShelfQuery.Data ShelfQuery.Schema

/-- A shelf as it is kept: the entries, and the outcomes of the entries when the shelf was last changed. -/
structure Stock where
  definition : Definition
  outcomes : List (Except IngredientError Ingredient)

namespace Stock

variable (w : Workbench) (s : Stock)

def plain : Shelf := ⟨w, s.definition⟩

def compile (d : Definition) : StateM FieldCache Stock := do
  return ⟨d, ← d.mapM fun e => (Caching.build w d e.1 e.2.toSpec).run⟩

def insert (id : String) (entry : Entry) : StateM FieldCache Stock := compile w (Shelf.put id entry s.definition)

def find (key : String) (kinds : List Kind) : Except RecipeError Ingredient :=
  Shelf.pick key kinds
    (((s.definition.zip s.outcomes).find? fun slot => slot.1.1 == key).map fun slot => (slot.1.2, slot.2))

def parse (text : String) (options : Options) : Caching RecipeError Field :=
  Shelf.parseWith (fun text options => (Caching.field w text options).adapt .expression) s.definition text options

def query (r : Recipe) : Caching RecipeError Query :=
  queryWith (fun key kinds => liftM (s.find key kinds)) (s.parse w) w s.definition r

/-- The ids are distinct, and the outcomes line up with the entries, each that of its entry. -/
structure Compiled (w : Workbench) (s : Stock) : Prop where
  distinct : s.definition.Distinct
  outcomes : s.outcomes = s.definition.map fun e => Ingredient.build w s.definition e.1 e.2.toSpec

variable {w : Workbench} {s : Stock}

theorem gives_compile (d : Definition) :
    Gives w (compile w d) ⟨d, d.map fun e => Ingredient.build w d e.1 e.2.toSpec⟩ := by
  have hbuild (e : String × Entry) :
      Gives w (Caching.build w d e.1 e.2.toSpec).run (Ingredient.build w d e.1 e.2.toSpec) := Caching.gives_build _ _ _
  exact (Gives.mapM hbuild d).andThen (.pure _)

theorem gives_parse (text : String) (options : Options) :
    Gives w (s.parse w text options).run ((s.plain w).parse text options) := by
  unfold Stock.parse Shelf.parse Shelf.parseWith plain
  split
  · cases expandReferences "" text s.definition with
    | ok expanded => exact (Caching.gives_field _ _).adapt _
    | error e => exact .pure _
  · exact (Caching.gives_field _ _).adapt _

theorem Compiled.find (h : s.Compiled w) : s.find = (s.plain w).find := by
  funext key kinds
  have hslots : ((s.definition.zip s.outcomes).find? fun slot => slot.1.1 == key) =
      (List.find? (fun e => e.1 == key) s.definition).map fun e =>
        (e, Ingredient.build w s.definition e.1 e.2.toSpec) := by
    rw [h.outcomes, ← List.map_prod_left_eq_zip, List.find?_map]
    rfl
  unfold Stock.find Shelf.find Definition.find? plain
  rw [hslots]
  dsimp only
  cases hfind : List.find? (fun e => e.1 == key) s.definition with
  | none => rfl
  | some e =>
    obtain rfl : e.1 = key := by simpa using List.find?_some hfind
    rfl

section

variable {find : String → List Kind → Caching RecipeError Ingredient}
  {find' : String → List Kind → Except RecipeError Ingredient} {parse : String → Options → Caching RecipeError Field}
  {parse' : String → Options → Except RecipeError Field}
  (hfind : ∀ key kinds, Gives w (find key kinds).run (find' key kinds))
  (hparse : ∀ text options, Gives w (parse text options).run (parse' text options))

include hfind

theorem gives_resolveAutomaticWith (now : Calendar.DateTime) (filter : String × Json) :
    Gives w (resolveAutomaticWith find now filter).run (resolveAutomaticWith find' now filter) := by
  refine (hfind _ _).bind fun i => ?_
  split <;> exact .pure _

include hparse

theorem gives_resolveFilterWith (d : Definition) (filter : String) :
    Gives w (resolveFilterWith find parse d filter).run (resolveFilterWith find' parse' d filter) := by
  unfold resolveFilterWith
  split
  · exact (hfind _ _).bind fun i => .pure _
  · split
    · exact .pure _
    · refine (hparse _ _).bind fun f => ?_
      split <;> exact .pure _

theorem gives_queryWith (d : Definition) (r : Recipe) :
    Gives w (queryWith find parse w d r).run (queryWith find' parse' w d r) := by
  unfold queryWith
  split
  · exact .pure _
  · exact (Gives.mapM_run (fun _ => hfind _ _) _).bind fun dimensions =>
      (Gives.mapM_run (fun _ => hfind _ _) _).bind fun metrics =>
        (Gives.mapM_run (gives_resolveFilterWith hfind hparse d) _).bind fun conditions =>
          (Gives.mapM_run (gives_resolveAutomaticWith hfind w.now) _).bind fun automatic => .pure _

end

theorem Compiled.gives_query (h : s.Compiled w) (r : Recipe) : Gives w (s.query w r).run (r.query (s.plain w)) := by
  have hfind (key : String) (kinds : List Kind) :
      Gives w (liftM (s.find key kinds) : Caching RecipeError Ingredient).run ((s.plain w).find key kinds) := by
    rw [h.find]
    exact .lift _
  exact gives_queryWith hfind gives_parse s.definition r

theorem compiled_compile {cache : FieldCache} (hcache : w.Valid cache) {d : Definition} (hd : d.Distinct) :
    ((compile w d).run cache).1.Compiled w ∧ w.Valid ((compile w d).run cache).2 := by
  obtain ⟨hresult, hafter⟩ := gives_compile d cache hcache
  rw [hresult]
  exact ⟨⟨hd, rfl⟩, hafter⟩

end Stock

/-- What is done at a workbench: a text is compiled, a shelf is set up, an entry is added to a shelf or
replaced, a recipe is brewed from a shelf. The shelves are numbered in the order of their setting up. -/
inductive Act where
  | read (text : String) (options : Options)
  | setUp (d : Definition) (distinct : d.Distinct)
  | insert (number : Nat) (id : String) (entry : Entry)
  | brew (number : Nat) (r : Recipe)

/-- What an act makes of the shelves, leaving aside how they are compiled. -/
def Act.apply (w : Workbench) (shelves : List Shelf) : Act → List Shelf
  | .setUp d _ => shelves ++ [⟨w, d⟩]
  | .insert number id entry => shelves.modify number (Shelf.insert · id entry)
  | .read _ _ => shelves
  | .brew _ _ => shelves

structure Workshop where
  cache : FieldCache := {}
  shelves : List Stock := []

namespace Workshop

variable (w : Workbench)

def step (b : Workshop) : Act → Workshop
  | .read text options => { b with cache := ((Caching.field w text options).run.run b.cache).2 }
  | .setUp d _ =>
    let (s, cache) := (Stock.compile w d).run b.cache
    ⟨cache, b.shelves ++ [s]⟩
  | .insert number id entry =>
    match b.shelves[number]? with
    | none => b
    | some s =>
      let (s, cache) := (s.insert w id entry).run b.cache
      ⟨cache, b.shelves.set number s⟩
  | .brew number r =>
    match b.shelves[number]? with
    | none => b
    | some s => { b with cache := ((s.query w r).run.run b.cache).2 }

def run (acts : List Act) : Workshop := acts.foldl (step w) {}

def brew (b : Workshop) (s : Stock) (r : Recipe) : Except RecipeError Query := ((s.query w r).run.run b.cache).1

structure Sound (b : Workshop) : Prop where
  valid : w.Valid b.cache
  compiled : ∀ s ∈ b.shelves, s.Compiled w

variable {w} {b : Workshop}

theorem Sound.step (h : b.Sound w) (act : Act) : (b.step w act).Sound w := by
  cases act with
  | read text options => exact ⟨(Caching.gives_field text options _ h.valid).2, h.compiled⟩
  | setUp d hd =>
    obtain ⟨hcompiled, hvalid⟩ := Stock.compiled_compile h.valid hd
    refine ⟨hvalid, fun s hs => ?_⟩
    rcases List.mem_append.mp hs with hs | hs
    · exact h.compiled s hs
    · exact List.mem_singleton.mp hs ▸ hcompiled
  | insert number id entry =>
    dsimp only [Workshop.step]
    split
    · exact h
    · next old hold =>
      have hdistinct := (h.compiled old (List.mem_of_getElem? hold)).distinct
      obtain ⟨hcompiled, hvalid⟩ := Stock.compiled_compile h.valid (hdistinct.put id entry)
      refine ⟨hvalid, fun s hs => ?_⟩
      rcases List.mem_or_eq_of_mem_set hs with hs | rfl
      · exact h.compiled s hs
      · exact hcompiled
  | brew number r =>
    dsimp only [Workshop.step]
    split
    · exact h
    · next s hs =>
      have hcompiled := h.compiled s (List.mem_of_getElem? hs)
      exact ⟨(hcompiled.gives_query r _ h.valid).2, h.compiled⟩

theorem map_shelves_step (b : Workshop) (act : Act) :
    (b.step w act).shelves.map (Stock.plain w) = act.apply w (b.shelves.map (Stock.plain w)) := by
  cases act with
  | read text options => rfl
  | setUp d hd => exact List.map_append
  | insert number id entry =>
    dsimp only [Workshop.step, Act.apply]
    rw [List.modify_eq_set_getElem?, List.getElem?_map]
    split
    · next hnone =>
      rw [hnone]
      rfl
    · next s hs =>
      rw [hs]
      exact List.map_set
  | brew number r =>
    dsimp only [Workshop.step]
    split <;> rfl

theorem sound_run (acts : List Act) : (run w acts).Sound w := by
  have hstart : Sound w {} := ⟨FieldCache.timeless_empty _ _ _, nofun⟩
  exact List.foldlRecOn acts _ hstart fun _ h act _ => h.step act

theorem map_shelves_run (acts : List Act) :
    (run w acts).shelves.map (Stock.plain w) = acts.foldl (Act.apply w) [] := by
  induction acts using List.reverseRecOn with
  | nil => rfl
  | append_singleton acts act ih =>
    unfold run at ih ⊢
    rw [List.foldl_append, List.foldl_append, List.foldl_cons, List.foldl_nil, map_shelves_step, ih]
    rfl

/-- Whatever was done at a workbench, the shelves hold what was set up and inserted, with distinct ids and
every outcome at its entry. Two shelves that have the same entry under each id find the same ingredients and
brew the same queries, or fail for the same reasons, as if they had just been compiled without a cache. -/
theorem answers_of_entries (w : Workbench) (acts acts' : List Act) :
    (run w acts).shelves.map (Stock.plain w) = acts.foldl (Act.apply w) [] ∧
      (∀ s ∈ (run w acts).shelves, s.definition.Distinct ∧
        s.outcomes = s.definition.map (fun e => Ingredient.build w s.definition e.1 e.2.toSpec) ∧
        (∀ key kinds, s.find key kinds = (s.plain w).find key kinds) ∧
        ∀ r, (run w acts).brew w s r = r.query (s.plain w)) ∧
      ∀ s ∈ (run w acts).shelves, ∀ s' ∈ (run w acts').shelves,
        (∀ id, s.definition.find? id = s'.definition.find? id) →
        (∀ key kinds, s.find key kinds = s'.find key kinds) ∧
        ∀ r, (run w acts).brew w s r = (run w acts').brew w s' r := by
  have hbrew (acts : List Act) (s : Stock) (hs : s ∈ (run w acts).shelves) (r : Recipe) :
      (run w acts).brew w s r = r.query (s.plain w) :=
    (((sound_run acts).compiled s hs).gives_query r _ (sound_run acts).valid).1
  refine ⟨map_shelves_run acts, fun s hs => ?_, fun s hs s' hs' hentries => ?_⟩
  · have hcompiled := (sound_run acts).compiled s hs
    exact ⟨hcompiled.distinct, hcompiled.outcomes, fun key kinds => by rw [hcompiled.find], hbrew acts s hs⟩
  · have hcompiled := (sound_run acts).compiled s hs
    have hcompiled' := (sound_run acts').compiled s' hs'
    have hsame := Definition.rearranges_of_find?_eq hcompiled.distinct hcompiled'.distinct hentries
    refine ⟨fun key kinds => ?_, fun r => ?_⟩
    · rw [hcompiled.find, hcompiled'.find, Stock.plain, hsame.find]
      rfl
    · rw [hbrew acts s hs, hbrew acts' s' hs']
      exact hsame.query r

/-- A metric refers to another that is replaced later. The second shelf shares the workbench with the first,
has its entries in another order and never held the old metric. -/
theorem answers_of_entries_reordered :
    let w : Workbench := ⟨⟨"scores", [⟨"score", .num⟩]⟩, .sqlite, .startOfDay ⟨2024, 1, 1, by decide⟩⟩
    let first : List Act :=
      [.setUp [("best", .field "sum([score])"), ("twice", .field "@best * 2")] (by unfold Definition.Distinct; decide),
        .insert 0 "best" (.field "max([score])")]
    let second : List Act :=
      [.setUp [("twice", .field "@best * 2")] (by unfold Definition.Distinct; decide),
        .insert 1 "best" (.field "max([score])")]
    ∃ s ∈ (run w first).shelves, ∃ s' ∈ (run w (first ++ second)).shelves, s.definition ≠ s'.definition ∧
      (∀ key kinds, s.find key kinds = s'.find key kinds) ∧
      (∀ r, (run w first).brew w s r = (run w (first ++ second)).brew w s' r) ∧
      (s'.find "twice" [.metric]).toOption.map (·.value.render ⟨.sqlite, []⟩) = some "max(scores.score) * 2" := by
  intro w first second
  obtain ⟨hshelves, -, hsame⟩ := answers_of_entries w first (first ++ second)
  obtain ⟨hshelves', hplain, -⟩ := answers_of_entries w (first ++ second) []
  have hfirst : ⟨w, [("best", .field "max([score])"), ("twice", .field "@best * 2")]⟩ ∈ first.foldl (Act.apply w) [] :=
    List.mem_cons_self
  have hsecond : ⟨w, [("twice", .field "@best * 2"), ("best", .field "max([score])")]⟩ ∈
      (first ++ second).foldl (Act.apply w) [] := List.mem_cons_of_mem _ List.mem_cons_self
  rw [← hshelves] at hfirst
  rw [← hshelves'] at hsecond
  obtain ⟨s, hs, hdefinition⟩ := List.mem_map.mp hfirst
  obtain ⟨s', hs', hdefinition'⟩ := List.mem_map.mp hsecond
  replace hdefinition : s.definition = _ := congrArg Shelf.definition hdefinition
  replace hdefinition' : s'.definition = _ := congrArg Shelf.definition hdefinition'
  have hentries (id : String) : s.definition.find? id = s'.definition.find? id := by
    rw [hdefinition, hdefinition']
    by_cases hbest : "best" = id
    · subst hbest
      rfl
    · by_cases htwice : "twice" = id <;> simp [Definition.find?, hbest, htwice]
  obtain ⟨hfind, hbrew⟩ := hsame s hs s' hs' hentries
  refine ⟨s, hs, s', hs', ?_, hfind, hbrew, ?_⟩
  · rw [hdefinition, hdefinition']
    decide
  · rw [(hplain s' hs').2.2.1, Stock.plain, hdefinition']
    decide +kernel

end Workshop

end ShelfQuery.Recipe
