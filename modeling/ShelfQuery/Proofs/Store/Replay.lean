import ShelfQuery.Proofs.Store.Expiry
import ShelfQuery.Store.Handle

set_option autoImplicit false

namespace ShelfQuery.Store

open ShelfQuery.Rows ShelfQuery.Engine

/-- A call, with what the database does if it is asked. -/
inductive Operation where
  | execute (sql : String) (params : List Cell) (effect : Effect Result)
  | batch (effect : Effect Unit)

/-- A call that was made, with its answer. -/
inductive Outcome where
  | executed (sql : String) (params : List Cell) (answer : Except StoreError Execution)
  | batched (answer : Except StoreError Unit)

def Operation.statement? : Operation → Option (String × List Cell)
  | .execute sql params _ => some (sql, params)
  | .batch _ => none

namespace Handle

def perform (h : Handle) (time : Nat) : Operation → Outcome × Handle
  | .execute sql params effect =>
    let (answer, h) := h.executeText time sql params effect
    (.executed sql params answer, h)
  | .batch effect =>
    let (answer, h) := h.executeBatch effect
    (.batched answer, h)

def run (h : Handle) : List (Nat × Operation) → List Outcome × Handle
  | [] => ([], h)
  | (time, operation) :: rest =>
    let (outcome, h) := h.perform time operation
    let (outcomes, h) := h.run rest
    (outcome :: outcomes, h)

theorem run_append (h : Handle) (calls rest : List (Nat × Operation)) :
    h.run (calls ++ rest) =
      ((h.run calls).1 ++ ((h.run calls).2.run rest).1, ((h.run calls).2.run rest).2) := by
  induction calls generalizing h with
  | nil => rfl
  | cons call calls ih => simp only [List.cons_append, run, ih]

end Handle

/-- The first execution of a statement that succeeded gave this result. -/
def FirstResult (history : List Outcome) (sql : String) (params : List Cell) (r : Result) : Prop :=
  ∃ before fromCache after, history = before ++ .executed sql params (.ok ⟨fromCache, r⟩) :: after ∧
    ∀ e, Outcome.executed sql params (.ok e) ∉ before

section

variable {history : List Outcome} {sql : String} {params : List Cell} {r : Result} {x : Outcome}

theorem not_firstResult_nil : ¬ FirstResult [] sql params r := by
  rintro ⟨before, _, after, hsplit, -⟩
  simp at hsplit

theorem firstResult_append_singleton : FirstResult (history ++ [x]) sql params r ↔
    FirstResult history sql params r ∨
      (∀ e, Outcome.executed sql params (.ok e) ∉ history) ∧ ∃ fromCache, x = .executed sql params (.ok ⟨fromCache, r⟩) := by
  constructor
  · rintro ⟨before, fromCache, after, hsplit, hbefore⟩
    rcases List.eq_nil_or_concat after with rfl | ⟨after, y, rfl⟩
    · obtain ⟨rfl, hx⟩ := List.append_inj' hsplit rfl
      exact .inr ⟨hbefore, fromCache, by simpa using hx⟩
    · rw [List.concat_eq_append, ← List.cons_append, ← List.append_assoc] at hsplit
      obtain ⟨rfl, -⟩ := List.append_inj' hsplit rfl
      exact .inl ⟨before, fromCache, after, rfl, hbefore⟩
  · rintro (⟨before, fromCache, after, rfl, hbefore⟩ | ⟨hbefore, fromCache, rfl⟩)
    · exact ⟨before, fromCache, after ++ [x], by simp, hbefore⟩
    · exact ⟨history, fromCache, [], rfl, hbefore⟩

theorem exists_firstResult_iff : (∃ r, FirstResult history sql params r) ↔
    ∃ e, Outcome.executed sql params (.ok e) ∈ history := by
  constructor
  · rintro ⟨r, before, fromCache, after, rfl, -⟩
    exact ⟨⟨fromCache, r⟩, by simp⟩
  · rintro ⟨e, he⟩
    induction history with
    | nil => exact nomatch he
    | cons x history ih =>
      by_cases hx : ∃ e, x = .executed sql params (.ok e)
      · obtain ⟨⟨fromCache, r⟩, rfl⟩ := hx
        exact ⟨r, [], fromCache, history, rfl, fun _ => List.not_mem_nil⟩
      · have hne (e : Execution) : Outcome.executed sql params (.ok e) ≠ x := fun heq => hx ⟨e, heq.symm⟩
        obtain ⟨r, before, fromCache, after, rfl, hbefore⟩ := ih ((List.mem_cons.mp he).resolve_left (hne e))
        exact ⟨r, x :: before, fromCache, after, rfl, fun e => List.not_mem_cons_of_ne_of_not_mem (hne e) (hbefore e)⟩

end

namespace Expiring

variable {κ ν : Type} [DecidableEq κ] {m : Expiring κ ν} {time : Nat} {key : κ}

theorem get_of_unexpired (hfixed : m.refreshing = false) (hlive : ∀ e ∈ m.entries, m.isLive time e = true) (key : κ) :
    m.get time key = ((m.find? key).map Stamped.value, m) := by
  cases hfind : m.find? key with
  | none => simp [get, hfind]
  | some e =>
    have he : m.isLive time e = true := hlive e (List.mem_of_find?_eq_some hfind)
    simp [get, hfind, he, touch, hfixed]

theorem find?_insert (hlive : ∀ e ∈ m.entries, m.isLive time e = true) (value : ν) (k : κ) :
    (m.insert time key value).find? k = if key = k then some ⟨key, value, time⟩ else m.find? k := by
  have hkept : (m.without key).filter (m.isLive time) = m.without key :=
    List.filter_eq_self.mpr fun e he => hlive e (mem_without.mp he).1
  rw [insert, hkept, find?, List.find?_cons]
  by_cases hkey : key = k
  · simp [hkey]
  · have hother (e : Stamped κ ν) : (!decide (e.key = key) && decide (e.key = k)) = decide (e.key = k) := by
      by_cases he : e.key = k
      · simp [he, Ne.symm hkey]
      · simp [he]
    simp [hkey, without, find?, List.find?_filter, hother]

end Expiring

namespace Handle

variable {h : Handle} {m : ResultCache} {time : Nat} {sql : String} {params : List Cell} {effect : Effect Result}

theorem executeText_of_no_cache (hm : h.results = none) :
    h.executeText time sql params effect =
      ((effect h.tables).1.map (⟨false, ·⟩), { h with tables := (effect h.tables).2 }) := by
  simp [executeText, executeCached, hm]

section

variable (hm : h.results = some m) (hfixed : m.refreshing = false) (hlive : ∀ e ∈ m.entries, m.isLive time e = true)

include hm hfixed hlive

theorem executeText_of_found {e : Stamped String Result} (hfind : m.find? (cacheKey sql params) = some e) :
    h.executeText time sql params effect = (.ok ⟨true, e.value⟩, h) := by
  simp only [executeText, executeCached, hm, Expiring.get_of_unexpired hfixed hlive, hfind, Option.map_some]
  rw [← hm]

theorem executeText_of_success (hfind : m.find? (cacheKey sql params) = none) {r : Result} {tables : List StoredTable}
    (heffect : effect h.tables = (.ok r, tables)) :
    h.executeText time sql params effect =
      (.ok ⟨false, r⟩, { h with results := some (m.insert time (cacheKey sql params) r), tables }) := by
  simp only [executeText, executeCached, hm, Expiring.get_of_unexpired hfixed hlive, hfind, Option.map_none, heffect]

theorem executeText_of_failure (hfind : m.find? (cacheKey sql params) = none) {e : StoreError}
    {tables : List StoredTable} (heffect : effect h.tables = (.error e, tables)) :
    h.executeText time sql params effect = (.error e, { h with tables }) := by
  simp only [executeText, executeCached, hm, Expiring.get_of_unexpired hfixed hlive, hfind, Option.map_none, heffect]

end

end Handle

def statements (calls : List (Nat × Operation)) : List (String × List Cell) := calls.filterMap fun call => call.2.statement?

def DistinctKeys (statements : List (String × List Cell)) : Prop :=
  ∀ x ∈ statements, ∀ y ∈ statements, cacheKey x.1 x.2 = cacheKey y.1 y.2 → x = y

/-- No call comes so late that the result of an earlier one has expired. -/
def Unexpired (lifetime : Nat) (times : List Nat) : Prop := times.Pairwise fun earlier later => later - earlier < lifetime

instance (lifetime : Nat) (times : List Nat) : Decidable (Unexpired lifetime times) :=
  inferInstanceAs (Decidable (times.Pairwise _))

/-- After a history, a cache in which nothing has expired at the times to come holds the first result
of every statement that has one. -/
structure Remembers (lifetime : Nat) (known : List (String × List Cell)) (times : List Nat) (m : ResultCache)
    (history : List Outcome) : Prop where
  fixed : m.refreshing = false
  lifetime_eq : m.lifetime = lifetime
  live : ∀ time ∈ times, ∀ e ∈ m.entries, m.isLive time e = true
  find?_iff : ∀ x ∈ known, ∀ r,
    (∃ e, m.find? (cacheKey x.1 x.2) = some e ∧ e.value = r) ↔ FirstResult history x.1 x.2 r

namespace Remembers

variable {lifetime time : Nat} {known : List (String × List Cell)} {times : List Nat} {m : ResultCache}
  {history : List Outcome} {h : Handle} {sql : String} {params : List Cell}

theorem nil (lifetime : Nat) (known : List (String × List Cell)) (times : List Nat) :
    Remembers lifetime known times ⟨lifetime, false, []⟩ [] where
  fixed := rfl
  lifetime_eq := rfl
  live := nofun
  find?_iff x _ r := by simp [Expiring.find?, not_firstResult_nil]

theorem exists_find?_iff (hrem : Remembers lifetime known times m history) (hmem : (sql, params) ∈ known) :
    (∃ e, m.find? (cacheKey sql params) = some e) ↔ ∃ e, Outcome.executed sql params (.ok e) ∈ history := by
  rw [← exists_firstResult_iff]
  constructor
  · rintro ⟨e, he⟩
    exact ⟨e.value, (hrem.find?_iff _ hmem _).mp ⟨e, he, rfl⟩⟩
  · rintro ⟨r, hr⟩
    obtain ⟨e, he, -⟩ := (hrem.find?_iff _ hmem _).mpr hr
    exact ⟨e, he⟩

/-- Nothing is to be remembered of what is not the first success of a statement. -/
theorem idle (hrem : Remembers lifetime known (time :: times) m history) {x : Outcome}
    (hx : ∀ sql params e, (sql, params) ∈ known → x = .executed sql params (.ok e) →
      ∃ e, Outcome.executed sql params (.ok e) ∈ history) :
    Remembers lifetime known times m (history ++ [x]) where
  fixed := hrem.fixed
  lifetime_eq := hrem.lifetime_eq
  live t ht := hrem.live t (List.mem_cons_of_mem _ ht)
  find?_iff y hy r := by
    rw [hrem.find?_iff y hy r, firstResult_append_singleton]
    constructor
    · exact .inl
    · rintro (hfirst | ⟨hnone, fromCache, heq⟩)
      · exact hfirst
      · obtain ⟨e, he⟩ := hx y.1 y.2 _ hy heq
        exact absurd he (hnone e)

theorem store (hrem : Remembers lifetime known (time :: times) m history) (hkeys : DistinctKeys known)
    (hlater : ∀ t ∈ times, t - time < lifetime) (hmem : (sql, params) ∈ known)
    (hfind : m.find? (cacheKey sql params) = none) (r : Result) :
    Remembers lifetime known times (m.insert time (cacheKey sql params) r)
      (history ++ [.executed sql params (.ok ⟨false, r⟩)]) where
  fixed := hrem.fixed
  lifetime_eq := hrem.lifetime_eq
  live t ht e he := by
    rcases List.mem_cons.mp he with rfl | he
    · have hlt := hlater t ht
      rw [← hrem.lifetime_eq] at hlt
      exact Expiring.isLive_iff.mpr hlt
    · exact hrem.live t (List.mem_cons_of_mem _ ht) e (Expiring.mem_without.mp (List.mem_filter.mp he).1).1
  find?_iff y hy s := by
    have hlive := hrem.live time List.mem_cons_self
    rw [Expiring.find?_insert hlive, firstResult_append_singleton, ← hrem.find?_iff y hy s]
    by_cases hsame : (sql, params) = y
    · subst hsame
      have hnever : ∀ e, Outcome.executed sql params (.ok e) ∉ history := by
        intro e he
        obtain ⟨e, he⟩ := (hrem.exists_find?_iff hmem).mpr ⟨e, he⟩
        rw [hfind] at he
        exact nomatch he
      simp [hfind, hnever]
    · have hkey : cacheKey sql params ≠ cacheKey y.1 y.2 := fun heq => hsame (hkeys _ hmem _ hy heq)
      rw [if_neg hkey]
      refine (or_iff_left ?_).symm
      rintro ⟨-, fromCache, heq⟩
      injection heq with hsql hparams
      exact hsame (Prod.ext hsql hparams)

theorem perform (hm : h.results = some m) (hrem : Remembers lifetime known (time :: times) m history)
    (hkeys : DistinctKeys known) (hlater : ∀ t ∈ times, t - time < lifetime) (operation : Operation)
    (hknown : ∀ x, operation.statement? = some x → x ∈ known) :
    ∃ m', (h.perform time operation).2.results = some m' ∧
      Remembers lifetime known times m' (history ++ [(h.perform time operation).1]) := by
  have hlive := hrem.live time List.mem_cons_self
  cases operation with
  | batch effect => exact ⟨m, hm, hrem.idle fun _ _ _ _ hx => nomatch hx⟩
  | execute sql params effect =>
    have hmem : (sql, params) ∈ known := hknown _ rfl
    cases hfind : m.find? (cacheKey sql params) with
    | some e =>
      simp only [Handle.perform, Handle.executeText_of_found hm hrem.fixed hlive hfind]
      refine ⟨m, hm, hrem.idle fun sql' params' e' _ hx => ?_⟩
      injection hx with hsql hparams
      rw [← hsql, ← hparams]
      exact (hrem.exists_find?_iff hmem).mp ⟨e, hfind⟩
    | none =>
      rcases heffect : effect h.tables with ⟨r | r, tables⟩
      · simp only [Handle.perform, Handle.executeText_of_failure hm hrem.fixed hlive hfind heffect]
        exact ⟨m, hm, hrem.idle fun _ _ _ _ hx => nomatch hx⟩
      · simp only [Handle.perform, Handle.executeText_of_success hm hrem.fixed hlive hfind heffect]
        exact ⟨_, rfl, hrem.store hkeys hlater hmem hfind r⟩

theorem run (hm : h.results = some m) {calls : List (Nat × Operation)}
    (hrem : Remembers lifetime known (calls.map Prod.fst ++ times) m history) (hkeys : DistinctKeys known)
    (htimes : Unexpired lifetime (calls.map Prod.fst ++ times)) (hknown : ∀ x ∈ statements calls, x ∈ known) :
    ∃ m', (h.run calls).2.results = some m' ∧ Remembers lifetime known times m' (history ++ (h.run calls).1) := by
  induction calls generalizing h m history with
  | nil =>
    simp only [Handle.run, List.append_nil]
    exact ⟨m, hm, hrem⟩
  | cons call calls ih =>
    obtain ⟨hlater, htimes⟩ := List.pairwise_cons.mp htimes
    have hhere (x : String × List Cell) (hx : call.2.statement? = some x) : x ∈ known :=
      hknown x (List.mem_filterMap.mpr ⟨call, List.mem_cons_self, hx⟩)
    have hrest (x : String × List Cell) (hx : x ∈ statements calls) : x ∈ known := by
      obtain ⟨c, hc, hstatement⟩ := List.mem_filterMap.mp hx
      exact hknown x (List.mem_filterMap.mpr ⟨c, List.mem_cons_of_mem _ hc, hstatement⟩)
    obtain ⟨m', hm', hrem'⟩ := hrem.perform hm hkeys hlater call.2 hhere
    obtain ⟨m'', hm'', hrem''⟩ := ih hm' hrem' htimes hrest
    refine ⟨m'', hm'', ?_⟩
    simpa only [Handle.run, List.append_assoc, List.singleton_append] using hrem''

end Remembers

/-- How a statement is answered after `earlier` calls, where the database itself would answer `present`. -/
structure Replays (earlier : List Outcome) (sql : String) (params : List Cell) (present : Except StoreError Result)
    (answer : Except StoreError Execution) : Prop where
  fromCache_iff : (∃ r, answer = .ok ⟨true, r⟩) ↔ ∃ e, Outcome.executed sql params (.ok e) ∈ earlier
  eq_first : ∀ r, answer = .ok ⟨true, r⟩ → FirstResult earlier sql params r
  eq_present : (∀ r, answer ≠ .ok ⟨true, r⟩) → answer = present.map (⟨false, ·⟩)

theorem Remembers.replays {lifetime time : Nat} {known : List (String × List Cell)} {times : List Nat} {m : ResultCache}
    {history : List Outcome} {h : Handle} {sql : String} {params : List Cell} (hm : h.results = some m)
    (hrem : Remembers lifetime known (time :: times) m history) (hmem : (sql, params) ∈ known) (effect : Effect Result) :
    Replays history sql params (effect h.tables).1 (h.executeText time sql params effect).1 ∧
      ∀ e, (h.executeText time sql params effect).1 = .error e →
        (h.executeText time sql params effect).2 = { h with tables := (effect h.tables).2 } := by
  have hlive := hrem.live time List.mem_cons_self
  have hfound := hrem.exists_find?_iff hmem
  cases hfind : m.find? (cacheKey sql params) with
  | some x =>
    rw [Handle.executeText_of_found hm hrem.fixed hlive hfind]
    refine ⟨⟨?_, ?_, ?_⟩, nofun⟩
    · exact iff_of_true ⟨x.value, rfl⟩ (hfound.mp ⟨x, hfind⟩)
    · intro r hr
      cases hr
      exact (hrem.find?_iff _ hmem _).mp ⟨x, hfind, rfl⟩
    · intro hnone
      exact absurd rfl (hnone x.value)
  | none =>
    have hnever : ¬ ∃ e, Outcome.executed sql params (.ok e) ∈ history := by
      rw [← hfound, hfind]
      exact nofun
    rcases heffect : effect h.tables with ⟨r | r, tables⟩
    · rw [Handle.executeText_of_failure hm hrem.fixed hlive hfind heffect]
      exact ⟨⟨iff_of_false nofun hnever, nofun, fun _ => rfl⟩, fun _ _ => rfl⟩
    · rw [Handle.executeText_of_success hm hrem.fixed hlive hfind heffect]
      exact ⟨⟨iff_of_false nofun hnever, nofun, fun _ => rfl⟩, nofun⟩

namespace Handle

variable {s : Settings} {load : Option String → Except StoreError (List StoredTable)} {h : Handle}

theorem cacheFor_eq_ok {results : Option ResultCache} (hcache : cacheFor s = .ok results) :
    results = if s.cacheQueries then some ⟨s.expiration, false, []⟩ else none := by
  unfold cacheFor at hcache
  cases hqueries : s.cacheQueries with
  | false =>
    rw [hqueries] at hcache
    exact (Except.ok.inj hcache).symm
  | true =>
    by_cases hmemory : s.cacheBackend = "memory"
    · rw [hqueries, if_neg (by decide), if_pos hmemory] at hcache
      exact (Except.ok.inj hcache).symm
    · rw [hqueries, if_neg (by decide), if_neg hmemory] at hcache
      exact nomatch hcache

theorem results_of_openWith (hopen : openWith s load = .ok h) :
    h.results = if s.cacheQueries then some ⟨s.expiration, false, []⟩ else none := by
  simp only [openWith, Except.mapError, bind, Except.bind] at hopen
  cases hpath : s.path with
  | error e => simp [hpath] at hopen
  | ok path =>
    cases htables : load path with
    | error e => simp [hpath, htables] at hopen
    | ok tables =>
      cases hcache : cacheFor s with
      | error e => simp [hpath, htables, hcache] at hopen
      | ok results =>
        simp only [hpath, htables, hcache] at hopen
        cases hopen
        exact cacheFor_eq_ok hcache

theorem perform_of_no_cache (hm : h.results = none) (time : Nat) (operation : Operation) :
    (h.perform time operation).2.results = none ∧
      ∀ sql params e, (h.perform time operation).1 = .executed sql params (.ok e) → e.fromCache = false := by
  cases operation with
  | batch effect => exact ⟨hm, nofun⟩
  | execute sql params effect =>
    simp only [perform, executeText_of_no_cache hm]
    refine ⟨hm, fun sql' params' e he => ?_⟩
    injection he with _ _ hanswer
    cases hpresent : (effect h.tables).1 with
    | error _ =>
      rw [hpresent] at hanswer
      exact nomatch hanswer
    | ok r =>
      rw [hpresent] at hanswer
      cases hanswer
      rfl

theorem run_of_no_cache (hm : h.results = none) (calls : List (Nat × Operation)) :
    ∀ sql params e, Outcome.executed sql params (.ok e) ∈ (h.run calls).1 → e.fromCache = false := by
  induction calls generalizing h with
  | nil => exact nofun
  | cons call calls ih =>
    intro sql params e he
    obtain ⟨hnext, hhere⟩ := perform_of_no_cache hm call.1 call.2
    rcases List.mem_cons.mp he with he | he
    · exact hhere sql params e he.symm
    · exact ih hnext sql params e he

/-- Without a cache nothing is replayed. With one in which nothing expires, an execution is answered
from the cache if and only if its statement has succeeded before, then with the result of the first
success, and by the database otherwise; one that fails changes nothing but the tables, and if it leaves
them too, all other calls are answered as without it. -/
theorem run_replays (hopen : openWith s load = .ok h) (calls : List (Nat × Operation)) :
    (s.cacheQueries = false →
      ∀ sql params e, Outcome.executed sql params (.ok e) ∈ (h.run calls).1 → e.fromCache = false) ∧
    (s.cacheQueries = true → Unexpired s.expiration (calls.map Prod.fst) → DistinctKeys (statements calls) →
      ∀ before time sql params effect after, calls = before ++ (time, .execute sql params effect) :: after →
        ∃ answer later, (h.run calls).1 = (h.run before).1 ++ .executed sql params answer :: later ∧
          Replays (h.run before).1 sql params (effect (h.run before).2.tables).1 answer ∧
          ∀ e, answer = .error e →
            (h.run (before ++ [(time, .execute sql params effect)])).2 =
              { (h.run before).2 with tables := (effect (h.run before).2.tables).2 } ∧
            ((effect (h.run before).2.tables).2 = (h.run before).2.tables →
              (h.run (before ++ after)).1 = (h.run before).1 ++ later)) := by
  have hresults := results_of_openWith hopen
  constructor
  · intro hoff
    rw [hoff] at hresults
    exact run_of_no_cache hresults calls
  · intro hon htimes hkeys before time sql params effect after hcalls
    subst hcalls
    rw [hon] at hresults
    rw [List.map_append, List.map_cons] at htimes
    have hmem : (sql, params) ∈ statements (before ++ (time, .execute sql params effect) :: after) := by
      simp [statements, Operation.statement?]
    have hknown : ∀ x ∈ statements before, x ∈ statements (before ++ (time, .execute sql params effect) :: after) := by
      intro x hx
      simp only [statements, List.filterMap_append, List.mem_append]
      exact .inl hx
    obtain ⟨m, hm, hrem⟩ := (Remembers.nil _ _ _).run hresults hkeys htimes hknown
    obtain ⟨hreplays, hfailed⟩ := hrem.replays hm hmem effect
    refine ⟨((h.run before).2.executeText time sql params effect).1,
      (((h.run before).2.executeText time sql params effect).2.run after).1, ?_, hreplays, fun e he => ⟨?_, fun hsame => ?_⟩⟩
    · rw [run_append]
      rfl
    · rw [run_append]
      exact hfailed e he
    · have hnext : ((h.run before).2.executeText time sql params effect).2 = (h.run before).2 := by
        rw [hfailed e he, hsame]
      rw [run_append, hnext]

/-- The table is dropped before the statement comes again. -/
theorem run_replays_dropped :
    let query (table : String) : Operation :=
      .execute (Statement.everything table).text [] (Statement.everything table).effect
    let before : List (Nat × Operation) :=
      [(0, query "q"), (0, .batch fun tables => (.ok (), ⟨"p", [⟨"n", "INTEGER"⟩], [[.int 1]]⟩ :: tables)), (5, query "p"),
        (8, .batch fun _ => (.ok (), []))]
    ∃ h, openEmpty { Settings.memory with cacheQueries := true } = .ok h ∧ (h.run before).2.tables = [] ∧
      ∃ later, (h.run (before ++ [(9, query "p")])).1 =
        (h.run before).1 ++ .executed "SELECT * FROM \"p\"" [] (.ok ⟨true, ["n"], [[.int 1]]⟩) :: later := by
  intro query before
  obtain ⟨h, hopen, hh⟩ : ∃ h, openEmpty { Settings.memory with cacheQueries := true } = .ok h ∧
      h = ⟨_, [], ⟨handleLifetime, true, []⟩, some ⟨86400, false, []⟩, 0⟩ := ⟨_, rfl, rfl⟩
  have hearlier : (h.run before).1 =
      [.executed "SELECT * FROM \"q\"" [] (.error (.refused "the statement does not fit the tables")), .batched (.ok ()),
        .executed "SELECT * FROM \"p\"" [] (.ok ⟨false, ["n"], [[.int 1]]⟩), .batched (.ok ())] := by
    rw [hh]
    rfl
  have hkeys : DistinctKeys (statements (before ++ [(9, query "p")])) := by
    have hpq : cacheKey "SELECT * FROM \"p\"" [] ≠ cacheKey "SELECT * FROM \"q\"" [] := by decide +kernel
    change DistinctKeys [("SELECT * FROM \"q\"", []), ("SELECT * FROM \"p\"", []), ("SELECT * FROM \"p\"", [])]
    simp [DistinctKeys, hpq, hpq.symm]
  obtain ⟨answer, later, hrun, hreplays, -⟩ := (run_replays hopen (before ++ [(9, query "p")])).2 rfl
    (by decide) hkeys before 9 "SELECT * FROM \"p\"" [] _ [] rfl
  refine ⟨h, hopen, by rw [hh]; rfl, later, ?_⟩
  obtain ⟨r, rfl⟩ := hreplays.fromCache_iff.mpr ⟨⟨false, ["n"], [[.int 1]]⟩, by simp [hearlier]⟩
  obtain ⟨_, fromCache, _, hsplit, -⟩ := hreplays.eq_first r rfl
  have hfirst : Outcome.executed "SELECT * FROM \"p\"" [] (.ok ⟨fromCache, r⟩) ∈ (h.run before).1 := by simp [hsplit]
  obtain ⟨-, rfl⟩ : fromCache = false ∧ r = ⟨["n"], [[.int 1]]⟩ := by simpa [hearlier] using hfirst
  exact hrun

end Handle

end ShelfQuery.Store
