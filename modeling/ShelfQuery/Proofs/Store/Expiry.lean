import Mathlib.Data.List.Induction
import ShelfQuery.Proofs.Data.Lists
import ShelfQuery.Store.Expiring

set_option autoImplicit false

namespace ShelfQuery.Store

/-- A call; `made` is what the maker of `getOrMake` gives if it is called. -/
inductive Call (κ ν ε : Type) where
  | get (key : κ)
  | insert (key : κ) (value : ν)
  | getOrMake (key : κ) (made : Except ε ν)
  | remove (key : κ)
  | clear

inductive Answer (ν ε : Type) where
  | found (value : Option ν)
  | made (result : Except ε ν) (called : Bool)
  | done

structure Event (κ ν ε : Type) where
  time : Nat
  call : Call κ ν ε
  answer : Answer ν ε

namespace Event

variable {κ ν ε : Type} [DecidableEq κ]

/-- The value that is stored under a key, by an insertion or by a maker that was called and did not fail. -/
def stored? (key : κ) : Event κ ν ε → Option ν
  | ⟨_, .insert k value, _⟩ => if k = key then some value else none
  | ⟨_, .getOrMake k _, .made (.ok value) true⟩ => if k = key then some value else none
  | _ => none

def drops (key : κ) (e : Event κ ν ε) : Bool :=
  match e.call with
  | .remove k => k = key
  | .clear => true
  | _ => false

def reads (key : κ) : Event κ ν ε → Bool
  | ⟨_, .get k, .found (some _)⟩ => k = key
  | ⟨_, .getOrMake k _, .made _ false⟩ => k = key
  | _ => false

end Event

section

variable {κ ν ε : Type} [DecidableEq κ]

/-- The time of the last event in which a key was found, or else `start`. -/
def lastRead (key : κ) (start : Nat) (history : List (Event κ ν ε)) : Nat :=
  history.foldl (fun stamp e => if e.reads key then e.time else stamp) start

/-- `value` was stored last under `key`, it was not dropped since, and its time counts from `stamp`. -/
def Standing (refreshing : Bool) (history : List (Event κ ν ε)) (key : κ) (value : ν) (stamp : Nat) : Prop :=
  ∃ earlier e later, history = earlier ++ e :: later ∧ e.stored? key = some value ∧
    (∀ x ∈ later, x.stored? key = none ∧ x.drops key = false) ∧
    stamp = if refreshing then lastRead key e.time later else e.time

variable {refreshing : Bool} {history : List (Event κ ν ε)} {key : κ} {value : ν} {stamp : Nat}

theorem not_standing_nil : ¬ Standing refreshing ([] : List (Event κ ν ε)) key value stamp := by
  rintro ⟨earlier, e, later, h, -⟩
  simp at h

theorem standing_append_singleton {e : Event κ ν ε} : Standing refreshing (history ++ [e]) key value stamp ↔
    e.stored? key = some value ∧ stamp = e.time ∨
      e.stored? key = none ∧ e.drops key = false ∧
        ∃ s, Standing refreshing history key value s ∧ stamp = if refreshing && e.reads key then e.time else s := by
  constructor
  · rintro ⟨earlier, x, later, hhistory, hstored, hlater, hstamp⟩
    rcases List.eq_nil_or_concat later with rfl | ⟨later, y, rfl⟩
    · left
      obtain ⟨-, hx⟩ := List.append_inj' hhistory rfl
      cases hx
      refine ⟨hstored, ?_⟩
      simpa [lastRead] using hstamp
    · right
      have hsplit : history ++ [e] = (earlier ++ x :: later) ++ [y] := by simp [hhistory]
      obtain ⟨rfl, hy⟩ := List.append_inj' hsplit rfl
      cases hy
      obtain ⟨hnone, hkept⟩ := hlater e (by simp)
      refine ⟨hnone, hkept, _, ⟨earlier, x, later, rfl, hstored, fun z hz => hlater z (by simp [hz]), rfl⟩, ?_⟩
      cases refreshing with
      | false => simpa using hstamp
      | true => simpa [lastRead] using hstamp
  · rintro (⟨hstored, rfl⟩ | ⟨hnone, hkept, s, ⟨earlier, x, later, rfl, hstored, hlater, rfl⟩, rfl⟩)
    · exact ⟨history, e, [], rfl, hstored, by simp, by simp [lastRead]⟩
    · refine ⟨earlier, x, later ++ [e], by simp, hstored, ?_, ?_⟩
      · intro y hy
        rcases List.mem_append.mp hy with hy | hy
        · exact hlater y hy
        · obtain rfl := List.mem_singleton.mp hy
          exact ⟨hnone, hkept⟩
      · cases refreshing with
        | false => rfl
        | true => simp [lastRead]

theorem Standing.unique {value' : ν} {stamp' : Nat} (h : Standing refreshing history key value stamp)
    (h' : Standing refreshing history key value' stamp') : value = value' ∧ stamp = stamp' := by
  induction history using List.reverseRecOn generalizing stamp stamp' with
  | nil => exact absurd h not_standing_nil
  | append_singleton history e ih =>
    rw [standing_append_singleton] at h h'
    rcases h with ⟨hstored, rfl⟩ | ⟨hnone, -, s, hs, rfl⟩
    · rcases h' with ⟨hstored', rfl⟩ | ⟨hnone', -⟩
      · exact ⟨Option.some.inj (hstored.symm.trans hstored'), rfl⟩
      · rw [hnone'] at hstored
        exact nomatch hstored
    · rcases h' with ⟨hstored', -⟩ | ⟨-, -, s', hs', rfl⟩
      · rw [hnone] at hstored'
        exact nomatch hstored'
      · obtain ⟨rfl, rfl⟩ := ih hs hs'
        exact ⟨rfl, rfl⟩

end

namespace Expiring

variable {κ ν ε : Type} [DecidableEq κ]

def perform (m : Expiring κ ν) (time : Nat) : Call κ ν ε → Answer ν ε × Expiring κ ν
  | .get key => (.found (m.get time key).1, (m.get time key).2)
  | .insert key value => (.done, m.insert time key value)
  | .getOrMake key made =>
    let (result, called, m) := m.getOrMake time key fun _ => made
    (.made result called, m)
  | .remove key => (.found (m.remove key).1, (m.remove key).2)
  | .clear => (.done, m.clear)

def run (m : Expiring κ ν) : List (Nat × Call κ ν ε) → List (Event κ ν ε) × Expiring κ ν
  | [] => ([], m)
  | (time, call) :: rest =>
    let (answer, m) := m.perform time call
    let (events, m) := m.run rest
    (⟨time, call, answer⟩ :: events, m)

/-- After a history that ended at `now`, the entries that have not expired are the values that stand. -/
structure Tracks (m : Expiring κ ν) (history : List (Event κ ν ε)) (now : Nat) : Prop where
  nodup : (m.entries.map Stamped.key).Nodup
  mem_iff : ∀ (key : κ) (value : ν) (stamp : Nat), now - stamp < m.lifetime →
    (⟨key, value, stamp⟩ ∈ m.entries ↔ Standing m.refreshing history key value stamp)

theorem find?_eq_some_iff {m : Expiring κ ν} (h : (m.entries.map Stamped.key).Nodup) {key : κ} {e : Stamped κ ν} :
    m.find? key = some e ↔ e ∈ m.entries ∧ e.key = key := find?_key_eq_some_iff h

theorem mem_without {m : Expiring κ ν} {key : κ} {e : Stamped κ ν} : e ∈ m.without key ↔ e ∈ m.entries ∧ e.key ≠ key := by
  simp [without]

theorem nodup_cons {m : Expiring κ ν} {entries : List (Stamped κ ν)} {e : Stamped κ ν}
    (h : (m.entries.map Stamped.key).Nodup) (hsub : entries.Sublist (m.without e.key)) :
    ((e :: entries).map Stamped.key).Nodup := by
  rw [List.map_cons, List.nodup_cons]
  constructor
  · intro hmem
    obtain ⟨x, hx, hkey⟩ := List.mem_map.mp hmem
    exact (mem_without.mp (hsub.subset hx)).2 hkey
  · exact h.sublist ((hsub.trans List.filter_sublist).map _)

omit [DecidableEq κ] in
theorem isLive_iff {m : Expiring κ ν} {time : Nat} {e : Stamped κ ν} :
    m.isLive time e = true ↔ time - e.stamp < m.lifetime := by simp [isLive]

def live? (m : Expiring κ ν) (time : Nat) (key : κ) : Option (Stamped κ ν) := (m.find? key).filter (m.isLive time)

section

variable {m : Expiring κ ν} {time : Nat} {key : κ} {e : Stamped κ ν}

theorem live?_eq_some_iff (h : (m.entries.map Stamped.key).Nodup) :
    m.live? time key = some e ↔ e ∈ m.entries ∧ e.key = key ∧ m.isLive time e = true := by
  rw [live?, Option.filter_eq_some_iff, find?_eq_some_iff h, and_assoc]

theorem get_of_live (h : m.live? time key = some e) : m.get time key = (some e.value, m.touch time e) := by
  obtain ⟨hfind, hlive⟩ := Option.filter_eq_some_iff.mp h
  simp [get, hfind, hlive]

/-- What is not found has at most expired, and then only it is dropped. -/
theorem get_of_not_live (hnodup : (m.entries.map Stamped.key).Nodup) (h : m.live? time key = none) :
    (m.get time key).1 = none ∧ ∃ entries : List (Stamped κ ν), (m.get time key).2 = { m with entries } ∧
      entries.Sublist m.entries ∧ ∀ e ∈ m.entries, m.isLive time e = true → e ∈ entries := by
  cases hfind : m.find? key with
  | none =>
    have hget : m.get time key = (none, m) := by simp [get, hfind]
    rw [hget]
    exact ⟨rfl, m.entries, rfl, List.Sublist.refl _, fun _ he _ => he⟩
  | some x =>
    have hexpired : m.isLive time x = false := by simpa [live?, hfind] using h
    have hget : m.get time key = (none, { m with entries := m.without key }) := by simp [get, hfind, hexpired]
    rw [hget]
    refine ⟨rfl, m.without key, rfl, List.filter_sublist, fun e he hlive => mem_without.mpr ⟨he, ?_⟩⟩
    intro hkey
    rw [(find?_eq_some_iff hnodup).mpr ⟨he, hkey⟩] at hfind
    cases hfind
    rw [hexpired] at hlive
    exact nomatch hlive

theorem getOrMake_of_live (h : m.live? time key = some e) (make : Unit → Except ε ν) :
    m.getOrMake time key make = (.ok e.value, false, m.touch time e) := by
  rw [live?] at h
  simp only [getOrMake, h]

theorem getOrMake_of_not_live (h : m.live? time key = none) (make : Unit → Except ε ν) :
    m.getOrMake time key make =
      match make () with
      | .ok value => (.ok value, true, m.insert time key value)
      | .error e => (.error e, true, m) := by
  rw [live?] at h
  cases hmake : make () <;> simp only [getOrMake, h, hmake]

end

namespace Tracks

variable {m : Expiring κ ν} {history : List (Event κ ν ε)} {now time : Nat} {x : Event κ ν ε} {key : κ}

theorem later (h : m.Tracks history now) (hle : now ≤ time) : m.Tracks history time := by
  refine ⟨h.nodup, fun key value stamp hlive => ?_⟩
  exact h.mem_iff key value stamp (by omega)

theorem forget (h : m.Tracks history now) {entries : List (Stamped κ ν)} (hsub : entries.Sublist m.entries)
    (hkept : ∀ e ∈ m.entries, m.isLive now e = true → e ∈ entries) :
    ({ m with entries } : Expiring κ ν).Tracks history now := by
  refine ⟨h.nodup.sublist (hsub.map _), fun key value stamp hlive => ?_⟩
  rw [← h.mem_iff key value stamp hlive]
  exact ⟨fun hmem => hsub.subset hmem, fun hmem => hkept _ hmem (isLive_iff.mpr hlive)⟩

/-- An event that neither stores nor drops nor finds anything. -/
theorem idle (h : m.Tracks history now) (hstored : ∀ k, x.stored? k = none) (hdrops : ∀ k, x.drops k = false)
    (hreads : ∀ k, x.reads k = false) : m.Tracks (history ++ [x]) now := by
  refine ⟨h.nodup, fun key value stamp hlive => ?_⟩
  rw [h.mem_iff key value stamp hlive, standing_append_singleton]
  simp [hstored key, hdrops key, hreads key]

theorem touch (h : m.Tracks history now) {e : Stamped κ ν} (he : e ∈ m.entries) (hlive : m.isLive now e = true)
    (htime : x.time = now) (hstored : ∀ k, x.stored? k = none) (hdrops : ∀ k, x.drops k = false)
    (hreads : ∀ k, x.reads k = decide (e.key = k)) : (m.touch now e).Tracks (history ++ [x]) now := by
  have hstanding (key : κ) (value : ν) (stamp : Nat) : Standing m.refreshing (history ++ [x]) key value stamp ↔
      ∃ s, Standing m.refreshing history key value s ∧ stamp = if m.refreshing && decide (e.key = key) then now else s := by
    rw [standing_append_singleton]
    simp [hstored key, hdrops key, hreads key, htime]
  by_cases hrefreshing : m.refreshing = true
  · have htouch : m.touch now e = { m with entries := { e with stamp := now } :: m.without e.key } := by
      simp [Expiring.touch, hrefreshing]
    rw [htouch]
    refine ⟨nodup_cons h.nodup (List.Sublist.refl _), fun key value stamp hstamp => ?_⟩
    have hfound : Standing m.refreshing history e.key e.value e.stamp :=
      (h.mem_iff _ _ _ (isLive_iff.mp hlive)).mp he
    refine Iff.trans ?_ (hstanding key value stamp).symm
    simp only [List.mem_cons, mem_without, Stamped.mk.injEq]
    by_cases hkey : e.key = key
    · subst hkey
      constructor
      · rintro (⟨-, rfl, rfl⟩ | ⟨-, hne⟩)
        · exact ⟨e.stamp, hfound, by simp [hrefreshing]⟩
        · exact absurd rfl hne
      · rintro ⟨s, hs, rfl⟩
        exact .inl ⟨rfl, (hs.unique hfound).1, by simp [hrefreshing]⟩
    · simp [hkey, Ne.symm hkey, h.mem_iff key value stamp hstamp]
  · have htouch : m.touch now e = m := by simp [Expiring.touch, hrefreshing]
    rw [htouch]
    refine ⟨h.nodup, fun key value stamp hstamp => ?_⟩
    rw [h.mem_iff key value stamp hstamp, hstanding]
    simp [hrefreshing]

theorem insert (h : m.Tracks history now) {value : ν} (htime : x.time = now) (hself : x.stored? key = some value)
    (hother : ∀ k, k ≠ key → x.stored? k = none ∧ x.reads k = false) (hdrops : ∀ k, x.drops k = false) :
    (m.insert now key value).Tracks (history ++ [x]) now := by
  refine ⟨nodup_cons h.nodup List.filter_sublist, fun k v stamp hstamp => ?_⟩
  simp only [Expiring.insert, List.mem_cons, List.mem_filter, mem_without, standing_append_singleton, hdrops, true_and]
  by_cases hkey : k = key
  · subst hkey
    simp only [hself, htime, Stamped.mk.injEq, Option.some.injEq, ne_eq, not_true, and_false, false_and, or_false, true_and,
      reduceCtorEq]
    exact and_congr_left' eq_comm
  · obtain ⟨hstored, hreads⟩ := hother k hkey
    have hlive : m.isLive now ⟨k, v, stamp⟩ = true := isLive_iff.mpr hstamp
    simp [hkey, hstored, hreads, hlive, h.mem_iff k v stamp hstamp]

theorem remove (h : m.Tracks history now) (hstored : ∀ k, x.stored? k = none)
    (hdrops : ∀ k, x.drops k = decide (key = k)) (hreads : ∀ k, x.reads k = false) :
    (m.remove key).2.Tracks (history ++ [x]) now := by
  refine ⟨h.nodup.sublist (List.filter_sublist.map _), fun k v stamp hstamp => ?_⟩
  simp only [Expiring.remove, mem_without, standing_append_singleton, hstored, hdrops, hreads]
  by_cases hkey : key = k
  · simp [hkey]
  · simp [hkey, Ne.symm hkey, h.mem_iff k v stamp hstamp]

theorem clear (h : ∀ k, x.stored? k = none ∧ x.drops k = true) : m.clear.Tracks (history ++ [x]) now := by
  refine ⟨List.nodup_nil, fun k v stamp _ => ?_⟩
  simp [Expiring.clear, standing_append_singleton, h k]

theorem perform (h : m.Tracks history now) (hle : now ≤ time) (call : Call κ ν ε) :
    (m.perform time call).2.Tracks (history ++ [⟨time, call, (m.perform time call).1⟩]) time := by
  have h := h.later hle
  cases call with
  | get key =>
    cases hlive : m.live? time key with
    | some e =>
      simp only [Expiring.perform, get_of_live hlive]
      obtain ⟨he, rfl, hin⟩ := (live?_eq_some_iff h.nodup).mp hlive
      exact h.touch he hin rfl (fun _ => rfl) (fun _ => rfl) (fun _ => rfl)
    | none =>
      obtain ⟨hnone, entries, hentries, hsub, hkept⟩ := get_of_not_live h.nodup hlive
      simp only [Expiring.perform, hnone, hentries]
      exact (h.forget hsub hkept).idle (fun _ => rfl) (fun _ => rfl) (fun _ => rfl)
  | insert key value =>
    exact h.insert rfl (if_pos rfl) (fun k hk => ⟨if_neg (Ne.symm hk), rfl⟩) (fun _ => rfl)
  | getOrMake key made =>
    cases hlive : m.live? time key with
    | some e =>
      simp only [Expiring.perform, getOrMake_of_live hlive]
      obtain ⟨he, rfl, hin⟩ := (live?_eq_some_iff h.nodup).mp hlive
      exact h.touch he hin rfl (fun _ => rfl) (fun _ => rfl) (fun _ => rfl)
    | none =>
      simp only [Expiring.perform, getOrMake_of_not_live hlive]
      cases made with
      | ok value => exact h.insert rfl (if_pos rfl) (fun k hk => ⟨if_neg (Ne.symm hk), rfl⟩) (fun _ => rfl)
      | error e => exact h.idle (fun _ => rfl) (fun _ => rfl) (fun _ => rfl)
  | remove key => exact h.remove (fun _ => rfl) (fun _ => rfl) (fun _ => rfl)
  | clear => exact clear fun _ => ⟨rfl, rfl⟩

theorem run (h : m.Tracks history now) {calls : List (Nat × Call κ ν ε)}
    (htimes : (now :: calls.map Prod.fst ++ [time]).Pairwise (· ≤ ·)) :
    (m.run calls).2.Tracks (history ++ (m.run calls).1) time := by
  induction calls generalizing m history now with
  | nil =>
    have hle : now ≤ time := by simpa using htimes
    simpa [Expiring.run] using h.later hle
  | cons c rest ih =>
    obtain ⟨t, call⟩ := c
    have hle : now ≤ t := List.rel_of_pairwise_cons htimes (by simp)
    have hafter := ih (h.perform hle call) (List.pairwise_cons.mp htimes).2
    simpa [Expiring.run] using hafter

end Tracks

variable (κ ν) in
def fresh (lifetime : Nat) (refreshing : Bool) : Expiring κ ν := { lifetime, refreshing }

theorem tracks_fresh (lifetime : Nat) (refreshing : Bool) :
    (fresh κ ν lifetime refreshing).Tracks ([] : List (Event κ ν ε)) 0 := by
  refine ⟨List.nodup_nil, fun key value stamp _ => ?_⟩
  simp [fresh, not_standing_nil]

theorem touch_settings (m : Expiring κ ν) (time : Nat) (e : Stamped κ ν) :
    (m.touch time e).lifetime = m.lifetime ∧ (m.touch time e).refreshing = m.refreshing := by
  unfold touch
  split <;> exact ⟨rfl, rfl⟩

theorem perform_settings (m : Expiring κ ν) (time : Nat) (call : Call κ ν ε) :
    (m.perform time call).2.lifetime = m.lifetime ∧ (m.perform time call).2.refreshing = m.refreshing := by
  cases call with
  | get key =>
    simp only [perform, get]
    split
    · exact ⟨rfl, rfl⟩
    · split
      · exact touch_settings m time _
      · exact ⟨rfl, rfl⟩
  | getOrMake key made =>
    simp only [perform, getOrMake]
    split
    · exact touch_settings m time _
    · cases made <;> exact ⟨rfl, rfl⟩
  | _ => exact ⟨rfl, rfl⟩

theorem run_settings (m : Expiring κ ν) (calls : List (Nat × Call κ ν ε)) :
    (m.run calls).2.lifetime = m.lifetime ∧ (m.run calls).2.refreshing = m.refreshing := by
  induction calls generalizing m with
  | nil => exact ⟨rfl, rfl⟩
  | cons c rest ih =>
    obtain ⟨hlifetime, hrefreshing⟩ := perform_settings m c.1 c.2
    obtain ⟨hlifetime', hrefreshing'⟩ := ih (m.perform c.1 c.2).2
    exact ⟨hlifetime'.trans hlifetime, hrefreshing'.trans hrefreshing⟩

theorem Tracks.get_eq_some_iff {m : Expiring κ ν} {history : List (Event κ ν ε)} {time : Nat} (h : m.Tracks history time)
    (key : κ) (value : ν) : (m.get time key).1 = some value ↔
      ∃ stamp, Standing m.refreshing history key value stamp ∧ time - stamp < m.lifetime := by
  have hlive : (m.get time key).1 = some value ↔ ∃ e, m.live? time key = some e ∧ e.value = value := by
    cases hlive : m.live? time key with
    | some e => simp [get_of_live hlive]
    | none => simp [(get_of_not_live h.nodup hlive).1]
  rw [hlive]
  constructor
  · rintro ⟨e, he, rfl⟩
    obtain ⟨hmem, rfl, hin⟩ := (live?_eq_some_iff h.nodup).mp he
    have hstamp := isLive_iff.mp hin
    exact ⟨e.stamp, (h.mem_iff _ _ _ hstamp).mp hmem, hstamp⟩
  · rintro ⟨stamp, hstanding, hstamp⟩
    have hmem := (h.mem_iff _ _ _ hstamp).mpr hstanding
    exact ⟨⟨key, value, stamp⟩, (live?_eq_some_iff h.nodup).mpr ⟨hmem, rfl, isLive_iff.mpr hstamp⟩, rfl⟩

/-- A map answers by its history. A value is found if and only if it was stored last under its key,
was not dropped since, and its time has not run out. A maker is called exactly when nothing would be
found, and one that fails changes no later answer. -/
theorem run_answers (lifetime : Nat) (refreshing : Bool) (calls : List (Nat × Call κ ν ε)) (time : Nat)
    (htimes : (calls.map Prod.fst ++ [time]).Pairwise (· ≤ ·)) (key : κ) :
    let (history, m) := (fresh κ ν lifetime refreshing).run calls
    (∀ value, (m.get time key).1 = some value ↔
      ∃ stamp, Standing refreshing history key value stamp ∧ time - stamp < lifetime) ∧
    ∀ make : Unit → Except ε ν,
      (((m.getOrMake time key make).1, (m.getOrMake time key make).2.1) =
        match (m.get time key).1 with
        | some value => (.ok value, false)
        | none => (make (), true)) ∧
      ((m.get time key).1 = none → ∀ e, make () = .error e → ∀ later : List (Nat × Call κ ν ε),
        ((m.getOrMake time key make).2.2.run later).1 = (m.run later).1) := by
  have htracks : ((fresh κ ν lifetime refreshing).run calls).2.Tracks ((fresh κ ν lifetime refreshing).run calls).1 time := by
    have hstart : (0 :: calls.map Prod.fst ++ [time]).Pairwise (· ≤ ·) := by simpa using htimes
    simpa using (tracks_fresh lifetime refreshing).run hstart
  obtain ⟨hlifetime, hrefreshing⟩ := run_settings (fresh κ ν lifetime refreshing) calls
  generalize (fresh κ ν lifetime refreshing).run calls = reached at htracks hlifetime hrefreshing
  obtain ⟨history, m⟩ := reached
  refine ⟨fun value => ?_, fun make => ?_⟩
  · have hiff := htracks.get_eq_some_iff key value
    rw [hlifetime, hrefreshing] at hiff
    exact hiff
  · cases hlive : m.live? time key with
    | some e =>
      rw [getOrMake_of_live hlive, get_of_live hlive]
      exact ⟨rfl, nofun⟩
    | none =>
      rw [getOrMake_of_not_live hlive, (get_of_not_live htracks.nodup hlive).1]
      cases make () with
      | ok value => exact ⟨rfl, nofun⟩
      | error e => exact ⟨rfl, fun _ _ _ _ => rfl⟩

/-- A value that is read in time stays, although an insertion swept the map in between and a maker
failed; it is gone as soon as its whole lifetime has passed. -/
theorem run_answers_refreshed :
    let calls : List (Nat × Call Char Nat String) :=
      [(0, .insert 'a' 1), (3, .insert 'b' 2), (6, .get 'a'), (13, .insert 'c' 3), (13, .getOrMake 'b' (.error "no"))]
    let m := ((fresh Char Nat 10 true).run calls).2
    (m.get 15 'a').1 = some 1 ∧ (m.get 16 'a').1 = none := by
  intro calls m
  have hstanding : Standing true ((fresh Char Nat 10 true).run calls).1 'a' 1 6 :=
    ⟨[], _, _, rfl, rfl, by decide, rfl⟩
  have hfound (time : Nat) (hle : 13 ≤ time) := (run_answers 10 true calls time (by simp [calls]; omega) 'a').1
  constructor
  · exact (hfound 15 (by decide) 1).mpr ⟨6, hstanding, by decide⟩
  · refine Option.eq_none_iff_forall_ne_some.mpr fun value hvalue => ?_
    obtain ⟨stamp, hlast, hstamp⟩ := (hfound 16 (by decide) value).mp hvalue
    obtain ⟨-, rfl⟩ := hlast.unique hstanding
    exact absurd hstamp (by decide)

end Expiring

end ShelfQuery.Store
