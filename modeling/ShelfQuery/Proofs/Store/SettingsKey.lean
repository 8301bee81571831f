import ShelfQuery.Proofs.Data.JsonTexts
import ShelfQuery.Proofs.Store.CacheKey
import ShelfQuery.Proofs.Store.Expiry
import ShelfQuery.Store.Handle

set_option autoImplicit false

namespace ShelfQuery.Store

open ShelfQuery.Data ShelfQuery.Schema ShelfQuery.Digest

theorem columnJson_injective : Function.Injective columnJson := by
  rintro ⟨name, datatype⟩ ⟨name', datatype'⟩ h
  obtain ⟨hname, hdatatype⟩ : name = name' ∧ datatype.name = datatype'.name := by simpa [columnJson] using h
  have hsame : datatype = datatype' := by
    cases datatype <;> cases datatype' <;> first | rfl | exact absurd hdatatype (by decide)
  rw [hname, hsame]

theorem tableJson_injective : Function.Injective tableJson := by
  rintro ⟨name, columns⟩ ⟨name', columns'⟩ h
  obtain ⟨hname, hcolumns⟩ : name = name' ∧ columns.map columnJson = columns'.map columnJson := by
    simpa [tableJson] using h
  rw [hname, columnJson_injective.list_map hcolumns]

theorem exact_tableJson (t : Table) : (tableJson t).Exact := by
  refine .obj fun m hm => ?_
  rcases List.mem_pair.mp hm with rfl | rfl
  · exact .str _
  · refine .arr fun v hv => ?_
    obtain ⟨c, -, rfl⟩ := List.mem_map.mp hv
    refine .obj fun m hm => ?_
    rcases List.mem_pair.mp hm with rfl | rfl <;> exact .str _

namespace Settings

theorem toJson_injective : Function.Injective toJson := by
  intro a b h
  simp only [toJson, Json.obj.injEq, List.cons.injEq, Prod.mk.injEq, true_and, and_true, Json.str.injEq, Json.bool.injEq,
    Json.int.injEq, Json.arr.injEq, Int.ofNat_inj] at h
  obtain ⟨hurl, hdialect, hdebug, hcache, hbackend, hexpiration, htables⟩ := h
  have hsame : a.dialect = b.dialect := by
    cases ha : a.dialect <;> cases hb : b.dialect <;> first | rfl | exact absurd hdialect (by rw [ha, hb]; decide)
  have htables : a.tables = b.tables := tableJson_injective.list_map htables
  cases a
  cases b
  simp_all

theorem exact_toJson (s : Settings) : s.toJson.Exact := by
  refine .obj fun m hm => ?_
  simp only [List.mem_cons, List.not_mem_nil, or_false] at hm
  rcases hm with rfl | rfl | rfl | rfl | rfl | rfl | rfl
  case inr.inr.inr.inr.inr.inr =>
    refine .arr fun v hv => ?_
    obtain ⟨t, -, rfl⟩ := List.mem_map.mp hv
    exact exact_tableJson t
  all_goals constructor

theorem compact_toJson_inj {a b : Settings} (h : a.toJson.compact = b.toJson.compact) : a = b :=
  toJson_injective (a.exact_toJson.compact_inj b.exact_toJson h)

theorem key_eq {a b : Settings} (h : a.key = b.key) :
    a = b ∨ Collision (bytes a.toJson.compact) (bytes b.toJson.compact) := by
  by_cases hbytes : bytes a.toJson.compact = bytes b.toJson.compact
  · exact .inl (compact_toJson_inj (bytes_injective hbytes))
  · exact .inr ⟨hbytes, hexDigest_eq_iff.mp h⟩

end Settings

/-- What holds of every key with its value holds of the key that is asked for with what it is answered. -/
theorem Expiring.getOrMake_forall {κ ν ε : Type} [DecidableEq κ] {P : κ → ν → Prop} {m : Expiring κ ν} {time : Nat} {key : κ}
    {make : Unit → Except ε ν} (h : ∀ e ∈ m.entries, P e.key e.value) (hmake : ∀ v, make () = .ok v → P key v) :
    (∀ v, (m.getOrMake time key make).1 = .ok v → P key v) ∧
      ∀ e ∈ (m.getOrMake time key make).2.2.entries, P e.key e.value := by
  cases hlive : m.live? time key with
  | some e =>
    obtain ⟨hfind, -⟩ := Option.filter_eq_some_iff.mp hlive
    have he := h e (List.mem_of_find?_eq_some hfind)
    obtain rfl : e.key = key := by simpa using List.find?_some hfind
    rw [getOrMake_of_live hlive]
    refine ⟨?_, fun x hx => ?_⟩
    · rintro v ⟨⟩
      exact he
    · dsimp only [touch] at hx
      split at hx
      · rcases List.mem_cons.mp hx with rfl | hx
        · exact he
        · exact h x (mem_without.mp hx).1
      · exact h x hx
  | none =>
    rw [getOrMake_of_not_live hlive]
    cases hvalue : make () with
    | error e =>
      refine ⟨?_, h⟩
      rintro v ⟨⟩
    | ok value =>
      refine ⟨?_, fun x hx => ?_⟩
      · rintro v ⟨⟩
        exact hmake value hvalue
      · rcases List.mem_cons.mp hx with rfl | hx
        · exact hmake value hvalue
        · exact h x (mem_without.mp (List.mem_filter.mp hx).1).1

theorem Handle.settings_of_openEmpty {s : Settings} {h : Handle} (hopen : Handle.openEmpty s = .ok h) : h.settings = s := by
  unfold openEmpty openWith at hopen
  cases hpath : s.path <;> cases hcache : cacheFor s <;> rw [hpath, hcache] at hopen <;> cases hopen
  rfl

namespace Registry

def after (calls : List (Nat × Settings)) : Registry := calls.foldl (fun r c => (r.obtain c.1 c.2).2) {}

/-- Somewhere in a run the settings `s` are answered with the handle that has the number `n`. -/
def Serves (calls : List (Nat × Settings)) (s : Settings) (n : Nat) (h : Handle) : Prop :=
  ∃ earlier time later, calls = earlier ++ (time, s) :: later ∧ ((after earlier).obtain time s).1 = .ok (n, h)

/-- A handle that stands under a key was opened by the call that its number counts, for settings with that key. -/
structure Opened (calls : List (Nat × Settings)) (key : String) (p : Nat × Handle) : Prop where
  key_eq : p.2.settings.key = key
  call : ∃ time, calls[p.1]? = some (time, p.2.settings)

variable {calls : List (Nat × Settings)} {key : String} {p : Nat × Handle}

theorem Opened.append (h : Opened calls key p) (more : List (Nat × Settings)) : Opened (calls ++ more) key p := by
  obtain ⟨time, hcall⟩ := h.call
  refine ⟨h.key_eq, time, ?_⟩
  rw [List.getElem?_append_left (List.getElem?_eq_some_iff.mp hcall).1, hcall]

theorem obtain_opened {r : Registry} (hnumber : r.nextNumber = calls.length)
    (h : ∀ e ∈ r.handles.entries, Opened calls e.key e.value) (time : Nat) (s : Settings) :
    (∀ p, (r.obtain time s).1 = .ok p → Opened (calls ++ [(time, s)]) s.key p) ∧
      ∀ e ∈ (r.obtain time s).2.handles.entries, Opened (calls ++ [(time, s)]) e.key e.value := by
  have hobtain : r.obtain time s =
      let made := r.handles.getOrMake time s.key fun _ => (Handle.openEmpty s).map fun h => (r.nextNumber, h)
      (made.1, ⟨made.2.2, r.nextNumber + 1⟩) := rfl
  rw [hobtain]
  refine Expiring.getOrMake_forall (fun e he => (h e he).append _) fun p hp => ?_
  cases hopen : Handle.openEmpty s with
  | error e =>
    rw [hopen] at hp
    cases hp
  | ok handle =>
    rw [hopen] at hp
    cases hp
    have hsettings := Handle.settings_of_openEmpty hopen
    refine ⟨by rw [hsettings], time, ?_⟩
    rw [hnumber, List.getElem?_concat_length, hsettings]

theorem after_opened (calls : List (Nat × Settings)) :
    (after calls).nextNumber = calls.length ∧ ∀ e ∈ (after calls).handles.entries, Opened calls e.key e.value := by
  induction calls using List.reverseRecOn with
  | nil => exact ⟨rfl, fun e he => absurd he List.not_mem_nil⟩
  | append_singleton calls c ih =>
    obtain ⟨hnumber, hentries⟩ := ih
    have hafter : after (calls ++ [c]) = ((after calls).obtain c.1 c.2).2 := by simp [after]
    rw [hafter]
    refine ⟨?_, (obtain_opened hnumber hentries c.1 c.2).2⟩
    rw [List.length_append, ← hnumber]
    rfl

theorem Serves.opened {s : Settings} {n : Nat} {h : Handle} (hserves : Serves calls s n h) : Opened calls s.key (n, h) := by
  obtain ⟨earlier, time, later, rfl, hanswer⟩ := hserves
  obtain ⟨hnumber, hentries⟩ := after_opened earlier
  have hopened := ((obtain_opened hnumber hentries time s).1 _ hanswer).append later
  rwa [List.append_assoc, List.singleton_append] at hopened

end Registry

/-- The key is the digest of the JSON text. Settings have one key if and only if they are the same, or their texts collide.
Only then can they be answered with one handle, or with one that was opened for others. -/
theorem Settings.key_eq_iff (a b : Settings) :
    a.key = hexDigest (bytes a.toJson.compact) ∧
      (a.key = b.key ↔ a = b ∨ Collision (bytes a.toJson.compact) (bytes b.toJson.compact)) ∧
      ∀ calls n h h', Registry.Serves calls a n h → Registry.Serves calls b n h' →
        (a = b ∨ Collision (bytes a.toJson.compact) (bytes b.toJson.compact)) ∧
        (h.settings = a ∨ Collision (bytes h.settings.toJson.compact) (bytes a.toJson.compact)) := by
  refine ⟨rfl, ⟨key_eq, ?_⟩, fun calls n h h' ha hb => ?_⟩
  · rintro (rfl | ⟨-, hdigest⟩)
    · rfl
    · exact hexDigest_eq_iff.mpr hdigest
  · obtain ⟨hkey, time, hcall⟩ := ha.opened
    obtain ⟨hkey', time', hcall'⟩ := hb.opened
    have hsettings : h.settings = h'.settings := by
      rw [hcall] at hcall'
      exact congrArg Prod.snd (Option.some.inj hcall')
    refine ⟨key_eq ?_, key_eq hkey⟩
    rw [← hkey, hsettings, hkey']

/-- The name of a table that is written like the end of one and the beginning of another. -/
theorem Settings.key_eq_iff_imitated :
    let one : Settings := { url := ":memory:", tables := [⟨"t\",\"columns\":[]\x7d,\x7b\"name\":\"u", []⟩] }
    let two : Settings := { url := ":memory:", tables := [⟨"t", []⟩, ⟨"u", []⟩] }
    (one.key = two.key → Collision (bytes one.toJson.compact) (bytes two.toJson.compact)) ∧
      ∃ h, Registry.Serves [(0, one)] one 0 h ∧
        (h.settings = one ∨ Collision (bytes h.settings.toJson.compact) (bytes one.toJson.compact)) := by
  intro one two
  have hne : one ≠ two := by decide
  have hserves : Registry.Serves [(0, one)] one 0 ⟨one, [], ⟨handleLifetime, true, []⟩, none, 0⟩ := by
    refine ⟨[], 0, [], rfl, ?_⟩
    dsimp only [one]
    rfl
  refine ⟨fun hkey => ?_, _, hserves, ((key_eq_iff one one).2.2 _ _ _ _ hserves hserves).2⟩
  exact ((key_eq_iff one two).2.1.mp hkey).resolve_left hne

end ShelfQuery.Store
