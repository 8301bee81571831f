import Mathlib.Data.List.Chain
import ShelfQuery.Proofs.Shelf.Expansion

set_option autoImplicit false

/-!
# Which texts can be expanded

The references of a text and of the fields that it leads to make a graph, which may have cycles and gaps. Expansion
walks it depth first.
-/

namespace ShelfQuery.Shelf

open ShelfQuery.Expression ShelfQuery.Text
open ShelfQuery.Schema (isNameChar)

/-- `@name` stands in characters that are read from `q` on: it is outside of quotes there, and the name
ends where its characters do. -/
def MentionsFrom (q : Quoting) (cs : List Char) (name : String) : Prop :=
  ∃ before after, cs = before ++ '@' :: (name.toList ++ after) ∧ before.foldl Quoting.after q = .outside ∧
    name.toList ≠ [] ∧ (∀ c ∈ name.toList, isNameChar c = true) ∧ Stops isNameChar after.head?

def Mentions (text name : String) : Prop := MentionsFrom .outside text.toList name

section

variable {q : Quoting} {c : Char} {cs : List Char} {name : String}

theorem mentionsFrom_nil : ¬ MentionsFrom q [] name := by
  rintro ⟨before, after, hcs, -⟩
  simp at hcs

theorem mentionsFrom_cons : MentionsFrom q (c :: cs) name ↔
    (q = .outside ∧ c = '@' ∧ name.toList ≠ [] ∧ cs.takeWhile isNameChar = name.toList) ∨
      MentionsFrom (q.after c) cs name := by
  constructor
  · rintro ⟨before, after, hcs, hq, hname, hchars, hafter⟩
    cases before with
    | nil =>
      obtain ⟨rfl, rfl⟩ := List.cons.inj hcs
      exact .inl ⟨hq, rfl, hname, (span_eq hchars hafter).1⟩
    | cons d before =>
      obtain ⟨rfl, rfl⟩ := List.cons.inj hcs
      exact .inr ⟨before, after, rfl, hq, hname, hchars, hafter⟩
  · rintro (⟨rfl, rfl, hname, htake⟩ | ⟨before, after, rfl, hq, hname, hchars, hafter⟩)
    · refine ⟨[], cs.dropWhile isNameChar, ?_, rfl, hname, ?_, stops_dropWhile isNameChar cs⟩
      · rw [← htake, List.takeWhile_append_dropWhile, List.nil_append]
      · rw [← htake]
        exact forall_takeWhile isNameChar cs
    · exact ⟨c :: before, after, rfl, hq, hname, hchars, hafter⟩

theorem mentionsFrom_word {word : List Char} (hword : ∀ c ∈ word, isNameChar c = true) :
    MentionsFrom .outside (word ++ cs) name ↔ MentionsFrom .outside cs name := by
  induction word with
  | nil => rfl
  | cons c word ih =>
    have hne {d : Char} (hd : isNameChar d = false) : c ≠ d := by
      rintro rfl
      exact absurd (hword c (.head _)) (by simp [hd])
    have hafter : Quoting.outside.after c = .outside := by
      simp [Quoting.after, hne (d := '"') rfl, hne (d := '\'') rfl]
    rw [List.cons_append, mentionsFrom_cons, hafter, ih fun d hd => hword d (.tail _ hd)]
    simp [hne (d := '@') rfl]

end

theorem mem_segmentsFrom_iff (skip : Nat) (q : Quoting) (cs : List Char) (name : String) :
    .reference name ∈ segmentsFrom skip q cs ↔ MentionsFrom q (cs.drop skip) name := by
  fun_induction segmentsFrom skip q cs with
  | case1 skip q => simp [mentionsFrom_nil]
  | case2 q c rest skip ih => exact ih
  | case3 c rest word hstart ih =>
    obtain ⟨rfl, hword⟩ : c = '@' ∧ word ≠ [] := by simpa using hstart
    have hsplit : rest = word ++ rest.drop word.length := by
      rw [drop_takeWhile_length, List.takeWhile_append_dropWhile]
    have hrest : MentionsFrom .outside rest name ↔ MentionsFrom .outside (rest.drop word.length) name := by
      conv_lhs => rw [hsplit]
      exact mentionsFrom_word (forall_takeWhile isNameChar rest)
    rw [List.mem_cons, ih, List.drop_zero, mentionsFrom_cons, ← hrest]
    refine or_congr ?_ Iff.rfl
    constructor
    · intro hname
      cases hname
      exact ⟨rfl, rfl, by simpa using hword, by simp [word]⟩
    · rintro ⟨-, -, -, hname⟩
      rw [show word = name.toList from hname, String.ofList_toList]
  | case4 c rest word hstart ih =>
    have hchar : Segment.reference name ≠ .char c := by simp
    rw [List.mem_cons, ih, List.drop_zero, List.drop_zero, mentionsFrom_cons, or_iff_right hchar, or_iff_right]
    rintro ⟨-, rfl, hname, hword⟩
    exact hstart (by simp [word, hword, hname])
  | case5 q c rest hq ih =>
    have hchar : Segment.reference name ≠ .char c := by simp
    rw [List.mem_cons, ih, List.drop_zero, List.drop_zero, mentionsFrom_cons, or_iff_right hchar,
      or_iff_right fun h => hq h.1]

theorem mem_segments_iff {text name : String} : .reference name ∈ segments text ↔ Mentions text name :=
  mem_segmentsFrom_iff 0 .outside text.toList name

section

variable {expand expand' : String → Except ReferenceError (List Char)} {segs : List Segment}

theorem expandSegments_ok_iff : (∃ out, expandSegments expand segs = .ok out) ↔
    ∀ name, .reference name ∈ segs → ∃ out, expand name = .ok out := by
  induction segs with
  | nil => simp [expandSegments]
  | cons seg rest ih =>
    cases seg with
    | char c =>
      simp only [List.mem_cons, reduceCtorEq, false_or, ← ih, expandSegments]
      cases expandSegments expand rest <;> simp [bind, Except.bind, pure, Except.pure]
    | reference name =>
      simp only [List.mem_cons, Segment.reference.injEq, forall_eq_or_imp, ← ih, expandSegments]
      cases expand name <;> cases expandSegments expand rest <;> simp [bind, Except.bind, pure, Except.pure]

theorem exists_of_expandSegments_error {e : ReferenceError} (h : expandSegments expand segs = .error e) :
    ∃ name, .reference name ∈ segs ∧ expand name = .error e := by
  induction segs with
  | nil => cases h
  | cons seg rest ih =>
    have htail (hrest : expandSegments expand rest = .error e) :
        ∃ name, .reference name ∈ seg :: rest ∧ expand name = .error e := by
      obtain ⟨name, hname, herror⟩ := ih hrest
      exact ⟨name, .tail _ hname, herror⟩
    cases seg with
    | char c =>
      rw [expandSegments] at h
      cases hrest : expandSegments expand rest with
      | ok out =>
        rw [hrest] at h
        cases h
      | error e' =>
        rw [hrest] at h
        cases h
        exact htail hrest
    | reference name =>
      rw [expandSegments] at h
      cases hname : expand name with
      | error e' =>
        rw [hname] at h
        cases h
        exact ⟨name, .head _, hname⟩
      | ok inner =>
        rw [hname] at h
        cases hrest : expandSegments expand rest with
        | ok out =>
          rw [hrest] at h
          cases h
        | error e' =>
          rw [hrest] at h
          cases h
          exact htail hrest

theorem expandSegments_congr (h : ∀ name, .reference name ∈ segs → expand name = expand' name) :
    expandSegments expand segs = expandSegments expand' segs := by
  induction segs with
  | nil => rfl
  | cons seg rest ih =>
    have hrest := ih fun name hname => h name (.tail _ hname)
    cases seg with
    | char c => rw [expandSegments, expandSegments, hrest]
    | reference name => rw [expandSegments, expandSegments, hrest, h name (.head _)]

end

def expandName (d : Definition) (fuel : Nat) (path : List String) (name : String) : Except ReferenceError (List Char) :=
  if path.contains name then .error (.cycle (path.dropWhile (· != name) ++ [name]))
  else
    match d.find? name with
    | none => .error (.unknown name)
    | some entry => expandWith d fuel (path ++ [name]) entry.text

section

variable {d : Definition} {fuel : Nat} {path : List String} {name text : String} {entry : Entry}

theorem expandWith_succ :
    expandWith d (fuel + 1) path text = expandSegments (expandName d fuel path) (segments text) := rfl

theorem expandName_again (h : name ∈ path) :
    expandName d fuel path name = .error (.cycle (path.dropWhile (· != name) ++ [name])) := by
  simp [expandName, h]

theorem expandName_missing (h : name ∉ path) (hname : d.find? name = none) :
    expandName d fuel path name = .error (.unknown name) := by
  simp [expandName, h, hname]

theorem expandName_entry (h : name ∉ path) (hname : d.find? name = some entry) :
    expandName d fuel path name = expandWith d fuel (path ++ [name]) entry.text := by
  simp [expandName, h, hname]

/-- A path of expansion has no name twice, and all of its names but the first are defined. The fuel is for
all names of the definition that are not on it. -/
structure Underway (d : Definition) (fuel : Nat) (path : List String) : Prop where
  nodup : path.Nodup
  defined : ∀ name ∈ path.tail, ∃ entry, d.find? name = some entry
  nonempty : path ≠ []
  fuel : d.length + 1 < fuel + path.length

theorem Underway.start (d : Definition) (id : String) {fuel : Nat} (hfuel : d.length < fuel) : Underway d fuel [id] :=
  ⟨List.nodup_singleton id, by simp, by simp, by simpa using hfuel⟩

theorem Underway.fuel_pos (h : Underway d fuel path) : fuel ≠ 0 := by
  rintro rfl
  have hsub : path.tail ⊆ d.map Prod.fst := by
    intro name hname
    obtain ⟨entry, hentry⟩ := h.defined name hname
    exact mem_keys_of_find? hentry
  have hle := (h.nodup.tail.subperm hsub).length_le
  have hfuel := h.fuel
  simp only [List.length_tail, List.length_map] at hle
  omega

theorem Underway.enter (h : Underway d (fuel + 1) path) (hnew : name ∉ path) (hname : d.find? name = some entry) :
    Underway d fuel (path ++ [name]) := by
  refine ⟨?_, ?_, by simp, ?_⟩
  · rw [List.nodup_append]
    refine ⟨h.nodup, List.nodup_singleton name, fun a ha b hb => ?_⟩
    rw [List.mem_singleton.mp hb]
    rintro rfl
    exact hnew ha
  · rw [List.tail_append_of_ne_nil h.nonempty]
    refine List.forall_mem_append.mpr ⟨h.defined, List.forall_mem_singleton.mpr ⟨entry, hname⟩⟩
  · have hfuel := h.fuel
    simp only [List.length_append, List.length_singleton]
    omega

theorem Underway.expandWith_eq (h : Underway d fuel path) {fuel' : Nat} (hle : fuel ≤ fuel') (text : String) :
    expandWith d fuel path text = expandWith d fuel' path text := by
  induction fuel generalizing fuel' path text with
  | zero => exact absurd rfl h.fuel_pos
  | succ fuel ih =>
    obtain ⟨fuel', rfl⟩ : ∃ k, fuel' = k + 1 := ⟨fuel' - 1, by omega⟩
    rw [expandWith_succ, expandWith_succ]
    refine expandSegments_congr fun name _ => ?_
    by_cases hname : name ∈ path
    · rw [expandName_again hname, expandName_again hname]
    · cases hentry : d.find? name with
      | none => rw [expandName_missing hname hentry, expandName_missing hname hentry]
      | some entry =>
        rw [expandName_entry hname hentry, expandName_entry hname hentry]
        exact ih (h.enter hname hentry) (by omega) entry.text

end

/-- The names on a walk through the references of a text: it goes on from the field of a name that is
defined, and ends anywhere. -/
inductive Walk (d : Definition) : String → List String → Prop where
  | nil (text : String) : Walk d text []
  | last {text name : String} : Mentions text name → Walk d text [name]
  | step {text name : String} {entry : Entry} {names : List String} : Mentions text name → d.find? name = some entry →
      Walk d entry.text names → Walk d text (name :: names)

/-- The walks from a text that is reached on a path meet defined names only, and none for the second time. -/
def Clear (d : Definition) (path : List String) (text : String) : Prop :=
  ∀ names, Walk d text names → (path ++ names).Nodup ∧ ∀ name ∈ names, ∃ entry, d.find? name = some entry

theorem clear_iff {d : Definition} {path : List String} {text : String} (hpath : path.Nodup) :
    Clear d path text ↔ ∀ name, Mentions text name →
      name ∉ path ∧ ∃ entry, d.find? name = some entry ∧ Clear d (path ++ [name]) entry.text := by
  constructor
  · intro h name hname
    obtain ⟨hnodup, hdefined⟩ := h [name] (.last hname)
    obtain ⟨entry, hentry⟩ := hdefined name (.head _)
    refine ⟨?_, entry, hentry, fun names hnames => ?_⟩
    · intro hmem
      exact (List.nodup_append.mp hnodup).2.2 name hmem name (.head _) rfl
    · obtain ⟨hnodup, hdefined⟩ := h (name :: names) (.step hname hentry hnames)
      rw [List.append_assoc, List.singleton_append]
      exact ⟨hnodup, fun other hother => hdefined other (.tail _ hother)⟩
  · intro h names hnames
    cases hnames with
    | nil => exact ⟨by simpa using hpath, by simp⟩
    | last hname =>
      obtain ⟨-, entry, hentry, hclear⟩ := h _ hname
      obtain ⟨hnodup, -⟩ := hclear [] (.nil _)
      exact ⟨by simpa using hnodup, List.forall_mem_singleton.mpr ⟨entry, hentry⟩⟩
    | step hname hentry hrest =>
      obtain ⟨-, entry, hentry', hclear⟩ := h _ hname
      cases hentry.symm.trans hentry'
      obtain ⟨hnodup, hdefined⟩ := hclear _ hrest
      rw [List.append_assoc, List.singleton_append] at hnodup
      exact ⟨hnodup, List.forall_mem_cons.mpr ⟨⟨_, hentry⟩, hdefined⟩⟩

theorem Underway.ok_iff {d : Definition} {fuel : Nat} {path : List String} (h : Underway d fuel path) (text : String) :
    (∃ out, expandWith d fuel path text = .ok out) ↔ Clear d path text := by
  induction fuel generalizing path text with
  | zero => exact absurd rfl h.fuel_pos
  | succ fuel ih =>
    rw [expandWith_succ, expandSegments_ok_iff, clear_iff h.nodup]
    refine forall_congr' fun name => ?_
    rw [mem_segments_iff]
    refine imp_congr_right fun _ => ?_
    by_cases hname : name ∈ path
    · simp [expandName_again hname, hname]
    · cases hentry : d.find? name with
      | none => simp [expandName_missing hname hentry]
      | some entry =>
        rw [expandName_entry hname hentry, ih (h.enter hname hentry)]
        simp [hname]

/-- The text of a name: that of the entry `id` is the given one, all others are fields. -/
def textOf? (d : Definition) (id text name : String) : Option String :=
  if name = id then some text else (d.find? name).map Entry.text

def LeadsTo (d : Definition) (id text first second : String) : Prop :=
  ∃ t, textOf? d id text first = some t ∧ Mentions t second

/-- A cycle ends where it begins, has no other name twice, and each name leads to the next. -/
def IsCycle (d : Definition) (id text : String) (names : List String) : Prop :=
  ∃ name inner, names = name :: inner ++ [name] ∧ (name :: inner).Nodup ∧ names.IsChain (LeadsTo d id text)

structure Trail (d : Definition) (id text : String) (path : List String) (reached : String) : Prop where
  head : path.head? = some id
  chain : path.IsChain (LeadsTo d id text)
  last : ∀ name ∈ path.getLast?, textOf? d id text name = some reached

namespace Trail

variable {d : Definition} {id text reached name : String} {path : List String} (h : Trail d id text path reached)

include h

theorem leadsTo (hname : Mentions reached name) : ∀ last ∈ path.getLast?, LeadsTo d id text last name :=
  fun last hlast => ⟨reached, h.last last hlast, hname⟩

theorem enter {entry : Entry} (hname : Mentions reached name) (hnew : name ∉ path) (hentry : d.find? name = some entry) :
    Trail d id text (path ++ [name]) entry.text := by
  have hid : name ≠ id := by
    rintro rfl
    exact hnew (List.mem_of_head? h.head)
  refine ⟨?_, ?_, ?_⟩
  · rw [List.head?_append, h.head, Option.some_or]
  · refine List.isChain_append.mpr ⟨h.chain, .singleton name, fun last hlast next hnext => ?_⟩
    cases hnext
    exact h.leadsTo hname last hlast
  · intro last hlast
    simp only [List.getLast?_append, List.getLast?_singleton, Option.some_or, Option.mem_def, Option.some.injEq] at hlast
    rw [← hlast, textOf?, if_neg hid, hentry, Option.map_some]

/-- A name of the path that is mentioned at its end closes a cycle. -/
theorem cycle (hpath : path.Nodup) (hname : Mentions reached name) (hmem : name ∈ path) :
    IsCycle d id text (path.dropWhile (· != name) ++ [name]) := by
  obtain ⟨before, inner, rfl, hbefore⟩ := List.eq_append_cons_of_mem hmem
  have hdrop : (before ++ name :: inner).dropWhile (· != name) = name :: inner := by
    rw [List.dropWhile_append_of_pos (by
      intro other hother
      rw [bne_iff_ne]
      rintro rfl
      exact hbefore hother)]
    simp
  rw [hdrop]
  refine ⟨name, inner, rfl, (List.nodup_append.mp hpath).2.1, List.isChain_append.mpr ⟨?_, .singleton name, ?_⟩⟩
  · exact (List.isChain_append.mp h.chain).2.1
  · intro last hlast next hnext
    cases hnext
    refine h.leadsTo hname last ?_
    rw [List.getLast?_append, Option.mem_def.mp hlast, Option.some_or]
    rfl

end Trail

inductive Blames (d : Definition) (id text reached : String) : ReferenceError → Prop where
  | cycle {names : List String} : IsCycle d id text names → Blames d id text reached (.cycle names)
  | unknown {name : String} (names : List String) : d.find? name = none → Walk d reached (names ++ [name]) →
      Blames d id text reached (.unknown name)

theorem Underway.blames {d : Definition} {fuel : Nat} {path : List String} (h : Underway d fuel path)
    {id text reached : String} (htrail : Trail d id text path reached) {e : ReferenceError}
    (he : expandWith d fuel path reached = .error e) : Blames d id text reached e := by
  induction fuel generalizing path reached with
  | zero => exact absurd rfl h.fuel_pos
  | succ fuel ih =>
    rw [expandWith_succ] at he
    obtain ⟨name, hname, he⟩ := exists_of_expandSegments_error he
    rw [mem_segments_iff] at hname
    by_cases hmem : name ∈ path
    · rw [expandName_again hmem] at he
      cases he
      exact .cycle (htrail.cycle h.nodup hname hmem)
    · cases hentry : d.find? name with
      | none =>
        rw [expandName_missing hmem hentry] at he
        cases he
        exact .unknown [] hentry (.last hname)
      | some entry =>
        rw [expandName_entry hmem hentry] at he
        cases ih (h.enter hmem hentry) (htrail.enter hname hmem hentry) he with
        | cycle hcycle => exact .cycle hcycle
        | unknown names hmissing hwalk => exact .unknown (name :: names) hmissing (.step hname hentry hwalk)

theorem Trail.start (d : Definition) (id text : String) : Trail d id text [id] text :=
  ⟨rfl, .singleton id, by simp [textOf?]⟩

/-- Expansion needs no more fuel than it has. It succeeds if and only if every walk from the text, after
the entry `id` itself, meets only names that are defined and none of them twice. If it reports a cycle,
that is one; if it reports a name, a walk ends there and the name is not defined. -/
theorem expandReferences_ok_iff (id text : String) (d : Definition) :
    (∀ fuel, d.length + 2 ≤ fuel → expandReferences id text d = (expandWith d fuel [id] text).map String.ofList) ∧
    ((∃ out, expandReferences id text d = .ok out) ↔
      ∀ names, Walk d text names → (id :: names).Nodup ∧ ∀ name ∈ names, ∃ entry, d.find? name = some entry) ∧
    (∀ names, expandReferences id text d = .error (.cycle names) → IsCycle d id text names) ∧
    ∀ name, expandReferences id text d = .error (.unknown name) →
      d.find? name = none ∧ ∃ names, Walk d text (names ++ [name]) := by
  have hunderway : Underway d (d.length + 2) [id] := .start d id (by omega)
  have herror {e : ReferenceError} (he : expandReferences id text d = .error e) : Blames d id text text e := by
    refine hunderway.blames (.start d id text) ?_
    unfold expandReferences at he
    cases hexpand : expandWith d (d.length + 2) [id] text with
    | ok out =>
      rw [hexpand] at he
      cases he
    | error e' =>
      rw [hexpand] at he
      cases he
      rfl
  refine ⟨fun fuel hfuel => ?_, ?_, fun names he => ?_, fun name he => ?_⟩
  · rw [expandReferences, hunderway.expandWith_eq hfuel]
  · refine Iff.trans ?_ (hunderway.ok_iff text)
    unfold expandReferences
    cases expandWith d (d.length + 2) [id] text <;> simp [Except.map]
  · cases herror he with
    | cycle hcycle => exact hcycle
  · cases herror he with
    | unknown names hmissing hwalk => exact ⟨hmissing, names, hwalk⟩

/-- A cycle that the entry leads to without being part of it; the name in quotes is no reference. -/
theorem expandReferences_ok_iff_inner_cycle :
    let d : Definition := [("rate", .field "@base * 2"), ("base", .field "@share + 1"), ("share", .field "@base")]
    let text := "if(@rate > 1, '@none', [name])"
    expandReferences "label" text d = .error (.cycle ["base", "share", "base"]) ∧
      IsCycle d "label" text ["base", "share", "base"] ∧
      ¬ ∀ names, Walk d text names → ("label" :: names).Nodup ∧ ∀ name ∈ names, ∃ entry, d.find? name = some entry := by
  intro d text
  have herror : expandReferences "label" text d = .error (.cycle ["base", "share", "base"]) := by
    decide +kernel
  obtain ⟨-, hok, hcycle, -⟩ := expandReferences_ok_iff "label" text d
  refine ⟨herror, hcycle _ herror, fun hclear => ?_⟩
  obtain ⟨out, hout⟩ := hok.mpr hclear
  rw [herror] at hout
  cases hout

end ShelfQuery.Shelf
