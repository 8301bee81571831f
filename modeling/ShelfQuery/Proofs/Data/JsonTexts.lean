import Mathlib.Tactic.SplitIfs
import ShelfQuery.Data.Json
import ShelfQuery.Proofs.Number.Digits

set_option autoImplicit false

/-!
# Different values have different JSON texts

Unless it holds doubles, a value is told by its text: the first character tells its kind, and what follows tells where
it ends. So no text in a value can pass for the structure around it.
-/

namespace ShelfQuery.Data.Json

open ShelfQuery.Text

theorem readString_escape (c : Char) (fuel : Nat) (rest : List Char) :
    readString (fuel + 1) (escape c ++ rest) = (readString fuel rest).map fun p => (c :: p.1, p.2) := by
  unfold escape
  split_ifs with hquote hslash hfeed hreturn htab hback hform hcontrol
  · subst hquote
    rfl
  · subst hslash
    rfl
  · subst hfeed
    rfl
  · subst hreturn
    rfl
  · subst htab
    rfl
  · obtain rfl : c = Char.ofNat 8 := by rw [← hback, Char.ofNat_toNat]
    rfl
  · obtain rfl : c = Char.ofNat 12 := by rw [← hform, Char.ofNat_toNat]
    rfl
  · have hhex : ∀ n < 16, hexValue? (hexDigit n) = some n := by decide
    have hunit : readUnit ('0' :: '0' :: hexDigit (c.toNat / 16) :: hexDigit (c.toNat % 16) :: rest) =
        some (c.toNat, rest) := by
      have hzero : hexValue? '0' = some 0 := by decide
      have hvalue : ((0 * 16 + 0) * 16 + c.toNat / 16) * 16 + c.toNat % 16 = c.toNat := by omega
      simp only [readUnit, hzero, hhex _ (show c.toNat / 16 < 16 by omega), hhex _ (show c.toNat % 16 < 16 by omega)]
      exact congrArg (fun n => some (n, rest)) hvalue
    have hpoint : readCodePoint ('0' :: '0' :: hexDigit (c.toNat / 16) :: hexDigit (c.toNat % 16) :: rest) =
        some (c, rest) := by
      unfold readCodePoint
      rw [hunit]
      change (if 0xD800 ≤ c.toNat ∧ c.toNat < 0xDC00 then _ else _) = _
      rw [if_neg (by omega), if_neg (by omega), Char.ofNat_toNat]
      rfl
    change readString (fuel + 1) ('\\' :: 'u' :: '0' :: '0' :: _ :: _ :: rest) = _
    simp only [readString, hpoint]
    rfl
  · change (if c = '"' then _ else if c = '\\' then _ else if c.toNat < 32 then _ else _) = _
    rw [if_neg hquote, if_neg hslash, if_neg hcontrol]
    rfl

theorem readString_escaped (s rest : List Char) {fuel : Nat} (hfuel : s.length < fuel) :
    readString fuel (s.flatMap escape ++ '"' :: rest) = some (s, rest) := by
  induction s generalizing fuel with
  | nil =>
    cases fuel with
    | zero => cases hfuel
    | succ fuel => rfl
  | cons c s ih =>
    cases fuel with
    | zero => cases hfuel
    | succ fuel =>
      rw [List.flatMap_cons, List.append_assoc, readString_escape, ih (Nat.lt_of_succ_lt_succ hfuel)]
      rfl

theorem quote_append_inj {s t : String} {r r' : List Char} (h : (quote s).toList ++ r = (quote t).toList ++ r') :
    s = t ∧ r = r' := by
  simp only [quote, String.toList_ofList, List.cons_append, List.append_assoc, List.nil_append, List.cons.injEq,
    true_and] at h
  have hread := congrArg (readString (s.toList.length + t.toList.length + 1)) h
  rw [readString_escaped _ _ (by omega), readString_escaped _ _ (by omega)] at hread
  simpa [String.toList_inj] using hread

/-- Values without doubles. -/
inductive Exact : Json → Prop where
  | null : Exact .null
  | bool (b : Bool) : Exact (.bool b)
  | int (n : Int) : Exact (.int n)
  | str (s : String) : Exact (.str s)
  | arr {items : List Json} : (∀ v ∈ items, Exact v) → Exact (.arr items)
  | obj {members : List (String × Json)} : (∀ m ∈ members, Exact m.2) → Exact (.obj members)

/-- What may follow a value: the next one, or the end of what it stands in. -/
def Ends (r : List Char) : Prop := ∀ c ∈ r.head?, c ∈ [',', ']', '\x7d']

def isNumberChar (c : Char) : Bool := c.isDigit || c == '-'

def sort : Json → Nat
  | .null => 0
  | .bool _ => 1
  | .int _ => 2
  | .float _ => 2
  | .str _ => 3
  | .arr _ => 4
  | .obj _ => 5

def sortOf (c : Char) : Nat :=
  if c = 'n' then 0 else if c = 't' ∨ c = 'f' then 1 else if isNumberChar c then 2 else if c = '"' then 3
  else if c = '[' then 4 else if c = '\x7b' then 5 else 6

theorem isNumberChar_of_mem_toString {n : Int} : ∀ c ∈ (toString n).toList, isNumberChar c = true := by
  have hnat (n : Nat) : ∀ c ∈ (toString n).toList, isNumberChar c = true := by
    intro c hc
    rw [Nat.toString_eq_ofList_toDigits, String.toList_ofList] at hc
    rw [isNumberChar, Nat.isDigit_of_mem_toDigits (by decide) (by decide) hc, Bool.true_or]
  cases n with
  | ofNat n => exact hnat n
  | negSucc n =>
    intro c hc
    have hc' : c ∈ ("-" ++ toString (n + 1)).toList := hc
    rw [String.toList_append] at hc'
    rcases List.mem_append.mp hc' with hdash | hdigit
    · obtain rfl : c = '-' := by simpa using hdash
      rfl
    · exact hnat (n + 1) c hdigit

theorem Exact.head {v : Json} (h : Exact v) : ∃ c cs, (compact v).toList = c :: cs ∧ sortOf c = v.sort := by
  cases h with
  | null => exact ⟨'n', _, rfl, rfl⟩
  | bool b => cases b <;> exact ⟨_, _, rfl, rfl⟩
  | int n =>
    have hchars := @isNumberChar_of_mem_toString n
    have hne : (toString n).toList ≠ [] := by
      cases n with
      | ofNat n =>
        change (toString n).toList ≠ []
        rw [Nat.toString_eq_ofList_toDigits, String.toList_ofList]
        exact Nat.toDigits_ne_nil
      | negSucc n =>
        change ("-" ++ toString (n + 1)).toList ≠ []
        simp
    obtain ⟨c, cs, htext⟩ := List.exists_cons_of_ne_nil hne
    refine ⟨c, cs, htext, ?_⟩
    have hc := hchars c (htext ▸ List.mem_cons_self ..)
    have hletter (d : Char) (hd : isNumberChar d = false) : c ≠ d := by
      rintro rfl
      rw [hc] at hd
      cases hd
    rw [sortOf, if_neg (hletter _ rfl), if_neg (not_or.mpr ⟨hletter _ rfl, hletter _ rfl⟩), if_pos hc]
    rfl
  | str s => exact ⟨'"', s.toList.flatMap escape ++ ['"'], String.toList_ofList, rfl⟩
  | @arr items _ => exact ⟨'[', (join "," (compactItems items)).toList ++ [']'], by simp [compact], rfl⟩
  | @obj members _ => exact ⟨'\x7b', (join "," (compactMembers members)).toList ++ ['\x7d'], by simp [compact, openBrace, closeBrace], rfl⟩

theorem sort_eq_of_append {a b : Json} (ha : Exact a) (hb : Exact b) {r r' : List Char}
    (h : (compact a).toList ++ r = (compact b).toList ++ r') : a.sort = b.sort := by
  obtain ⟨c, cs, hc, hsort⟩ := ha.head
  obtain ⟨d, ds, hd, hsort'⟩ := hb.head
  rw [hc, hd, List.cons_append, List.cons_append, List.cons.injEq] at h
  rw [← hsort, ← hsort', h.1]

theorem compactItems_eq (items : List Json) : compactItems items = items.map compact := by
  induction items with
  | nil => rfl
  | cons v rest ih => rw [compactItems, ih, List.map_cons]

def memberText (m : String × Json) : String := quote m.1 ++ ":" ++ compact m.2

theorem compactMembers_eq (members : List (String × Json)) : compactMembers members = members.map memberText := by
  induction members with
  | nil => rfl
  | cons m rest ih => rw [compactMembers, ih, List.map_cons, memberText]

theorem toList_join_cons (s : String) (rest : List String) :
    (join "," (s :: rest)).toList = s.toList ++ rest.flatMap fun t => ',' :: t.toList := by
  induction rest generalizing s with
  | nil => simp [join]
  | cons t rest ih => simp [join, ih]

section

variable {α : Type} {f : α → String} {close : Char} {xs ys : List α} {r r' : List Char}

/-- Commas go on with a list and the bracket ends it. -/
theorem flatMap_append_inj (hclose : close ∈ [']', '\x7d'])
    (hf : ∀ x ∈ xs, ∀ y ∈ ys, ∀ r r', Ends r → Ends r' → (f x).toList ++ r = (f y).toList ++ r' → x = y ∧ r = r')
    (h : (xs.flatMap fun x => ',' :: (f x).toList) ++ close :: r = (ys.flatMap fun y => ',' :: (f y).toList) ++ close :: r') :
    xs = ys ∧ r = r' := by
  have hcomma : close ≠ ',' := by
    rintro rfl
    exact absurd hclose (by decide)
  have hends (zs : List α) (r : List Char) : Ends ((zs.flatMap fun z => ',' :: (f z).toList) ++ close :: r) := by
    cases zs with
    | nil =>
      intro c hc
      obtain rfl := Option.some.inj hc
      exact List.mem_cons_of_mem _ hclose
    | cons z zs => simp [Ends]
  induction xs generalizing ys with
  | nil =>
    cases ys with
    | nil => simpa using h
    | cons y ys => exact absurd (List.cons.inj h).1 hcomma
  | cons x xs ih =>
    cases ys with
    | nil => exact absurd (List.cons.inj h).1.symm hcomma
    | cons y ys =>
      simp only [List.flatMap_cons, List.cons_append, List.append_assoc, List.cons.injEq, true_and] at h
      obtain ⟨rfl, hrest⟩ := hf x (by simp) y (by simp) _ _ (hends xs r) (hends ys r') h
      obtain ⟨rfl, hr⟩ := ih (fun x hx y hy => hf x (by simp [hx]) y (by simp [hy])) hrest
      exact ⟨rfl, hr⟩

theorem join_append_inj (hclose : close ∈ [']', '\x7d'])
    (hhead : ∀ x ∈ xs ++ ys, ∃ c cs, (f x).toList = c :: cs ∧ c ≠ close)
    (hf : ∀ x ∈ xs, ∀ y ∈ ys, ∀ r r', Ends r → Ends r' → (f x).toList ++ r = (f y).toList ++ r' → x = y ∧ r = r')
    (h : (join "," (xs.map f)).toList ++ close :: r = (join "," (ys.map f)).toList ++ close :: r') : xs = ys ∧ r = r' := by
  have hnil (z : α) (hz : z ∈ xs ++ ys) (t u : List Char) : close :: t ≠ (f z).toList ++ u := by
    obtain ⟨c, cs, hc, hne⟩ := hhead z hz
    rw [hc]
    exact fun heq => hne (List.cons.inj heq).1.symm
  cases xs with
  | nil =>
    cases ys with
    | nil => simpa [join] using h
    | cons y ys =>
      rw [List.map_cons, toList_join_cons, List.append_assoc] at h
      exact absurd h (hnil y (by simp) _ _)
  | cons x xs =>
    cases ys with
    | nil =>
      rw [List.map_cons, toList_join_cons, List.append_assoc] at h
      exact absurd h.symm (hnil x (by simp) _ _)
    | cons y ys =>
      refine flatMap_append_inj hclose hf ?_
      simp only [List.map_cons, toList_join_cons, List.flatMap_map, List.append_assoc] at h
      simpa using h

end

theorem Ends.stops {r : List Char} (hr : Ends r) : Stops isNumberChar r.head? := by
  cases hhead : r.head? with
  | none => rfl
  | some c =>
    have hc := hr c hhead
    simp only [List.mem_cons, List.not_mem_nil, or_false] at hc
    rcases hc with rfl | rfl | rfl <;> rfl

theorem toString_append_inj {m n : Int} {r r' : List Char} (hr : Ends r) (hr' : Ends r')
    (h : (toString m).toList ++ r = (toString n).toList ++ r') : m = n ∧ r = r' := by
  obtain ⟨htake, hdrop⟩ := span_eq isNumberChar_of_mem_toString hr.stops
  obtain ⟨htake', hdrop'⟩ := span_eq isNumberChar_of_mem_toString hr'.stops
  have htext : (toString m).toList = (toString n).toList := htake.symm.trans ((congrArg _ h).trans htake')
  exact ⟨Number.toString_inj (String.toList_inj.mp htext), hdrop.symm.trans ((congrArg _ h).trans hdrop')⟩

theorem Exact.compact_append_inj {a b : Json} (ha : Exact a) (hb : Exact b) {r r' : List Char} (hr : Ends r)
    (hr' : Ends r') (h : (compact a).toList ++ r = (compact b).toList ++ r') : a = b ∧ r = r' := by
  have hsort := sort_eq_of_append ha hb h
  induction ha generalizing b r r' with
  | null =>
    cases hb with
    | null => exact ⟨rfl, List.append_cancel_left h⟩
    | _ => cases hsort
  | bool x =>
    cases hb with
    | bool y =>
      cases x <;> cases y
      case false.true | true.false => simp [compact] at h
      all_goals exact ⟨rfl, List.append_cancel_left h⟩
    | _ => cases hsort
  | int m =>
    cases hb with
    | int n => exact (toString_append_inj hr hr' h).imp_left (congrArg Json.int)
    | _ => cases hsort
  | str s =>
    cases hb with
    | str t => exact (quote_append_inj h).imp_left (congrArg Json.str)
    | _ => cases hsort
  | @arr items hitems ih =>
    cases hb with
    | @arr items' hitems' =>
      have hlist : items = items' ∧ r = r' := by
        refine join_append_inj (f := compact) (by decide : ']' ∈ [']', '\x7d']) ?_ ?_ ?_
        · intro v hv
          have hexact : Exact v := (List.mem_append.mp hv).elim (hitems v) (hitems' v)
          obtain ⟨c, cs, hc, hsort⟩ := hexact.head
          refine ⟨c, cs, hc, ?_⟩
          rintro rfl
          cases hexact <;> cases hsort
        · intro v hv w hw r r' hr hr' heq
          exact ih v hv (hitems' w hw) hr hr' heq (sort_eq_of_append (hitems v hv) (hitems' w hw) heq)
        · rw [← compactItems_eq, ← compactItems_eq]
          simpa [compact] using h
      exact hlist.imp_left (congrArg Json.arr)
    | _ => cases hsort
  | @obj members hmembers ih =>
    cases hb with
    | @obj members' hmembers' =>
      have hlist : members = members' ∧ r = r' := by
        refine join_append_inj (f := memberText) (by decide : '\x7d' ∈ [']', '\x7d']) ?_ ?_ ?_
        · intro m _
          exact ⟨'"', m.1.toList.flatMap escape ++ ('"' :: ':' :: (compact m.2).toList), by simp [memberText, quote], by decide⟩
        · intro m hm n hn r r' hr hr' heq
          simp only [memberText, String.toList_append, List.append_assoc] at heq
          obtain ⟨hkey, heq⟩ := quote_append_inj heq
          have heq := List.append_cancel_left heq
          obtain ⟨hvalue, hrest⟩ := ih m hm (hmembers' n hn) hr hr' heq
            (sort_eq_of_append (hmembers m hm) (hmembers' n hn) heq)
          exact ⟨Prod.ext hkey hvalue, hrest⟩
        · rw [← compactMembers_eq, ← compactMembers_eq]
          simpa [compact, openBrace, closeBrace] using h
      exact hlist.imp_left (congrArg Json.obj)
    | _ => cases hsort

theorem Exact.compact_inj {a b : Json} (ha : Exact a) (hb : Exact b) (h : compact a = compact b) : a = b := by
  have hends : Ends [] := by
    intro c hc
    cases hc
  exact (ha.compact_append_inj hb hends hends (by rw [h])).1

end ShelfQuery.Data.Json
