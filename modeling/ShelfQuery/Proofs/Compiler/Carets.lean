import ShelfQuery.Expression.Field
import ShelfQuery.Proofs.Compiler.UnknownColumns
import ShelfQuery.Proofs.Lexer.Offsets
import ShelfQuery.Proofs.Parser.FaultPlaces
import ShelfQuery.Proofs.Parser.Spans

set_option autoImplicit false

namespace ShelfQuery.Expression

open ShelfQuery.Sql ShelfQuery.Schema ShelfQuery.Calendar

theorem exists_mem_of_leading? {ts : List Token} {p : Nat} (h : (leading? ts).map Token.pos = some p) :
    ∃ t ∈ ts, t.pos = p := by
  obtain ⟨t, ht, hpos⟩ := Option.map_eq_some_iff.mp h
  exact ⟨t, List.mem_of_find?_eq_some ht, hpos⟩

theorem Spans.exists_mem_of_marks {ts : List Token} {node : Tree} (h : Spans ts node) {p : Nat} (hp : p ∈ node.marks) :
    ∃ t ∈ ts, t.pos = p := by
  obtain ⟨us, kind, hpart, hderives⟩ := h
  obtain ⟨t, ht, hpos⟩ : ∃ t ∈ us, t.pos = p := by
    have hfirst := exists_mem_of_leading? (hderives.leading node rfl)
    cases node with
    | isRange pos arg offset units offsetPos =>
      rcases List.mem_cons.mp hp with rfl | hp
      · exact hfirst
      · obtain rfl := List.mem_singleton.mp hp
        exact ⟨_, hderives.offset_mem rfl, rfl⟩
    | _ =>
      obtain rfl := List.mem_singleton.mp hp
      exact hfirst
  exact ⟨t, hpart.subset ht, hpos⟩

theorem exists_mem_of_compile_error {c : Context} {ts : List Token} {tree : Tree} (hspans : Spans ts tree)
    {ds : List Diagnostic} (h : tree.compile c = .error ds) : ∀ d ∈ ds, ∀ p ∈ d.pos, ∃ t ∈ ts, t.pos = p := by
  intro d hd p hp
  obtain ⟨place, node, hreaches, hmarks⟩ := (reports_of_compile h).placed d hd p hp
  exact (hspans.within hreaches.within).exists_mem_of_marks hmarks

theorem parse_error {text : String} {d : Diagnostic} (h : Tree.parse text = .error d) :
    ∃ p, d.pos = some p ∧ p ≤ text.toList.length := by
  unfold Tree.parse at h
  split at h
  · next hscan =>
    cases h
    obtain ⟨p, hp, hlt⟩ := scan_error hscan
    exact ⟨p, hp, Nat.le_of_lt hlt⟩
  · next hscan => exact parseTokens_error h (fun t ht => pos_le_of_scan hscan ht) (Nat.zero_le _)

/-- Every node of a tree that is read has a phrase of its own among the tokens of the text, and stands where the first
token of the phrase does that is not an opening parenthesis. The faults of a tree that is read are placed at tokens,
and a text that cannot be read is refused at one of its offsets. -/
theorem carets_at_tokens (c : Context) (text : String) :
    (∀ tree, Tree.parse text = .ok tree → ∃ ts p, scan text = .ok (ts ++ [⟨.eof, p⟩]) ∧ Derives .or ts [tree] ∧
      (∀ t ∈ ts, t.kind.isEof = false ∧ t.StandsIn 0 text.toList) ∧
      ∀ node, tree.Within node → ∃ us kind, us <:+: ts ∧ Derives kind us [node] ∧
        (us.find? fun t => !t.kind.isMark .openParen).map Token.pos = some node.pos) ∧
    (∀ source ds, readField c text = .error (.invalid source ds) → source = text ∧ ∃ ts, scan text = .ok ts ∧
      ∀ d ∈ ds, ∀ p ∈ d.pos, ∃ t ∈ ts, t.kind.isEof = false ∧ t.pos = p) ∧
    (∀ source d, readField c text = .error (.malformed source d) → source = text ∧
      ∃ p, d.pos = some p ∧ p ≤ text.toList.length) := by
  refine ⟨?_, ?_, ?_⟩
  · intro tree hparse
    obtain ⟨ts, p, hscan, hderives⟩ := derives_of_parse hparse
    refine ⟨ts, p, hscan, hderives, fun t ht => ?_, fun node hnode => ?_⟩
    · have heof := hderives.eof_notMem t ht
      have hplace := scan_places hscan (List.mem_append_left _ ht)
      rw [heof, if_neg Bool.false_ne_true] at hplace
      exact ⟨heof, hplace⟩
    · obtain ⟨us, kind, hpart, hnode⟩ := (hderives.spans List.infix_rfl).within hnode
      exact ⟨us, kind, hpart, hnode, hnode.leading node rfl⟩
  · intro source ds h
    unfold readField at h
    split at h
    · cases h
    · next tree hparse =>
      obtain ⟨ts, q, hscan, hderives⟩ := derives_of_parse hparse
      split at h
      · next hcompile =>
        cases h
        refine ⟨rfl, _, hscan, fun d hd p hp => ?_⟩
        obtain ⟨t, ht, hpos⟩ := exists_mem_of_compile_error (hderives.spans List.infix_rfl) hcompile d hd p hp
        exact ⟨t, List.mem_append_left _ ht, hderives.eof_notMem t ht, hpos⟩
      · split at h <;> cases h
  · intro source d h
    unfold readField at h
    split at h
    · next hparse =>
      cases h
      exact ⟨rfl, parse_error hparse⟩
    · split at h
      · cases h
      · split at h <;> cases h

/-- A minus in two pairs of parentheses, a column that is lacking, and an end that comes too early. -/
theorem carets_at_tokens_nested :
    let c : Context := ⟨⟨"visits", []⟩, .sqlite, {}, .startOfDay ⟨2020, 1, 14, by decide⟩⟩
    let negative : Tree := .neg 2 (.column 4 "a")
    (∃ us kind, Derives kind us [negative] ∧ (us.find? fun t => !t.kind.isMark .openParen).map Token.pos = some 2) ∧
      (readField c "((-[a])) + 1" = .error (.invalid "((-[a])) + 1" [.placed (.unknownColumn "a") 4]) ∧
        ∃ ts, scan "((-[a])) + 1" = .ok ts ∧ ∃ t ∈ ts, t.kind.isEof = false ∧ t.pos = 4) ∧
      readField c "1 +" = .error (.malformed "1 +" (.placed (.unexpected .eof) 3)) ∧ 3 ≤ "1 +".toList.length := by
  intro c negative
  have hscan : scan "((-[a])) + 1" = .ok [⟨.mark .openParen, 0⟩, ⟨.mark .openParen, 1⟩, ⟨.mark .minus, 2⟩,
      ⟨.column "a", 4⟩, ⟨.mark .closeParen, 6⟩, ⟨.mark .closeParen, 7⟩, ⟨.mark .plus, 9⟩, ⟨.int 1, 11⟩, ⟨.eof, 12⟩] := rfl
  have hparse : Tree.parse "((-[a])) + 1" = .ok (.arith 2 .add negative (.constant 11 (.int 1))) := by
    rw [Tree.parse, hscan]
    rfl
  have hinvalid : readField c "((-[a])) + 1" = .error (.invalid "((-[a])) + 1" [.placed (.unknownColumn "a") 4]) := by
    rw [readField, hparse]
    rfl
  have hend : scan "1 +" = .ok [⟨.int 1, 0⟩, ⟨.mark .plus, 2⟩, ⟨.eof, 3⟩] := rfl
  have hmalformed : readField c "1 +" = .error (.malformed "1 +" (.placed (.unexpected .eof) 3)) := by
    rw [readField, Tree.parse, hend]
    rfl
  refine ⟨?_, ⟨hinvalid, ?_⟩, hmalformed, ?_⟩
  · obtain ⟨ts, p, -, -, -, hnodes⟩ := (carets_at_tokens c "((-[a])) + 1").1 _ hparse
    obtain ⟨us, kind, -, hderives, hfirst⟩ := hnodes negative (.step (List.mem_cons_self ..) .self)
    exact ⟨us, kind, hderives, hfirst⟩
  · obtain ⟨-, ts, hscan, hplaced⟩ := (carets_at_tokens c "((-[a])) + 1").2.1 _ _ hinvalid
    exact ⟨ts, hscan, hplaced _ (List.mem_singleton.mpr rfl) 4 rfl⟩
  · obtain ⟨-, p, hp, hle⟩ := (carets_at_tokens c "1 +").2.2 _ _ hmalformed
    cases hp
    exact hle

end ShelfQuery.Expression
