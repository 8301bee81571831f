import ShelfQuery.Proofs.Compiler.Aggregation
import ShelfQuery.Proofs.Sql.Semantics

set_option autoImplicit false

namespace ShelfQuery.Expression

open ShelfQuery.Sql ShelfQuery.Schema ShelfQuery.Calendar

/-- The values of a type. Null is a value of every type, but not of those that stand for faults. -/
def ValueType.admits : ValueType → Value → Prop
  | .null, v => v = .null
  | .bool, v => v = .null ∨ v = .num 0 ∨ v = .num 1
  | .num, v => v = .null ∨ ∃ x, v = .num x
  | .str, v | .date, v | .datetime, v => v = .null ∨ ∃ s, v = .text s
  | .unknown, _ | .broken, _ => False

variable {p : Primitives} {c : Context}

theorem admits_of_hasClass {type : ValueType} {v : Value} (htype : type.isBroken = false)
    (h : v.HasClass type.valueClass) : type.admits v := by
  cases type with
  | null =>
    cases h
    rfl
  | bool =>
    cases h with
    | null => exact .inl rfl
    | bool b =>
      cases b with
      | false => exact .inr (.inl rfl)
      | true => exact .inr (.inr rfl)
  | num =>
    cases h with
    | null => exact .inl rfl
    | num x => exact .inr ⟨x, rfl⟩
  | str | date | datetime =>
    cases h with
    | null => exact .inl rfl
    | text s => exact .inr ⟨s, rfl⟩
  | unknown | broken => exact nomatch htype

theorem admits_of_compile (hp : p.Lawful) {tree : Tree} {compiled : Compiled} (h : tree.compile c = .ok compiled)
    {f : Frame} (hf : f.Conforms c.schema) : compiled.type.admits (compiled.sql.eval p f) := by
  obtain ⟨hcompiles, -⟩ := compiles_of_compile h
  exact admits_of_hasClass hcompiles.not_broken (hcompiles.wellTyped.eval_hasClass hp hf)

theorem admits_of_readField (hp : p.Lawful) {text : String} {reading : FieldReading} (h : readField c text = .ok reading)
    {f : Frame} (hf : f.Conforms c.schema) : reading.type.admits (reading.field.sql.eval p f) := by
  obtain ⟨hbroken, -, htyped⟩ := readField_wellTyped h
  exact admits_of_hasClass hbroken (htyped.eval_hasClass hp hf)

/-- What compiles has a type that is no fault, and has values of the type only. So has every field
that is asked for, whether it was kept or is compiled. -/
theorem FieldCache.read_admits (p : Primitives) (hp : p.Lawful) (schema : Table) (dialect : Dialect) :
    (∀ (c : Context) (tree : Tree) (compiled : Compiled), tree.compile c = .ok compiled →
      compiled.type ≠ .unknown ∧ compiled.type ≠ .broken ∧
        ∀ f : Frame, f.Conforms c.schema → compiled.type.admits (compiled.sql.eval p f)) ∧
    ∀ (requests : List FieldRequest) (request : FieldRequest) (n : Nat) (field : Field),
      ((FieldCache.after schema dialect requests).read schema dialect request.clock request.text
        request.options).1 = .ok (n, field) →
      ∃ now reading, readField ⟨schema, dialect, request.options, now⟩ request.text = .ok reading ∧
        reading.field = field ∧ ∀ f : Frame, f.Conforms schema → reading.type.admits (field.sql.eval p f) := by
  constructor
  · intro c tree compiled h
    have hbroken := (compiles_of_compile h).1.not_broken
    refine ⟨fun htype => ?_, fun htype => ?_, fun f hf => admits_of_compile hp h hf⟩
    · exact nomatch (htype ▸ hbroken : ValueType.unknown.isBroken = false)
    · exact nomatch (htype ▸ hbroken : ValueType.broken.isBroken = false)
  · intro requests request n field h
    refine FieldCache.holds_of_read_after (P := fun text options field =>
      ∃ now reading, readField ⟨schema, dialect, options, now⟩ text = .ok reading ∧ reading.field = field ∧
        ∀ f : Frame, f.Conforms schema → reading.type.admits (field.sql.eval p f)) ?_ h
    intro text options now reading hread
    exact ⟨now, reading, hread, rfl, fun f hf => admits_of_readField hp hread hf⟩

/-- A condition, its text and a null, on a row, in a database that knows no functions. -/
theorem FieldCache.read_admits_branches :
    let p : Primitives :=
      ⟨fun _ _ _ => .null, fun _ _ => .lt, fun _ => none, fun _ _ => false, fun _ _ => .null, fun _ _ => .null,
        fun _ _ _ => .null, fun _ _ => .null, fun _ => .null, fun _ _ => .null, fun _ => .null⟩
    let schema : Table := ⟨"scores", [⟨"score", .num⟩, ⟨"name", .str⟩]⟩
    let row : Row := fun name => if name = "score" then .num 2 else .text "a"
    let f : Frame := ⟨[row], [row], some row⟩
    let request : FieldRequest :=
      ⟨.fixed (.startOfDay ⟨2024, 1, 1, by decide⟩), "if([score] > 1, [name], null)", {}⟩
    p.Lawful ∧ f.Conforms schema ∧ ∃ (n : Nat) (field : Field) (reading : FieldReading),
      ((FieldCache.after schema .sqlite [request]).read schema .sqlite request.clock request.text
        request.options).1 = .ok (n, field) ∧
      reading.field = field ∧ reading.type.admits (field.sql.eval p f) := by
  intro p schema row f request
  have hp : p.Lawful :=
    ⟨fun _ => .null, fun _ => .null, fun _ => .null, fun _ _ _ => .null, fun _ _ _ => .null, fun _ _ _ => .null,
      fun _ _ _ => .inl rfl, fun _ => .null, fun _ _ => .null, fun _ => .inl rfl⟩
  have hrow : row.Conforms schema := by
    intro column hcolumn _
    simp only [schema, List.mem_cons, List.not_mem_nil, or_false] at hcolumn
    rcases hcolumn with rfl | rfl
    · exact .num 2
    · exact .text "a"
  have hf : f.Conforms schema :=
    ⟨by simpa [f] using hrow, by simpa [f] using hrow, fun _ h => Option.some.inj h ▸ hrow⟩
  have hok : ((FieldCache.after schema .sqlite [request]).read schema .sqlite request.clock request.text
      request.options).1.isOk = true := by
    decide +kernel
  cases hread : ((FieldCache.after schema .sqlite [request]).read schema .sqlite request.clock request.text
      request.options).1 with
  | error e =>
    rw [hread] at hok
    exact nomatch hok
  | ok found =>
    obtain ⟨now, reading, -, hfield, hadmits⟩ :=
      (FieldCache.read_admits p hp schema .sqlite).2 [request] request found.1 found.2 hread
    exact ⟨hp, hf, found.1, found.2, reading, rfl, hfield, hadmits f hf⟩

end ShelfQuery.Expression
