import ShelfQuery.Expression.Compile
import ShelfQuery.Expression.Parser
import ShelfQuery.Sql.Render

set_option autoImplicit false

namespace ShelfQuery.Expression

open ShelfQuery.Sql ShelfQuery.Schema ShelfQuery.Calendar

inductive FieldError where
  | malformed (text : String) (fault : Diagnostic)
  | invalid (text : String) (faults : List Diagnostic)
  | constantValue

def FieldError.message : FieldError → String
  | .malformed text fault => Diagnostic.render text [fault]
  | .invalid text faults => Diagnostic.render text faults
  | .constantValue => "Must return an expression, not a constant value"

def FieldError.faults : FieldError → List (String × Option Nat)
  | .malformed _ fault => [(fault.fault.message, fault.pos)]
  | .invalid _ faults => faults.map fun d => (d.fault.message, d.pos)
  | .constantValue => [(FieldError.message .constantValue, none)]

structure Field where
  sql : Sql
  datatype : DataType
  aggregate : Bool

structure FieldReading where
  field : Field
  type : ValueType
  readsClock : Bool

/-- A number that must be an aggregate and is not becomes a sum. -/
def Field.aggregated (options : Options) (f : Field) : Field :=
  if options.enforceAggregation && !f.aggregate && f.datatype == .num then
    ⟨.func "sum" [f.sql], f.datatype, true⟩
  else f

/-- Reads, checks and compiles a text. An expression of null type counts as text. -/
def readField (c : Context) (text : String) : Except FieldError FieldReading :=
  match Tree.parse text with
  | .error fault => .error (.malformed text fault)
  | .ok tree =>
    match tree.compile c with
    | .error faults => .error (.invalid text faults)
    | .ok compiled =>
      if compiled.readsColumns then
        let field : Field := ⟨compiled.sql, compiled.type.dataType?.getD .str, compiled.aggregated⟩
        .ok ⟨field.aggregated c.options, compiled.type, compiled.readsClock⟩
      else .error .constantValue

def Field.render (s : Setting) (f : Field) : String := f.sql.render s

inductive Clock where
  | fixed (now : DateTime)
  | running (now : DateTime)

def Clock.now : Clock → DateTime
  | .fixed now => now
  | .running now => now

def Clock.isFixed : Clock → Bool
  | .fixed _ => true
  | .running _ => false

structure FieldCache where
  entries : List ((String × Options) × (Nat × Field)) := []
  next : Nat := 0

def FieldCache.find? (cache : FieldCache) (text : String) (options : Options) : Option (Nat × Field) :=
  (cache.entries.find? fun e => e.1.1 == text && e.1.2 = options).map Prod.snd

/-- The field for a text, from the cache if it is there. A new field gets a new number; it is kept
unless it depends on a clock that runs. -/
def FieldCache.read (cache : FieldCache) (schema : Table) (dialect : Dialect) (clock : Clock)
    (text : String) (options : Options) : Except FieldError (Nat × Field) × FieldCache :=
  match cache.find? text options with
  | some found => (.ok found, cache)
  | none =>
    match readField ⟨schema, dialect, options, clock.now⟩ text with
    | .error e => (.error e, cache)
    | .ok reading =>
      let numbered := (cache.next, reading.field)
      let entries :=
        if clock.isFixed || !reading.readsClock then ((text, options), numbered) :: cache.entries
        else cache.entries
      (.ok numbered, ⟨entries, cache.next + 1⟩)

end ShelfQuery.Expression
