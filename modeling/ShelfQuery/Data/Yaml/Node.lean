import ShelfQuery.Data.Yaml.Token

set_option autoImplicit false

/-!
# YAML nodes

Anchors are numbered by how many names have been used before, so that an anchor whose name was used before shares its
number with the next new one; the last node under a number counts.
-/

namespace ShelfQuery.Data.Yaml

inductive Node where
  | scalar (tag : Option String) (text : String) (plain : Bool)
  | sequence (tag : Option String) (items : List Node)
  | mapping (tag : Option String) (entries : List (Node × Node))
  | alias (number : Nat)

structure Anchored where
  number : Nat
  order : Nat
  node : Node

structure Progress where
  tokens : List Token
  handles : List (String × String)
  names : List (String × Nat) := []
  anchors : Nat := 0
  anchored : List Anchored := []

abbrev Reader := StateT Progress Option

def malformed {α : Type} : Reader α := fun _ => none

def peek : Reader (Option Token) := do return (← get).tokens.head?

def next : Reader Unit := modify fun p => { p with tokens := p.tokens.drop 1 }

def emptyNode : Node := .scalar none "" true

def isOneOf (options : List Token) (t : Option Token) : Bool :=
  match t with
  | some t => options.contains t
  | none => false

def resolveTag (handle suffix : String) : Reader String := do
  if handle.isEmpty then return suffix
  else
    match (← get).handles.find? fun h => h.1 == handle with
    | some (_, lead) => return lead ++ suffix
    | none => malformed

def declare (name : String) : Reader (Nat × Nat) := do
  let p ← get
  let number := p.names.length
  let names := (name, number) :: p.names.filter fun n => n.1 != name
  set { p with names, anchors := p.anchors + 1 }
  return (number, p.anchors)

def keep (anchor : Option (Nat × Nat)) (node : Node) : Reader Node :=
  match anchor with
  | none => return node
  | some (number, order) => do
    modify fun p => { p with anchored := ⟨number, order, node⟩ :: p.anchored }
    return node

def properties : Reader (Option String × Option String) := do
  match ← peek with
  | some (.anchor name) =>
    next
    match ← peek with
    | some (.tag handle suffix) =>
      next
      return (some name, some (← resolveTag handle suffix))
    | _ => return (some name, none)
  | some (.tag handle suffix) =>
    next
    match ← peek with
    | some (.anchor name) =>
      next
      return (some name, some (← resolveTag handle suffix))
    | _ => return (none, some (← resolveTag handle suffix))
  | _ => return (none, none)

def scalarTag (tag : Option String) : Option String := if tag == some "!" then none else tag

mutual

/-- A node. Block collections are read only where blocks are allowed, and a sequence without
indentation of its own only as the key or value of a block mapping. -/
def readNode : (fuel : Nat) → (block indentless : Bool) → Reader Node
  | 0, _, _ => malformed
  | fuel + 1, block, indentless => do
    match ← peek with
    | some (.alias name) =>
      next
      match (← get).names.find? fun n => n.1 == name with
      | some (_, number) => return .alias number
      | none => malformed
    | _ =>
      let (name, tag) ← properties
      let anchor ←
        match name with
        | some name => some <$> declare name
        | none => pure none
      match ← peek with
      | some (.scalar text plain) =>
        next
        keep anchor (.scalar (scalarTag tag) text plain)
      | some .entry =>
        if indentless then keep anchor (.sequence tag (← readIndentless fuel)) else bare anchor tag
      | some .flowSequenceStart =>
        next
        keep anchor (.sequence tag (← readFlowItems fuel true))
      | some .flowMappingStart =>
        next
        keep anchor (.mapping tag (← readFlowEntries fuel true))
      | some .sequenceStart =>
        if block then
          next
          keep anchor (.sequence tag (← readItems fuel))
        else bare anchor tag
      | some .mappingStart =>
        if block then
          next
          keep anchor (.mapping tag (← readEntries fuel))
        else bare anchor tag
      | _ => bare anchor tag
where
  bare (anchor : Option (Nat × Nat)) (tag : Option String) : Reader Node :=
    if anchor.isSome || tag.isSome then keep anchor (.scalar tag "" true) else malformed

/-- A block node, unless one of the given tokens shows that there is none. -/
def readBlock? : (fuel : Nat) → (indentless : Bool) → (ends : List Token) → Reader Node
  | 0, _, _ => malformed
  | fuel + 1, indentless, ends => do
    if isOneOf ends (← peek) then return emptyNode else readNode fuel true indentless

def readItems : (fuel : Nat) → Reader (List Node)
  | 0 => malformed
  | fuel + 1 => do
    match ← peek with
    | some .entry =>
      next
      let item ← readBlock? fuel false [.entry, .blockEnd]
      return item :: (← readItems fuel)
    | some .blockEnd =>
      next
      return []
    | _ => malformed

def readIndentless : (fuel : Nat) → Reader (List Node)
  | 0 => malformed
  | fuel + 1 => do
    match ← peek with
    | some .entry =>
      next
      let item ← readBlock? fuel false [.entry, .key, .value, .blockEnd]
      return item :: (← readIndentless fuel)
    | _ => return []

def readEntries : (fuel : Nat) → Reader (List (Node × Node))
  | 0 => malformed
  | fuel + 1 => do
    match ← peek with
    | some .key =>
      next
      let key ← readBlock? fuel true [.key, .value, .blockEnd]
      match ← peek with
      | some .value =>
        next
        let value ← readBlock? fuel true [.key, .value, .blockEnd]
        return (key, value) :: (← readEntries fuel)
      | _ => return (key, emptyNode) :: (← readEntries fuel)
    | some .blockEnd =>
      next
      return []
    | _ => malformed

def readFlow? : (fuel : Nat) → (ends : List Token) → Reader Node
  | 0, _ => malformed
  | fuel + 1, ends => do
    if isOneOf ends (← peek) then return emptyNode else readNode fuel false false

/-- The items of a flow sequence. An item may be a mapping of one entry without braces. -/
def readFlowItems : (fuel : Nat) → (first : Bool) → Reader (List Node)
  | 0, _ => malformed
  | fuel + 1, first => do
    if (← peek) == some .flowSequenceEnd then
      next
      return []
    else
      if !first then
        if (← peek) == some .flowEntry then next else malformed
      match ← peek with
      | some .flowSequenceEnd =>
        next
        return []
      | some .key =>
        next
        let key ← readFlow? fuel [.value, .flowEntry, .flowSequenceEnd]
        let value ← readFlowValue fuel .flowSequenceEnd
        return .mapping none [(key, value)] :: (← readFlowItems fuel false)
      | _ =>
        let item ← readNode fuel false false
        return item :: (← readFlowItems fuel false)

def readFlowValue : (fuel : Nat) → (closing : Token) → Reader Node
  | 0, _ => malformed
  | fuel + 1, closing => do
    if (← peek) == some .value then
      next
      readFlow? fuel [.flowEntry, closing]
    else return emptyNode

def readFlowEntries : (fuel : Nat) → (first : Bool) → Reader (List (Node × Node))
  | 0, _ => malformed
  | fuel + 1, first => do
    if (← peek) == some .flowMappingEnd then
      next
      return []
    else
      if !first then
        if (← peek) == some .flowEntry then next else malformed
      match ← peek with
      | some .flowMappingEnd =>
        next
        return []
      | some .key =>
        next
        let key ← readFlow? fuel [.value, .flowEntry, .flowMappingEnd]
        let value ← readFlowValue fuel .flowMappingEnd
        return (key, value) :: (← readFlowEntries fuel false)
      | _ =>
        let key ← readNode fuel false false
        return (key, emptyNode) :: (← readFlowEntries fuel false)

end

structure Document where
  root : Option Node := none
  anchored : List Anchored := []

def standardHandles : List (String × String) := [("!", "!"), ("!!", "tag:yaml.org,2002:")]

/-- The directives before a document: at most one version, 1.1 or 1.2, and each handle once. -/
def readDirectives : (versioned : Bool) → (handles : List (String × String)) → List Token →
    Option (List (String × String) × List Token)
  | versioned, handles, .version major minor :: rest =>
    if versioned || major != 1 || (minor != 1 && minor != 2) then none else readDirectives true handles rest
  | versioned, handles, .tagHandle handle lead :: rest =>
    if handles.any fun h => h.1 == handle then none else readDirectives versioned (handles ++ [(handle, lead)]) rest
  | _, handles, rest => some (handles, rest)

def endsDocument : List Token → Bool
  | [] => true
  | .version _ _ :: _ => true
  | .tagHandle _ _ :: _ => true
  | .documentStart :: _ => true
  | .documentEnd :: _ => true
  | _ => false

def readRoot (handles : List (String × String)) (tokens : List Token) : Option (Document × List Token) := do
  let (root, p) ← (readNode (4 * tokens.length + 8) true false).run { tokens, handles := handles ++ standardHandles }
  return (⟨some root, p.anchored⟩, p.tokens)

def finish (result : Document × List Token) : Option Document :=
  if (result.2.dropWhile (· == .documentEnd)).isEmpty then some result.1 else none

def explicit (tokens : List Token) : Option Document := do
  let (handles, rest) ← readDirectives false [] tokens
  match rest with
  | .documentStart :: rest =>
    if endsDocument rest then finish (⟨some emptyNode, []⟩, rest) else finish (← readRoot handles rest)
  | _ => none

def Document.parse? (text : String) : Option Document := do
  let tokens ← tokens? text
  match tokens with
  | [] => some {}
  | .documentEnd :: _ => none
  | t :: _ => if endsDocument [t] then explicit tokens else finish (← readRoot [] tokens)

end ShelfQuery.Data.Yaml
