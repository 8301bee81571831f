import ShelfQuery.Text.Words

set_option autoImplicit false

namespace ShelfQuery.Files

inductive Item where
  | file (text : String)
  | folder

abbrev Path := List String

/-- The items are files and folders; every folder above one of them exists too. -/
structure FileTree where
  items : List (Path × Item)
  here : Path

def parts (text : String) : List String :=
  (splitFrom [] text.toList).map String.ofList
where
  splitFrom (word : List Char) : List Char → List (List Char)
    | [] => [word.reverse]
    | c :: rest => if c = '/' then word.reverse :: splitFrom [] rest else splitFrom (c :: word) rest

def Path.text (p : Path) : String := "/" ++ Text.join "/" p

def isAbsolute (text : String) : Bool := text.toList.head? == some '/'

def below (folder name : String) : String :=
  if folder = "" then name else if folder.toList.getLast? == some '/' then folder ++ name else folder ++ "/" ++ name

def fileName? (text : String) : Option String :=
  match ((parts text).filter fun p => p != "" && p != ".").getLast? with
  | some ".." => none
  | name => name

/-- What follows the last point of the last name. A name may start with a point and have no extension. -/
def extension? (text : String) : Option String := do
  let (stem, extension) ← Text.splitLast? ['.'] (← fileName? text).toList
  if stem.isEmpty then none else some (String.ofList extension)

namespace FileTree

def isAbove (p q : Path) : Bool := p.isPrefixOf q

def at? (t : FileTree) (p : Path) : Option Item :=
  match t.items.find? fun e => e.1 == p with
  | some e => some e.2
  | none => if isAbove p t.here || t.items.any fun e => isAbove p e.1 then some .folder else none

def isFolderAt (t : FileTree) (p : Path) : Bool :=
  match t.at? p with
  | some .folder => true
  | _ => false

def follow (t : FileTree) : Path → List String → Option Path
  | p, [] => (t.at? p).map fun _ => p
  | p, name :: rest =>
    if !t.isFolderAt p then none
    else if name = "" ∨ name = "." then follow t p rest
    else if name = ".." then follow t p.dropLast rest
    else follow t (p ++ [name]) rest

def resolve? (t : FileTree) (text : String) : Option Path :=
  if text = "" then none else t.follow (if isAbsolute text then [] else t.here) (parts text)

def find? (t : FileTree) (text : String) : Option Item := (t.resolve? text).bind t.at?

def isFile (t : FileTree) (text : String) : Bool :=
  match t.find? text with
  | some (.file _) => true
  | _ => false

def isFolder (t : FileTree) (text : String) : Bool :=
  match t.find? text with
  | some .folder => true
  | _ => false

inductive ReadError where
  | missing | isFolder

def ReadError.message : ReadError → String
  | .missing => "No such file or directory (os error 2)"
  | .isFolder => "Is a directory (os error 21)"

def read (t : FileTree) (text : String) : Except ReadError String :=
  match t.find? text with
  | some (.file s) => .ok s
  | some .folder => .error .isFolder
  | none => .error .missing

end FileTree

end ShelfQuery.Files
