import OverlaySync.OrderedMap.Basic
import OverlaySync.Files.Path
import OverlaySync.Files.Refusal

/-! # File trees

A file tree says what there is at every location: a file with its content, a directory, or nothing.
Paths are walked step by step from a current directory (`FileTree.locate`). A refused operation
leaves the tree alone; only making a directory with all that is above it can stop half way.

Refusals follow from what is in the tree. Those for which it gives no reason, such as that of a full
disk, are modelled for replacing a file (`FileTree.replaceVia`), where they decide what remains, and
left out for writing in place. Links and permissions are left out altogether. -/

namespace OverlaySync

/-- A place in a file tree: the names of the directories that lead to it from the root, and its own
name. The root is the empty list. -/
abbrev Location := List String

/-- The path that names a location. -/
def Location.path (l : Location) : Path :=
  ⟨"/" ++ "/".intercalate l⟩

/-- What there can be at a location. -/
inductive Node where
  /-- A file. -/
  | file (content : ByteArray)
  /-- A directory. -/
  | directory

instance : DecidableEq Node
  | .file a, .file b =>
    decidable_of_iff (a.data = b.data) ⟨fun h => congrArg Node.file (ByteArray.ext h), by grind⟩
  | .directory, .directory => .isTrue rfl
  | .file _, .directory => .isFalse nofun
  | .directory, .file _ => .isFalse nofun

/-- What there is at every location below the root. -/
structure FileTree where
  /-- The files and directories. -/
  nodes : OrderedMap Location Node
  deriving DecidableEq

namespace FileTree

/-! ## Look-up and update -/

/-- The tree without files. -/
def empty : FileTree := ⟨∅⟩

instance : Inhabited FileTree := ⟨empty⟩

/-- What there is at a location. The root is a directory. -/
def lookup (t : FileTree) (l : Location) : Option Node :=
  if l = [] then some .directory else t.nodes.get? l

/-- Put something at a location, in place of what is there. -/
def set (t : FileTree) (l : Location) (n : Node) : FileTree :=
  ⟨t.nodes.insert l n⟩

/-- Take a location and all that is below it away. -/
def removeBelow (t : FileTree) (l : Location) : FileTree :=
  ⟨t.nodes.removeIf fun k => l.isPrefixOf k⟩

/-- Whether there is something in the directory at a location. -/
def hasEntries (t : FileTree) (l : Location) : Bool :=
  t.nodes.keys.any fun k => !k.isEmpty && k.dropLast = l

/-- What has just been put at a location is found there. The root is left out: it is a directory and
cannot be replaced. -/
theorem lookup_set_self (t : FileTree) {l : Location} (h : l ≠ []) (n : Node) :
    (t.set l n).lookup l = some n := by
  simp [lookup, set, h]

/-- Putting something at one location leaves all others as they were. -/
theorem lookup_set_of_ne (t : FileTree) {l l' : Location} (h : l' ≠ l) (n : Node) :
    (t.set l n).lookup l' = t.lookup l' := by
  simp [lookup, set, OrderedMap.get?_insert_of_ne _ h]

/-! ## Walking paths -/

/-- The number of bytes that a name may have. -/
def nameLimit : Nat := 255

/-- The number of bytes that a path may have. -/
def pathLimit : Nat := 4095

/-- One step of a path. What is stepped from has to be a directory; a dot stays there, and two dots
go up. -/
def step (t : FileTree) (here : Location) (name : String) : Except Refusal Location :=
  match t.lookup here with
  | none => .error .notFound
  | some (.file _) => .error .notDirectory
  | some .directory =>
    if name = "." then .ok here
    else if name = ".." then .ok here.dropLast
    else if nameLimit < name.utf8ByteSize then .error .nameTooLong
    else .ok (here ++ [name])

/-- The location that some steps lead to from the start of a path, which is the root or a current
directory. A path that the system does not take is refused before any step. -/
def follow (t : FileTree) (current : Location) (p : Path) (steps : List String) :
    Except Refusal Location :=
  if '\x00' ∈ p.text.toList then .error .zeroInPath
  else if p.text.isEmpty then .error .notFound
  else if pathLimit < p.text.utf8ByteSize then .error .nameTooLong
  else steps.foldlM t.step (if p.isAbsolute then [] else current)

/-- The location that a path leads to from a current directory. There need not be anything at it. -/
def locate (t : FileTree) (current : Location) (p : Path) : Except Refusal Location :=
  t.follow current p p.steps

/-- The location of the directory that the last step of a path is taken from. -/
def approach (t : FileTree) (current : Location) (p : Path) : Except Refusal Location :=
  t.follow current p (p.steps.dropLast ++ ["."])

/-- Where a path leads to, and what there is. -/
def find (t : FileTree) (current : Location) (p : Path) : Except Refusal (Location × Node) := do
  let l ← t.locate current p
  match t.lookup l with
  | none => .error .notFound
  | some .directory => .ok (l, .directory)
  | some (.file content) =>
    if p.hasTrailingSlash then .error .notDirectory else .ok (l, .file content)

/-- The location of what is at a path. It is found from the root: every path from there to a place
on the way has to be short enough, and the given path may be of any length. -/
def resolve (t : FileTree) (current : Location) (p : Path) : Except Refusal Location := do
  let within (l : Location) : Except Refusal Location :=
    if pathLimit < l.path.text.utf8ByteSize then .error .nameTooLong else .ok l
  if '\x00' ∈ p.text.toList then .error .zeroInPath
  else if p.text.isEmpty then .error .notFound
  else
    let steps := if p.hasTrailingSlash then p.steps ++ ["."] else p.steps
    let l ← steps.foldlM (fun here name => do within (← t.step here name))
      (if p.isAbsolute then [] else current)
    if (t.lookup l).isSome then .ok l else .error .notFound

/-! ## Reading -/

/-- Whether there is something at a path. -/
def isPresent (t : FileTree) (current : Location) (p : Path) : Bool :=
  (t.find current p).isOk

/-- Whether there is a directory at a path. -/
def isDirectory (t : FileTree) (current : Location) (p : Path) : Bool :=
  match t.find current p with
  | .ok (_, .directory) => true
  | _ => false

/-- Whether there is a directory at a path, and something in it. -/
def isOccupied (t : FileTree) (current : Location) (p : Path) : Bool :=
  match t.find current p with
  | .ok (l, .directory) => t.hasEntries l
  | _ => false

/-- The location of the directory at a path. -/
def findDirectory (t : FileTree) (current : Location) (p : Path) : Except Refusal Location := do
  match ← t.find current p with
  | (l, .directory) => .ok l
  | (_, .file _) => .error .notDirectory

/-- The content of the file at a path. -/
def read (t : FileTree) (current : Location) (p : Path) : Except Refusal ByteArray := do
  match ← t.find current p with
  | (_, .file content) => .ok content
  | (_, .directory) => .error .isDirectory

/-! ## Writing -/

/-- Write a file. The directory that holds it has to be there. Behind a slash at the end there is no
name for a file, so the last step is not taken. -/
def write (t : FileTree) (current : Location) (p : Path) (content : ByteArray) :
    Except Refusal FileTree := do
  if p.hasTrailingSlash then
    let _ ← t.approach current p
    .error .isDirectory
  else
    let l ← t.locate current p
    if t.lookup l = some .directory then .error .isDirectory
    else .ok (t.set l (.file content))

/-- Make a directory. The directory that holds it has to be there. -/
def makeDirectory (t : FileTree) (current : Location) (p : Path) : Except Refusal FileTree := do
  let l ← t.locate current p
  match t.lookup l with
  | none => .ok (t.set l .directory)
  | some _ => .error .alreadyExists

/-- Make the first of the paths a directory, unless it is one, and before it what it lacks of the
paths above it, which follow it. The tree is the one that remains, also after a refusal. -/
def makeChain (t : FileTree) (current : Location) : List Path → Except Refusal Unit × FileTree
  | [] => (.error (.other "failed to create whole tree"), t)
  | p :: above =>
    if p.text.isEmpty then (.ok (), t)
    else match t.makeDirectory current p with
      | .ok t' => (.ok (), t')
      | .error .notFound =>
        match t.makeChain current above with
        | (.error e, t') => (.error e, t')
        | (.ok (), t') =>
          match t'.makeDirectory current p with
          | .ok t'' => (.ok (), t'')
          | .error e => (if t'.isDirectory current p then .ok () else .error e, t')
      | .error e => (if t.isDirectory current p then .ok () else .error e, t)

/-- Make a directory, and the directories above it that are missing. -/
def makeDirectories (t : FileTree) (current : Location) (p : Path) :
    Except Refusal Unit × FileTree :=
  t.makeChain current p.ancestors

/-- Remove a file, or a directory with all that is in it. -/
def remove (t : FileTree) (current : Location) (p : Path) : Except Refusal FileTree := do
  let (l, _) ← t.find current p
  .ok (t.removeBelow l)

/-! ## Replacing a file

A file is replaced in three steps: another one is made aside, it is filled, and it is moved into
place. Whatever step is refused, the file aside is removed. -/

/-- Remove the file at a location. -/
def unlink (t : FileTree) (l : Location) : FileTree :=
  ⟨t.nodes.removeIf fun k => k = l⟩

/-- The directory that holds the entry of a path. A file is made aside there, so the path from the
root to this file must not be too long either. -/
def holder (t : FileTree) (current : Location) (p : Path) : Except Refusal Location :=
  t.approach current (current.path.join (p.aside 0))

/-- Make an empty file aside. There must be nothing of its name. -/
def createAside (t : FileTree) (current : Location) (p : Path) (number : Nat) :
    Except Refusal (Location × FileTree) := do
  let here ← t.holder current p
  let l := here ++ [Path.asideName number]
  match t.lookup l with
  | none => .ok (l, t.set l (.file .empty))
  | some _ => .error .alreadyExists

/-- Write to a file that has just been made. This may be refused after some bytes. -/
def fill (t : FileTree) (l : Location) (content : ByteArray) :
    Option (Refusal × Nat) → Except Refusal Unit × FileTree
  | none => (.ok (), t.set l (.file content))
  | some (e, size) => (.error e, t.set l (.file (content.extract 0 size)))

/-- Move the file at a location to a path, in place of a file there. -/
def moveFile (t : FileTree) (current l : Location) (p : Path) : Except Refusal FileTree := do
  let l' ← t.locate current p
  if !p.endsInName then .error .busy
  else if p.hasTrailingSlash then .error .notDirectory
  else if t.lookup l' = some .directory then .error .isDirectory
  else match t.lookup l with
    | some (.file content) => .ok ((t.unlink l).set l' (.file content))
    | _ => .error .notFound

/-- Refusals for which the tree gives no reason, such as those of a full disk. -/
structure Hindrances where
  /-- No file is made. -/
  create : Option Refusal
  /-- A file takes no more than some bytes. -/
  fill : Option (Refusal × Nat)
  /-- No file is moved. -/
  move : Option Refusal

/-- Only the tree gives reasons for refusals. -/
def Hindrances.none : Hindrances := ⟨Option.none, Option.none, Option.none⟩

/-- A step that may be hindered. -/
def hindered {α : Type} (step : Except Refusal α) : Option Refusal → Except Refusal α
  | none => step
  | some e => .error e

/-- Write a file aside, under the name of a number, and move it into place. The tree is the one that
remains, also after a refusal. -/
def replaceVia (t : FileTree) (current : Location) (p : Path) (content : ByteArray) (number : Nat)
    (hindrances : Hindrances) : Except Refusal Unit × FileTree :=
  match hindered (t.createAside current p number) hindrances.create with
  | .error e => (.error e, t)
  | .ok (l, created) =>
    match created.fill l content hindrances.fill with
    | (.error e, filled) => (.error e, filled.unlink l)
    | (.ok (), filled) =>
      match hindered (filled.moveFile current l p) hindrances.move with
      | .error e => (.error e, filled.unlink l)
      | .ok moved => (.ok (), moved)

/-- Whether nothing in a directory has the name of a number, and no step of a path. -/
def isFree (t : FileTree) (here : Location) (p : Path) (number : Nat) : Bool :=
  (t.lookup (here ++ [Path.asideName number])).isNone && !p.steps.contains (Path.asideName number)

/-- The first number from a given one on that is free, of as many as the fuel lets be tried. -/
def firstFree (t : FileTree) (here : Location) (p : Path) : Nat → Nat → Nat
  | 0, number => number
  | fuel + 1, number =>
    if t.isFree here p number then number else t.firstFree here p fuel (number + 1)

/-- The number of the file aside. No more names are taken than are tried. -/
def asideNumber (t : FileTree) (current : Location) (p : Path) : Nat :=
  match t.holder current p with
  | .error _ => 0
  | .ok here => t.firstFree here p (t.nodes.keys.length + p.steps.length) 0

/-- Write a file aside and move it into place, where nothing hinders this. -/
def replace (t : FileTree) (current : Location) (p : Path) (content : ByteArray) :
    Except Refusal Unit × FileTree :=
  t.replaceVia current p content (t.asideNumber current p) .none

end FileTree

end OverlaySync
