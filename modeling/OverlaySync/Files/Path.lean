import OverlaySync.Text.Pieces

/-! # Paths

A path is its text, and is shown as it was given. Its components are the pieces of the text between
slashes; empty pieces, and dots other than one at the very start, are no components. -/

namespace OverlaySync

/-- A path, as its text. -/
structure Path where
  /-- The text. -/
  text : String
  deriving DecidableEq, Repr, Inhabited

namespace Path

/-- A piece between slashes that is no component. -/
def isIdle (piece : List Char) : Bool :=
  piece.isEmpty || piece == ['.']

/-- The start of a path, a slash or a dot on its own, and what follows it. -/
def splitHead : List Char → List Char × List Char
  | '/' :: cs => (['/'], cs)
  | ['.'] => (['.'], [])
  | '.' :: '/' :: cs => (['.'], '/' :: cs)
  | cs => ([], cs)

/-- The components behind the start of a path, from the last one on; `idle` pieces behind the last
component are dropped. -/
def reversedBody (body : List Char) : List (List Char) :=
  (Text.pieces '/' body).reverse.dropWhile isIdle

/-- The path without its last component. A root and the empty path have no parent, and the parent of
a single component is the empty path. -/
def parent? (p : Path) : Option Path :=
  let (head, body) := splitHead p.text.toList
  match reversedBody body with
  | [] => if head = ['.'] then some ⟨""⟩ else none
  | _ :: front =>
    some ⟨String.ofList (head ++ Text.joined '/' (front.dropWhile isIdle).reverse)⟩

/-- Cutting a path after its start loses nothing. -/
theorem append_splitHead (cs : List Char) : (splitHead cs).1 ++ (splitHead cs).2 = cs := by
  unfold splitHead
  split <;> rfl

/-- The start of a path is empty, a slash, or a dot with nothing or a slash behind it. -/
theorem splitHead_cases (cs : List Char) :
    (splitHead cs).1 = [] ∨ (splitHead cs).1 = ['/'] ∨
      (splitHead cs).1 = ['.'] ∧ ((splitHead cs).2 = [] ∨ ∃ ds, (splitHead cs).2 = '/' :: ds) := by
  unfold splitHead
  split
  · exact .inr (.inl rfl)
  · exact .inr (.inr ⟨rfl, .inl rfl⟩)
  · exact .inr (.inr ⟨rfl, .inr ⟨_, rfl⟩⟩)
  · exact .inl rfl

/-- What is kept of a path without its last component is the start of its pieces. -/
theorem exists_pieces_of_reversedBody {body last : List Char} {front : List (List Char)}
    (h : reversedBody body = last :: front) : ∃ rest, rest ≠ [] ∧
      Text.pieces '/' body = (front.dropWhile isIdle).reverse ++ rest := by
  have behind := List.takeWhile_append_dropWhile (p := isIdle) (l := (Text.pieces '/' body).reverse)
  rw [show ((Text.pieces '/' body).reverse.dropWhile isIdle) = last :: front from h] at behind
  refine ⟨(front.takeWhile isIdle).reverse ++
    last :: ((Text.pieces '/' body).reverse.takeWhile isIdle).reverse, by simp, ?_⟩
  calc Text.pieces '/' body
      = ((Text.pieces '/' body).reverse.takeWhile isIdle ++ last :: front).reverse := by
        rw [behind, List.reverse_reverse]
    _ = front.reverse ++ last :: ((Text.pieces '/' body).reverse.takeWhile isIdle).reverse := by
        simp
    _ = _ := by
        rw [← List.append_assoc, ← List.reverse_append, List.takeWhile_append_dropWhile]

/-- The text of a parent is the start of the path's, up to a slash if it is neither empty nor a
slash itself. -/
theorem exists_text_of_parent? {p q : Path} (h : p.parent? = some q) :
    ∃ rest, p.text.toList = q.text.toList ++ rest ∧ rest ≠ [] ∧
      (q.text.toList = [] ∨ q.text.toList = ['/'] ∨ ∃ cs, rest = '/' :: cs) := by
  have whole := append_splitHead p.text.toList
  have joins := Text.joined_pieces '/' (splitHead p.text.toList).2
  rw [parent?] at h
  dsimp only at h
  split at h
  · split at h
    · next dot =>
      cases h
      refine ⟨p.text.toList, rfl, fun empty => ?_, .inl rfl⟩
      rw [empty] at dot
      cases dot
    · cases h
  · next last front hbody =>
    obtain ⟨rest, some, hpieces⟩ := exists_pieces_of_reversedBody hbody
    have busy : (splitHead p.text.toList).2 ≠ [] := fun hnil => by
      rw [hnil] at hbody
      cases hbody
    cases h
    dsimp only
    rw [String.toList_ofList]
    -- Without pieces a parent is the start of the path alone.
    by_cases kept : (front.dropWhile isIdle).reverse = []
    · rw [kept, show Text.joined '/' [] = [] from rfl, List.append_nil]
      refine ⟨(splitHead p.text.toList).2, whole.symm, busy, ?_⟩
      obtain hhead | hhead | ⟨-, hnil | hcons⟩ := splitHead_cases p.text.toList
      · exact .inl hhead
      · exact .inr (.inl hhead)
      · exact absurd hnil busy
      · exact .inr (.inr hcons)
    · refine ⟨'/' :: Text.joined '/' rest, ?_, nofun, .inr (.inr ⟨_, rfl⟩)⟩
      rw [List.append_assoc, ← Text.joined_append '/' kept some, ← hpieces, joins, whole]

/-- A parent is a shorter text. -/
theorem length_parent?_lt {p q : Path} (h : p.parent? = some q) :
    q.text.toList.length < p.text.toList.length := by
  obtain ⟨rest, htext, some, -⟩ := exists_text_of_parent? h
  have long := List.length_pos_iff.2 some
  rw [htext, List.length_append]
  omega

/-- The path and the paths above it, up to the root or to the empty path. -/
def ancestors (p : Path) : List Path :=
  match h : p.parent? with
  | none => [p]
  | some q =>
    have := length_parent?_lt h
    p :: q.ancestors
  termination_by p.text.toList.length

/-- The last component, unless it is a step upwards. -/
def fileName? (p : Path) : Option String :=
  match reversedBody (splitHead p.text.toList).2 with
  | [] => none
  | last :: _ => if last = ['.', '.'] then none else some (String.ofList last)

/-- Whether a path starts at the root. -/
def isAbsolute (p : Path) : Bool :=
  p.text.toList.head? = some '/'

/-- A path below another one. An absolute path stays what it is. -/
def join (p q : Path) : Path :=
  if q.isAbsolute || p.text.isEmpty then q
  else if p.text.toList.getLast? = some '/' then ⟨p.text ++ q.text⟩
  else ⟨p.text ++ "/" ++ q.text⟩

/-- A name below a path. -/
def child (p : Path) (name : String) : Path :=
  p.join ⟨name⟩

/-- The pieces that are walked through to reach the path. -/
def steps (p : Path) : List String :=
  ((Text.pieces '/' p.text.toList).filter fun piece => !piece.isEmpty).map String.ofList

/-- The directory that holds the path's entry: its parent, or the current directory. -/
def holder (p : Path) : Path :=
  match p.parent? with
  | some q => if q.text.isEmpty then ⟨"."⟩ else q
  | none => ⟨"."⟩

/-- The name of a file that is written aside: hidden, and a number of six digits or more. -/
def asideName (number : Nat) : String :=
  ".tmp" ++ String.ofList ((Nat.toDigits 10 number).leftpad 6 '0')

/-- A path beside the path's entry, to write a file aside at. -/
def aside (p : Path) (number : Nat) : Path :=
  p.holder.child (asideName number)

/-- Whether the path ends in the name of an entry, and not in a step in place or upwards. -/
def endsInName (p : Path) : Bool :=
  p.steps.getLast?.any fun name => name ≠ "." && name ≠ ".."

/-- Whether the text ends in a slash, so that only a directory can be meant. -/
def hasTrailingSlash (p : Path) : Bool :=
  p.text.toList.getLast? = some '/'

end Path

end OverlaySync
