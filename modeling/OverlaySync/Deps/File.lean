import OverlaySync.Deps.Lexeme
import OverlaySync.Deps.Reading

/-! # Deps files

A deps file is a sequence of bindings `name = expression`. A name may be used behind its binding,
and the latest binding counts. `parse` takes a source to the names that it binds, or to its first
fault. -/

namespace OverlaySync.Deps

/-- The syntax of a file: the bindings, in their order, up to the place where the text stops being
one. -/
structure File where
  /-- Names and the expressions that they are bound to. -/
  bindings : List (String × Expr)
  /-- The fault behind the last binding, if the text does not end there. -/
  fault : Option Fault

namespace File

/-- The file with one more binding before the others. -/
def cons (x : String) (e : Expr) (f : File) : File :=
  ⟨(x, e) :: f.bindings, f.fault⟩

/-- Read a file. -/
def read (ts : List Token) : File :=
  match ts with
  | [] => ⟨[], none⟩
  | .name x :: rest =>
    match behind? .equals rest with
    | none => ⟨[], some (Fault.expected .equalsAfterName rest)⟩
    | some ⟨rest', _⟩ =>
      match Expr.read rest' with
      | .complete e later _ => (read later).cons x e
      | .broken e => ⟨[(x, e)], none⟩
  | ts => ⟨[], some ⟨ts.length, .nameExpected⟩⟩
  termination_by ts.length
  decreasing_by simp only [List.length_cons]; omega

/-- Evaluate bindings in their order, each in the scope of those before. -/
def evalBindings (scope : Bindings) : List (String × Expr) → Except Fault Bindings
  | [] => .ok scope
  | (x, e) :: bs => do
    let v ← e.eval scope
    evalBindings (scope.insert x v) bs

/-- The names that a file binds, or its first fault. -/
def eval (f : File) : Except Fault Bindings := do
  let scope ← evalBindings ∅ f.bindings
  match f.fault with
  | none => return scope
  | some fault => .error fault

end File

/-- The offset of a fault: that of the token where it is, or of the last token if it is at the end
of the file. -/
def Fault.offset (ts : List Located) (f : Fault) : Nat :=
  match ts[ts.length - f.remaining]?, ts.getLast? with
  | some t, _ => t.offset
  | none, some t => t.offset
  | none, none => 0

/-- The names that a source binds, or why and where it is refused. -/
def parse (source : String) : Except SyntaxError Bindings :=
  match tokensOf source.toList with
  | .error e => .error e
  | .ok ts =>
    match (File.read (ts.map Located.token)).eval with
    | .ok b => .ok b
    | .error f => .error ⟨Position.ofOffset source.toList (f.offset ts), f.cause⟩

end OverlaySync.Deps
