import OverlaySync.Deps.File

/-! # Reading by a position

Another reader of deps files, which evaluates what it reads. It keeps the position of the next
token, moves it forwards, and once back: an operand that opens with a parenthesis is read from this
parenthesis on. The functions call each other, and a call that goes too deep gives nothing. How deep
is too deep is an argument: nothing in the definitions says that any depth is enough.

`Reaches` says that some depth is enough, and that no depth gives another outcome. `Step.Returns`
says so of a step at a position. There is a rule for each way of putting steps together, and one for
each step that takes a token or looks for it. -/

namespace OverlaySync.Deps

/-! ## Steps -/

/-- A step of reading among the tokens of a file. It starts at a position. If it comes to an end, it
fails, or has a result and the position behind it. -/
abbrev Step (α : Type) := StateT Nat (ExceptT Fault Option) α

namespace Step

variable {α β : Type}

/-- A step that comes to no end. -/
def unfinished : Step α :=
  fun _ => none

/-- An evaluation, without a move. -/
def eval (x : Except Fault α) : Step α :=
  fun pos => some (x.map (·, pos))

end Step

namespace Cursor

/-! ## Tokens -/

section

variable (ts : List Token)

/-- The number of tokens from here to the end. -/
def remaining : Step Nat := do
  return ts.length - (← get)

/-- The next token, if there is one. -/
def peek : Step (Option Token) := do
  return ts[(← get)]?

/-- Take the next token, if there is one. -/
def next : Step (Option Token) := do
  let t ← peek ts
  if t.isSome then modify (· + 1)
  return t

/-- Take the next token if it is the mark `m`. -/
def eat (m : Mark) : Step Bool := do
  if (← peek ts) = some (.mark m) then
    modify (· + 1)
    return true
  else
    return false

/-- Take the next token, which has to be the mark `m`. -/
def expect (m : Mark) (what : Expectation) : Step Unit := do
  let place ← remaining ts
  match ← next ts with
  | none => throw ⟨0, .endReached what⟩
  | some t => if t = .mark m then return () else throw ⟨place, .expected what⟩

/-- Take the quoted texts that come next, and put them together. -/
def strings : Nat → Step String
  | 0 => .unfinished
  | depth + 1 => do
    match ← peek ts with
    | some (.string s) =>
      modify (· + 1)
      let more ← strings depth
      return s ++ more
    | _ => return ""

end

/-! ## Expressions -/

/-- What stands in parentheses. -/
inductive Paren where
  /-- One value. -/
  | group (v : Value)
  /-- The items of a tuple. -/
  | tuple (vs : List Value)

namespace Paren

/-- As an operand, a tuple is a list. -/
def value : Paren → Value
  | group v => v
  | tuple vs => .list vs

/-- The arguments that it supplies to a format. -/
def arguments : Paren → List Value
  | group v => [v]
  | tuple vs => vs

end Paren

/-- The arguments that a value supplies to a format if it does not stand in parentheses. -/
def argumentsOf : Value → List Value
  | .list vs => vs
  | v => [v]

section

variable (ts : List Token) (scope : Bindings)

mutual

/-- A sum. -/
def expr : Nat → Step Value
  | 0 => .unfinished
  | depth + 1 => do
    let left ← term depth
    addends depth left

/-- What is added to `left`. -/
def addends : Nat → Value → Step Value
  | 0, _ => .unfinished
  | depth + 1, left => do
    let place ← remaining ts
    if ← eat ts .plus then
      let right ← term depth
      let v ← .eval (Fault.locate place (left.add right))
      addends depth v
    else
      return left

/-- An operand of a sum. -/
def term : Nat → Step Value
  | 0 => .unfinished
  | depth + 1 => do
    let left ← unary depth
    formats depth left

/-- What `left` is formatted with. -/
def formats : Nat → Value → Step Value
  | 0, _ => .unfinished
  | depth + 1, left => do
    let place ← remaining ts
    if ← eat ts .percent then
      let args ← arguments depth
      let v ← .eval (Fault.locate place (left.formatWith args))
      formats depth v
    else
      return left

/-- The arguments of a format. What stands in parentheses is read as such, so that a list in
parentheses is one argument. -/
def arguments : Nat → Step (List Value)
  | 0 => .unfinished
  | depth + 1 => do
    if (← peek ts) = some (.mark .openParen) then
      let p ← parenthesized depth
      return p.arguments
    else
      let v ← unary depth
      return argumentsOf v

/-- An operand with the minus signs before it. -/
def unary : Nat → Step Value
  | 0 => .unfinished
  | depth + 1 => do
    let place ← remaining ts
    if ← eat ts .minus then
      let v ← unary depth
      .eval (Fault.locate place v.negate)
    else
      primary depth

/-- An operand. -/
def primary : Nat → Step Value
  | 0 => .unfinished
  | depth + 1 => do
    let place ← remaining ts
    match ← next ts with
    | none => throw ⟨0, .endReached .value⟩
    | some (.string s) =>
      let more ← strings ts depth
      return .str (s ++ more)
    | some (.integer n) => return .int n
    | some (.name x) => .eval (Expr.lookup scope place x)
    | some (.mark m) =>
      match m with
      | .openBrace => dict depth
      | .openBracket =>
        let vs ← sequence .closeBracket .commaOrBracket depth
        return .list vs
      | .openParen =>
        modify (· - 1)
        let p ← parenthesized depth
        return p.value
      | _ => throw ⟨place, .expected .value⟩

/-- A group or a tuple, from its opening parenthesis on. Both callers have seen this parenthesis, so
the fault of its absence is none of a file. -/
def parenthesized : Nat → Step Paren
  | 0 => .unfinished
  | depth + 1 => do
    expect ts .openParen .value
    if ← eat ts .closeParen then
      return .tuple []
    else
      let v ← expr depth
      if ← eat ts .closeParen then
        return .group v
      else
        expect ts .comma .commaOrParen
        let vs ← sequence .closeParen .commaOrParen depth
        return .tuple (v :: vs)

/-- Items up to and including the mark `close`. -/
def sequence (close : Mark) (what : Expectation) : Nat → Step (List Value)
  | 0 => .unfinished
  | depth + 1 => do
    if ← eat ts close then
      return []
    else
      let v ← expr depth
      if ← eat ts .comma then
        let vs ← sequence close what depth
        return v :: vs
      else
        expect ts close what
        return [v]

/-- A dict, behind its opening brace. -/
def dict : Nat → Step Value
  | 0 => .unfinished
  | depth + 1 => do
    let kvs ← entries depth
    return .dict (Entries.ofList kvs)

/-- The entries of a dict up to and including its closing brace. -/
def entries : Nat → Step (List (String × Value))
  | 0 => .unfinished
  | depth + 1 => do
    if ← eat ts .closeBrace then
      return []
    else
      let place ← remaining ts
      let k ← expr depth
      let s ← .eval (Expr.key place k)
      expect ts .colon .colonAfterKey
      let v ← expr depth
      if ← eat ts .comma then
        let kvs ← entries depth
        return (s, v) :: kvs
      else
        expect ts .closeBrace .commaOrBrace
        return [(s, v)]

end

end

/-! ## Files -/

/-- The bindings of a file, behind those in the scope. -/
def file (ts : List Token) : Nat → Bindings → Step Bindings
  | 0, _ => .unfinished
  | depth + 1, scope => do
    let place ← remaining ts
    match ← next ts with
    | none => return scope
    | some (.name x) =>
      expect ts .equals .equalsAfterName
      let v ← expr ts scope depth
      file ts depth (scope.insert x v)
    | some _ => throw ⟨place, .nameExpected⟩

/-- The lexemes of a source, one after the other up to the first fault. -/
def lexemes : Nat → List Char → Option (List Lexeme × Option Cause)
  | 0, _ => none
  | _ + 1, [] => some ([], none)
  | depth + 1, c :: cs =>
    match Lexeme.next c cs with
    | .error cause => some ([], some cause)
    | .ok (l, rest) => (lexemes depth rest).map fun later => (l :: later.1, later.2)

/-- The tokens of a source, or its first fault. -/
def tokensOf (depth : Nat) (source : List Char) : Option (Except SyntaxError (List Located)) := do
  match ← lexemes depth source with
  | (ls, none) => return .ok (locate 0 ls)
  | (ls, some cause) => return .error ⟨Position.ofOffset source (extent ls), cause⟩

/-- The names that a source binds, or why and where it is refused. -/
def parse (depth : Nat) (source : String) : Option (Except SyntaxError Bindings) := do
  match ← tokensOf depth source.toList with
  | .error e => return .error e
  | .ok ts =>
    match ← file (ts.map Located.token) depth ∅ 0 with
    | .ok (b, _) => return .ok b
    | .error f => return .error ⟨Position.ofOffset source.toList (f.offset ts), f.cause⟩

end Cursor

/-! ## Outcomes -/

variable {α β : Type}

/-- However deep its calls may go, a computation has one outcome: no depth gives another one, and
every depth that is large enough gives this one. -/
structure Reaches (f : Nat → Option β) (b : β) : Prop where
  /-- There is no other outcome. -/
  only : ∀ depth, f depth = none ∨ f depth = some b
  /-- Some depth is large enough. -/
  enough : ∃ d, ∀ depth, d ≤ depth → f depth = some b

namespace Reaches

variable {f : Nat → Option β} {x : Nat → Option α} {a : α} {b b' : β}

/-- The outcome is the only one. -/
theorem unique (h : Reaches f b) (h' : Reaches f b') : b = b' := by
  obtain ⟨d, hd⟩ := h.enough
  obtain ⟨d', hd'⟩ := h'.enough
  have same := (hd (max d d') (Nat.le_max_left ..)).symm.trans (hd' _ (Nat.le_max_right ..))
  exact Option.some.inj same

/-- A computation without calls. -/
theorem const (b : β) : Reaches (fun _ => some b) b :=
  ⟨fun _ => .inr rfl, 0, fun _ _ => rfl⟩

/-- A call goes one level deeper. -/
theorem of_call {g : Nat → Option β} (zero : f 0 = none) (succ : ∀ d, f (d + 1) = g d)
    (h : Reaches g b) : Reaches f b := by
  constructor
  · intro depth
    cases depth with
    | zero => exact .inl zero
    | succ d => rw [succ]; exact h.only d
  · obtain ⟨d, hd⟩ := h.enough
    refine ⟨d + 1, fun depth hdepth => ?_⟩
    obtain ⟨depth, rfl⟩ : ∃ k, depth = k + 1 := ⟨depth - 1, by omega⟩
    rw [succ, hd depth (by omega)]

/-- Two computations in a row. -/
theorem bind {f : Nat → α → Option β} (hx : Reaches x a) (hf : Reaches (fun d => f d a) b) :
    Reaches (fun d => (x d).bind (f d)) b := by
  constructor
  · intro depth
    obtain h | h := hx.only depth
    · exact .inl (by rw [h]; rfl)
    · rw [h]
      exact hf.only depth
  · obtain ⟨d, hd⟩ := hx.enough
    obtain ⟨d', hd'⟩ := hf.enough
    refine ⟨max d d', fun depth hdepth => ?_⟩
    rw [hd depth (by omega)]
    exact hd' depth (by omega)

/-- A computation goes on without calls. -/
theorem map (hx : Reaches x a) (g : α → β) : Reaches (fun d => (x d).map g) (g a) := by
  refine ⟨fun depth => ?_, hx.enough.imp fun d hd depth hdepth => by rw [hd depth hdepth]; rfl⟩
  obtain h | h := hx.only depth
  · exact .inl (by rw [h]; rfl)
  · exact .inr (by rw [h]; rfl)

end Reaches

namespace Step

variable {pos pos' : Nat} {a : α} {e : Fault} {r : Except Fault (α × Nat)}
  {s : Except Fault (β × Nat)}

/-- At a position, a step reaches an end: a fault, or a result and the position behind it. -/
abbrev Returns (f : Nat → Step α) (pos : Nat) (r : Except Fault (α × Nat)) : Prop :=
  Reaches (fun d => f d pos) r

/-- Behind a step that succeeds the second one takes its value and its position. -/
theorem bind_of_ok {x : Step α} (h : x pos = some (.ok (a, pos'))) (f : α → Step β) :
    (x >>= f) pos = f a pos' := by
  change (x pos >>= ExceptT.bindCont _ : Option _) = _
  rw [h]
  rfl

/-- Two evaluations in a row are two steps that do not move. -/
theorem eval_bind (x : Except Fault α) (g : α → Except Fault β) :
    eval (x >>= g) = eval x >>= fun a => eval (g a) := by
  cases x <;> rfl

namespace Returns

/-- What a step returns can be written in another way. -/
theorem of_eq {f : Nat → Step α} {r' : Except Fault (α × Nat)} (h : Returns f pos r)
    (same : r = r') : Returns f pos r' :=
  same ▸ h

/-- A step without calls. -/
theorem of_apply {x : Step α} (h : x pos = some r) : Returns (fun _ => x) pos r := by
  simpa only [Returns, h] using Reaches.const r

/-- A call goes one level deeper. -/
theorem of_call {f g : Nat → Step α} (zero : f 0 = .unfinished) (succ : ∀ d, f (d + 1) = g d)
    (h : Returns g pos r) : Returns f pos r :=
  Reaches.of_call (congrFun zero pos) (fun d => congrFun (succ d) pos) h

/-- A second step starts where the first one ends. -/
theorem bind {x : Nat → Step α} {f : Nat → α → Step β} (hx : Returns x pos (.ok (a, pos')))
    (hf : Returns (fun d => f d a) pos' s) : Returns (fun d => x d >>= f d) pos s :=
  Reaches.bind (f := fun d => ExceptT.bindCont fun p : α × Nat => f d p.1 p.2) hx hf

/-- There is no second step behind a fault. -/
theorem bind_error {x : Nat → Step α} (hx : Returns x pos (.error e)) (f : Nat → α → Step β) :
    Returns (fun d => x d >>= f d) pos (.error e) :=
  Reaches.bind (f := fun d => ExceptT.bindCont fun p : α × Nat => f d p.1 p.2) hx (.const _)

/-- A step without calls, and a second one. -/
theorem after {x : Step α} {f : Nat → α → Step β} (hx : x pos = some (.ok (a, pos')))
    (hf : Returns (fun d => f d a) pos' s) : Returns (fun d => x >>= f d) pos s :=
  (of_apply hx).bind hf

/-- A value that is known is passed on. -/
theorem of_eval {x : Except Fault α} {f : Nat → α → Step β}
    (h : Returns (fun d => eval x >>= f d) pos s) (ok : x = .ok a) :
    Returns (fun d => f d a) pos s := by
  subst ok
  exact h

end Returns

end Step

open Step (Returns)

/-! ## Tokens at a position -/

namespace Cursor

variable {ts us rest : List Token} {pos : Nat} {α : Type} {r : Except Fault (α × Nat)}

/-- What is left behind a token, and where. -/
theorem drop_succ {t : Token} (here : ts.drop pos = t :: rest) :
    ts.drop (pos + 1) = rest ∧ ts[pos]? = some t ∧ ts.length - rest.length = pos + 1 ∧
      ts.length - pos = rest.length + 1 := by
  have inside : pos < ts.length := by
    refine Nat.lt_of_not_le fun outside => ?_
    rw [List.drop_eq_nil_of_le outside] at here
    cases here
  have length := congrArg List.length here
  rw [List.length_drop, List.length_cons] at length
  refine ⟨?_, ?_, by omega, length⟩
  · rw [← List.tail_drop, here, List.tail_cons]
  · rw [← List.head?_drop, here, List.head?_cons]

/-- The position in front of an end of the tokens. -/
theorem drop_of_suffix (inside : rest <:+ ts) : ts.drop (ts.length - rest.length) = rest :=
  (List.suffix_iff_eq_drop.1 inside).symm

/-- The tokens from the position on are counted without a move. -/
theorem remaining_apply (pos : Nat) :
    remaining ts pos = some (.ok (ts.length - pos, pos)) := rfl

/-- The next token is looked at without a move. -/
theorem peek_apply (pos : Nat) : peek ts pos = some (.ok (ts[pos]?, pos)) := rfl

/-- The next token is taken, and the position is behind it. -/
theorem next_cons {t : Token} (here : ts.drop pos = t :: rest) :
    next ts pos = some (.ok (some t, pos + 1)) := by
  rw [next, Step.bind_of_ok (peek_apply pos), (drop_succ here).2.1]
  rfl

/-- Behind the last token there is none to be taken. -/
theorem next_nil (here : ts.drop pos = []) : next ts pos = some (.ok (none, pos)) := by
  have none : ts[pos]? = none := by rw [← List.head?_drop, here, List.head?_nil]
  rw [next, Step.bind_of_ok (peek_apply pos), none]
  rfl

/-- A mark that the tokens do not start with is not at their position. -/
theorem getElem?_ne_of_behind? {m : Mark} (here : ts.drop pos = us)
    (other : behind? m us = none) : ts[pos]? ≠ some (.mark m) := by
  intro there
  rw [← List.head?_drop, here] at there
  obtain ⟨rest, rfl⟩ := List.head?_eq_some_iff.1 there
  simp [behind?] at other

/-- The mark that comes next is eaten. -/
theorem returns_eat {m : Mark} {f g : Nat → Step α} (here : ts.drop pos = .mark m :: rest)
    (h : Returns f (pos + 1) r) :
    Returns (fun d => eat ts m >>= fun eaten => if eaten = true then f d else g d) pos r := by
  have eaten : eat ts m pos = some (.ok (true, pos + 1)) := by
    rw [eat, Step.bind_of_ok (peek_apply pos), if_pos (drop_succ here).2.1]
    rfl
  exact .after eaten h

/-- Another token is not. -/
theorem returns_pass {m : Mark} {f g : Nat → Step α} (here : ts.drop pos = us)
    (other : behind? m us = none) (h : Returns g pos r) :
    Returns (fun d => eat ts m >>= fun eaten => if eaten = true then f d else g d) pos r := by
  have passed : eat ts m pos = some (.ok (false, pos)) := by
    rw [eat, Step.bind_of_ok (peek_apply pos), if_neg (getElem?_ne_of_behind? here other)]
    rfl
  exact .after passed h

/-- A mark that is expected and comes next is taken. -/
theorem returns_expect {m : Mark} {what : Expectation} {f : Nat → Step α}
    (here : ts.drop pos = .mark m :: rest) (h : Returns f (pos + 1) r) :
    Returns (fun d => expect ts m what >>= fun _ => f d) pos r := by
  have taken : expect ts m what pos = some (.ok ((), pos + 1)) := by
    rw [expect, Step.bind_of_ok (remaining_apply pos), Step.bind_of_ok (next_cons here)]
    simp only [↓reduceIte]
    rfl
  exact .after taken h

/-- Without it there is a fault. -/
theorem returns_unexpected {m : Mark} {what : Expectation} {f : Nat → Step α}
    (here : ts.drop pos = us) (other : behind? m us = none) :
    Returns (fun d => expect ts m what >>= fun _ => f d) pos (.error (Fault.expected what us)) := by
  have fault : expect ts m what pos = some (.error (Fault.expected what us)) := by
    rw [expect, Step.bind_of_ok (remaining_apply pos)]
    cases us with
    | nil =>
      rw [Step.bind_of_ok (next_nil here)]
      rfl
    | cons t rest =>
      obtain ⟨-, there, -, place⟩ := drop_succ here
      have ne : t ≠ .mark m := fun h => getElem?_ne_of_behind? here other (h ▸ there)
      rw [Step.bind_of_ok (next_cons here), place]
      simp only [ne, ↓reduceIte]
      rfl
  exact (Returns.of_apply fault).bind_error _

end Cursor

end OverlaySync.Deps
