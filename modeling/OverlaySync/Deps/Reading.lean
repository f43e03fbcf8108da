import OverlaySync.Deps.Expr

/-! # Reading expressions

The grammar of the deps language, read from left to right with one token of foresight:

    sum       := formatted ('+' formatted)*
    formatted := unary ('%' unary)*
    unary     := '-' unary | operand
    operand   := STRING+ | INTEGER | NAME | '[' items ']' | '{' entries '}'
                 | '(' sum ')' | '(' tuple ')'

Items and entries are separated by commas, and a comma may follow the last one; `()` and `(e,)` are
tuples. Every reader says how many tokens it needs at least: what it leaves is shorter than what it
found, so reading ends on every input. -/

namespace OverlaySync.Deps

/-- The outcome of reading something from fewer than `n + 1` tokens: either it was read, and the
rest is shorter than `n`, or the text broke off, and the outcome holds what was read until then. -/
inductive Reading (n : Nat) (α : Type) where
  /-- It was read up to `rest`. -/
  | complete (value : α) (rest : List Token) (shorter : rest.length < n)
  /-- The tokens stopped making sense; the fault is part of `value`. -/
  | broken (value : α)

namespace Reading

variable {n m : Nat} {α β : Type}

/-- Go on reading behind what was read; `wrap` says what a break in the first part makes of the
whole. -/
def andThen (r : Reading n α) (wrap : α → β)
    (next : (value : α) → (rest : List Token) → rest.length < n → Reading m β) : Reading m β :=
  match r with
  | complete value rest shorter => next value rest shorter
  | broken value => broken (wrap value)

/-- Apply a function to what was read. -/
def map (f : α → β) : Reading n α → Reading n β
  | complete value rest shorter => complete (f value) rest shorter
  | broken value => broken (f value)

/-- What is shorter than `n` is shorter than anything larger. -/
def weaken (h : n ≤ m) : Reading n α → Reading m α
  | complete value rest shorter => complete value rest (Nat.lt_of_lt_of_le shorter h)
  | broken value => broken value

end Reading

/-- The fault of not finding what the grammar requires at the head of some tokens. -/
def Fault.expected (what : Expectation) (ts : List Token) : Fault :=
  ⟨ts.length, if ts.isEmpty then .endReached what else .expected what⟩

/-- The tokens behind a mark, if they start with it. -/
def behind? (m : Mark) : (ts : List Token) → Option { rest : List Token // rest.length < ts.length }
  | .mark m' :: rest => if m' = m then some ⟨rest, Nat.lt_succ_self _⟩ else none
  | _ => none

/-- The quoted texts at the head of some tokens, put together, and the tokens behind them. -/
def adjacentStrings : List Token → String × List Token
  | .string s :: ts =>
    let more := adjacentStrings ts
    (s ++ more.1, more.2)
  | ts => ("", ts)

/-- Collecting the strings that stand side by side leaves no more tokens than there were. -/
theorem length_adjacentStrings_le (ts : List Token) :
    (adjacentStrings ts).2.length ≤ ts.length := by
  fun_induction adjacentStrings ts with
  | case1 _ _ _ ih => exact Nat.le_succ_of_le ih
  | case2 => exact Nat.le_refl _

namespace Expr

mutual

/-- Read a sum. -/
def read (ts : List Token) : Reading ts.length Expr :=
  (readFormatted ts).andThen id fun e rest h =>
    (readAddends e rest).weaken h
  termination_by (ts.length, 5)

/-- Read what is added to `left`. -/
def readAddends (left : Expr) (ts : List Token) : Reading (ts.length + 1) Expr :=
  match behind? .plus ts with
  | none => .complete left ts (Nat.lt_succ_self _)
  | some ⟨operand, h⟩ =>
    (readFormatted operand).andThen (.sum ts.length left) fun e rest h' =>
      (readAddends (.sum ts.length left e) rest).weaken (by omega)
  termination_by (ts.length, 4)

/-- Read an operand of a sum. -/
def readFormatted (ts : List Token) : Reading ts.length Expr :=
  (readUnary ts).andThen id fun e rest h =>
    (readFormats e rest).weaken h
  termination_by (ts.length, 3)

/-- Read what `left` is formatted with. -/
def readFormats (left : Expr) (ts : List Token) : Reading (ts.length + 1) Expr :=
  match behind? .percent ts with
  | none => .complete left ts (Nat.lt_succ_self _)
  | some ⟨operand, h⟩ =>
    (readUnary operand).andThen (.format ts.length left) fun e rest h' =>
      (readFormats (.format ts.length left e) rest).weaken (by omega)
  termination_by (ts.length, 2)

/-- Read an operand with the minus signs before it. -/
def readUnary (ts : List Token) : Reading ts.length Expr :=
  match behind? .minus ts with
  | none => readOperand ts
  | some ⟨operand, h⟩ => ((readUnary operand).weaken (Nat.le_of_lt h)).map (.negation ts.length)
  termination_by (ts.length, 1)

/-- Read an operand. -/
def readOperand (ts : List Token) : Reading ts.length Expr :=
  match ts with
  | .string s :: rest =>
    let more := adjacentStrings rest
    .complete (.string (s ++ more.1)) more.2
      (Nat.lt_succ_of_le (length_adjacentStrings_le rest))
  | .integer n :: rest => .complete (.integer n) rest (Nat.lt_succ_self _)
  | .name x :: rest => .complete (.name (rest.length + 1) x) rest (Nat.lt_succ_self _)
  | .mark .openBracket :: rest =>
    ((readItems .closeBracket .commaOrBracket rest).weaken (Nat.le_succ _)).map .list
  | .mark .openParen :: rest => (readParenthesized rest).weaken (Nat.le_succ _)
  | .mark .openBrace :: rest => ((readEntries rest).weaken (Nat.le_succ _)).map .dict
  | ts => .broken (.broken (Fault.expected .value ts))
  termination_by (ts.length, 0)

/-- Read a group or a tuple behind its opening parenthesis. -/
def readParenthesized (ts : List Token) : Reading ts.length Expr :=
  match behind? .closeParen ts with
  | some ⟨rest, h⟩ => .complete (.tuple []) rest h
  | none =>
    (read ts).andThen .group fun e rest h =>
      match behind? .closeParen rest with
      | some ⟨rest', h'⟩ => .complete (.group e) rest' (by omega)
      | none =>
        match behind? .comma rest with
        | some ⟨rest', h'⟩ =>
          ((readItems .closeParen .commaOrParen rest').weaken (by omega)).map fun es =>
            .tuple (e :: es)
        | none => .broken (.tuple [e, .broken (Fault.expected .commaOrParen rest)])
  termination_by (ts.length, 6)

/-- Read items up to and including the mark `close`. -/
def readItems (close : Mark) (what : Expectation) (ts : List Token) :
    Reading ts.length (List Expr) :=
  match behind? close ts with
  | some ⟨rest, h⟩ => .complete [] rest h
  | none =>
    (read ts).andThen (fun e => [e]) fun e rest h =>
      match behind? .comma rest with
      | some ⟨rest', h'⟩ => ((readItems close what rest').weaken (by omega)).map (e :: ·)
      | none =>
        match behind? close rest with
        | some ⟨rest', h'⟩ => .complete [e] rest' (by omega)
        | none => .broken [e, .broken (Fault.expected what rest)]
  termination_by (ts.length, 6)

/-- Read the entries of a dict up to and including its closing brace. -/
def readEntries (ts : List Token) : Reading ts.length (List (Nat × Expr × Expr)) :=
  match behind? .closeBrace ts with
  | some ⟨rest, h⟩ => .complete [] rest h
  | none =>
    (read ts).andThen (fun k => [(ts.length, k, k)]) fun k rest h =>
      match behind? .colon rest with
      | none => .broken [(ts.length, k, .broken (Fault.expected .colonAfterKey rest))]
      | some ⟨rest₁, h₁⟩ =>
        (read rest₁).andThen (fun e => [(ts.length, k, e)]) fun e rest₂ h₂ =>
          match behind? .comma rest₂ with
          | some ⟨rest₃, h₃⟩ =>
            ((readEntries rest₃).weaken (by omega)).map ((ts.length, k, e) :: ·)
          | none =>
            match behind? .closeBrace rest₂ with
            | some ⟨rest₃, h₃⟩ => .complete [(ts.length, k, e)] rest₃ (by omega)
            | none =>
              let stop := Expr.broken (Fault.expected .commaOrBrace rest₂)
              .broken [(ts.length, k, e), (rest₂.length, stop, stop)]
  termination_by (ts.length, 6)

end

end Expr

end OverlaySync.Deps
