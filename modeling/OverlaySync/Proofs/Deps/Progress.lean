import OverlaySync.Proofs.Deps.CursorReading
import OverlaySync.Proofs.Deps.Scanning

/-! # Reading makes progress

Every turn of the scanner that does not fail takes at least one character, and every reader of an
expression, a sequence or a dict that succeeds does so behind the place where it started, and not
behind the last token. So reading comes to an end on every source, whatever is wrong with it.

The readers among the tokens are those of `Cursor`, which move a position and may call each other
too deep. `Cursor.expr_returns` and its siblings give the outcome of each of them at every position.
It is that of a `Reading`, whose rest is shorter than what was found.

Main statement: `reading_progresses`. -/

namespace OverlaySync.Deps

open Step (Returns)

/-! ## Readers that make progress -/

/-- A reader that makes progress among the tokens `ts`. -/
structure Progresses {α : Type} (ts : List Token) (f : Nat → Step α) : Prop where
  /-- Wherever it starts, it comes to an end. -/
  returns : ∀ pos, ∃ r, Returns f pos r
  /-- If it succeeds, it is at a later position, and at one of the tokens or right behind them. -/
  advances : ∀ depth pos a pos', f depth pos = some (.ok (a, pos')) → pos < pos' ∧ pos' ≤ ts.length

/-- A reader makes progress if it comes to what a reading settles to, and nothing that broke off has
a value. -/
theorem Progresses.of_settle {α β : Type} {ts : List Token} {f : Nat → Step β}
    {read : (us : List Token) → Reading us.length α} {ev : α → Except Fault β}
    (returns : ∀ pos, Returns f pos ((read (ts.drop pos)).settle ts ev))
    (broken : ∀ us, (read us).Ensures (fun _ _ => True) fun a => ∀ b, ev a ≠ .ok b) :
    Progresses ts f := by
  refine ⟨fun pos => ⟨_, returns pos⟩, fun depth pos b pos' h => ?_⟩
  have settled : (read (ts.drop pos)).settle ts ev = .ok (b, pos') := by
    obtain none | some := (returns pos).only depth
    · cases h.symm.trans none
    · exact Option.some.inj (some.symm.trans h)
  cases outcome : read (ts.drop pos) with
  | complete a rest shorter =>
    rw [outcome] at settled
    obtain ⟨_, -, same⟩ := Outcome.map_eq_ok_iff.1 settled
    obtain rfl := congrArg Prod.snd same
    rw [List.length_drop] at shorter
    exact ⟨by omega, Nat.sub_le ..⟩
  | broken a =>
    rw [outcome] at settled
    obtain ⟨b, value, -⟩ := Outcome.map_eq_ok_iff.1 settled
    have none := broken (ts.drop pos)
    rw [outcome] at none
    exact absurd value (none b)

/-- Read a group or a tuple, from its opening parenthesis on. -/
def Expr.readBracketed (us : List Token) : Reading us.length Expr :=
  (behind? .openParen us).elim (.broken (.broken (Fault.expected .value us))) fun behind =>
    (readParenthesized behind.1).weaken (Nat.le_of_lt behind.2)

namespace Cursor

section

variable (ts : List Token) (scope : Bindings)

/-- A reader of values makes progress if it comes to what a sound reading settles to. -/
theorem progresses_of_readAs {f : Nat → Step Value} {G : List Token → Phrase → Prop}
    {read : (us : List Token) → Reading us.length Expr}
    (returns : ∀ pos, Returns f pos ((read (ts.drop pos)).settle ts (·.eval scope)))
    (sound : ∀ us, (read us).Ensures (Expr.ReadAs G us) (·.phrase? = none)) : Progresses ts f :=
  .of_settle returns fun us => (sound us).imp (fun _ _ _ => trivial) fun _ => eval_ne_ok

/-- An expression is read with progress. -/
theorem expr_progresses : Progresses ts (expr ts scope) :=
  progresses_of_readAs ts scope (fun _ => expr_returns ts scope _ rfl) Expr.read_sound

/-- A term is read with progress. -/
theorem term_progresses : Progresses ts (term ts scope) :=
  progresses_of_readAs ts scope (fun _ => term_returns ts scope _ rfl) Expr.readFormatted_sound

/-- A unary expression is read with progress, however many minus signs it has. -/
theorem unary_progresses : Progresses ts (unary ts scope) :=
  progresses_of_readAs ts scope (fun _ => unary_returns ts scope _ rfl) Expr.readUnary_sound

/-- An operand is read with progress. -/
theorem primary_progresses : Progresses ts (primary ts scope) :=
  progresses_of_readAs ts scope (fun _ => primary_returns ts scope _ rfl) Expr.readOperand_sound

/-- Items up to a closing mark are read with progress: the mark itself is taken if there are none.
-/
theorem sequence_progresses (close : Mark) (what : Expectation) :
    Progresses ts (sequence ts scope close what) := by
  refine .of_settle (fun _ => sequence_returns ts scope close what _ rfl) fun us =>
    (Expr.readItems_sound close what us).imp (fun _ _ _ => trivial) fun es broken vs h => ?_
  obtain ⟨ps, hps, -⟩ := Expr.evalItems_eq_ok_iff.1 h
  cases broken.symm.trans hps

/-- The entries of a dict are read with progress: there is its closing brace. -/
theorem dict_progresses : Progresses ts (dict ts scope) := by
  refine .of_settle (fun _ => dict_returns ts scope _ rfl) fun us =>
    (Expr.readEntries_sound us).imp (fun _ _ _ => trivial) fun es broken => eval_ne_ok ?_
  rw [Expr.phrase?, broken]
  rfl

/-- What stands in parentheses is read with progress. The reader starts at the opening parenthesis,
so a step back to it is made up for. -/
theorem parenthesized_progresses : Progresses ts (parenthesized ts scope) := by
  have returns (pos : Nat) : Returns (parenthesized ts scope) pos
      ((Expr.readBracketed (ts.drop pos)).settle ts (Paren.ofExpr scope)) := by
    unfold Expr.readBracketed
    cases opens : behind? .openParen (ts.drop pos) with
    | none =>
      refine .of_call rfl (fun d => by rw [parenthesized]) ?_
      exact returns_unexpected rfl opens
    | some behind =>
      rw [Option.elim_some, Reading.settle_weaken]
      exact parenthesized_returns ts scope behind.1 (eq_cons_of_behind? opens)
  refine .of_settle returns fun us => ?_
  unfold Expr.readBracketed
  cases behind? .openParen us with
  | none =>
    intro p h
    cases h
  | some behind =>
    refine ((Expr.readParenthesized_sound behind.1).weaken (Nat.le_of_lt behind.2)).imp
      (fun _ _ _ => trivial) fun e broken p h => ?_
    have value : e.eval scope = .ok p.value := by
      rw [Paren.value_ofExpr, h]
      rfl
    exact eval_ne_ok broken _ value

end

end Cursor

/-! ## Reading ends -/

/-- The bindings of a file in a scope, or the first fault. -/
def File.evalIn (scope : Bindings) (f : File) : Except Fault Bindings := do
  let b ← evalBindings scope f.bindings
  match f.fault with
  | none => return b
  | some fault => .error fault

namespace File

/-- A file is evaluated in the empty scope. -/
theorem eval_eq_evalIn (f : File) : f.eval = f.evalIn ∅ := rfl

/-- The first binding of a file is in scope for the others. -/
theorem evalIn_cons (scope : Bindings) (x : String) (e : Expr) (f : File) :
    (f.cons x e).evalIn scope = e.eval scope >>= fun v => f.evalIn (scope.insert x v) := by
  unfold evalIn cons
  rw [evalBindings, bind_assoc]

end File

namespace Cursor

/-- From the beginning of some of the tokens, a file is read as the reader of the whole does. -/
theorem file_returns (ts us : List Token) (inside : us <:+ ts) (scope : Bindings) :
    Returns (fun d => file ts d scope) (ts.length - us.length)
      (((File.read us).evalIn scope).map (·, ts.length)) := by
  have here := drop_of_suffix inside
  refine .of_call rfl (fun d => by rw [file]) (.after (remaining_apply _) ?_)
  cases us with
  | nil =>
    refine .after (next_nil here) ?_
    unfold File.read
    exact .of_apply rfl
  | cons t rest =>
    obtain ⟨here', -, -, place⟩ := drop_succ here
    refine .after (next_cons here) ?_
    unfold File.read
    rw [place]
    cases t with
    | name x =>
      dsimp only
      cases opens : behind? .equals rest with
      | none => exact returns_unexpected here' opens
      | some behind =>
        obtain ⟨rest', shorter⟩ := behind
        have equals := here'.trans (eq_cons_of_behind? opens)
        obtain ⟨here', -⟩ := drop_succ equals
        have value := expr_returns ts scope rest' here'
        have ends : (Expr.read rest').Ends ts (·.eval scope) :=
          ends_of_readAs (here' ▸ List.drop_suffix _ ts) (Expr.read_sound rest')
        refine returns_expect equals ?_
        dsimp only
        cases outcome : Expr.read rest' with
        | complete e later shorter' =>
          rw [outcome] at value ends
          change Returns _ _ ((e.eval scope).map _) at value
          rw [File.evalIn_cons]
          cases he : e.eval scope with
          | error f =>
            rw [he] at value
            exact value.bind_error _
          | ok v =>
            rw [he] at value
            exact value.bind (file_returns ts later ends (scope.insert x v))
        | broken e =>
          rw [outcome] at value ends
          obtain ⟨f, (he : e.eval scope = .error f)⟩ := ends
          change Returns _ _ ((e.eval scope).map _) at value
          change Returns _ _ ((((File.mk [] none).cons x e).evalIn scope).map _)
          rw [File.evalIn_cons, he]
          rw [he] at value
          exact value.bind_error _
    | _ => exact .of_apply rfl
  termination_by us.length

/-- The lexemes are those that the scanner cuts off. -/
theorem lexemes_reaches (cs : List Char) :
    Reaches (fun d => lexemes d cs) (Deps.lexemes cs) := by
  cases cs with
  | nil =>
    refine .of_call rfl (fun d => by rw [lexemes]) ?_
    rw [Deps.lexemes]
    exact .const _
  | cons c cs =>
    refine .of_call rfl (fun d => by rw [lexemes]) ?_
    cases h : Lexeme.next c cs with
    | error cause =>
      rw [lexemes_of_fault h]
      exact .const _
    | ok next =>
      obtain ⟨l, rest⟩ := next
      have shorter : rest.length ≤ cs.length := Nat.le_of_lt_succ (Lexeme.length_rest_lt h)
      rw [lexemes_of_next h]
      exact (lexemes_reaches rest).map _
  termination_by cs.length

/-- A source is cut into its tokens if it may be gone through far enough. -/
theorem tokensOf_reaches (source : List Char) :
    Reaches (fun d => tokensOf d source) (Deps.tokensOf source) := by
  refine (lexemes_reaches source).bind ?_
  unfold Deps.tokensOf
  obtain ⟨ls, none | cause⟩ := Deps.lexemes source
  · exact .const _
  · exact .const _

/-- Every source is read to an end if it may be gone through far enough, and no depth leads to
another outcome. -/
theorem parse_reaches (source : String) :
    Reaches (fun d => parse d source) (Deps.parse source) := by
  refine (tokensOf_reaches source.toList).bind ?_
  unfold Deps.parse
  cases Deps.tokensOf source.toList with
  | error e => exact .const _
  | ok ts =>
    have read := file_returns (ts.map Located.token) _ (List.suffix_refl _) ∅
    rw [Nat.sub_self] at read
    refine Reaches.bind read ?_
    simp only [File.eval_eq_evalIn]
    cases (File.read (ts.map Located.token)).evalIn ∅ with
    | error f => exact .const _
    | ok b => exact .const _

end Cursor

/-- Reading makes progress. What the scanner cuts off holds at least one character, and nothing of
the source is lost. Among the tokens of a file, every reader that succeeds moves forwards from
wherever it starts, the one of operands too, which steps back in front of a parenthesis. So the
tokens of a source and its bindings are found, or its first fault, once calls may go deep enough,
and nothing else ever is. -/
theorem reading_progresses :
    (∀ c cs l rest, Lexeme.next c cs = .ok (l, rest) → l.text ≠ [] ∧ l.text ++ rest = c :: cs) ∧
    (∀ ts scope,
      Progresses ts (Cursor.expr ts scope) ∧ Progresses ts (Cursor.term ts scope) ∧
      Progresses ts (Cursor.unary ts scope) ∧ Progresses ts (Cursor.primary ts scope) ∧
      (∀ close what, Progresses ts (Cursor.sequence ts scope close what)) ∧
      Progresses ts (Cursor.parenthesized ts scope) ∧ Progresses ts (Cursor.dict ts scope)) ∧
    ∀ source : String,
      Reaches (fun d => Cursor.tokensOf d source.toList) (tokensOf source.toList) ∧
      Reaches (fun d => Cursor.parse d source) (parse source) := by
  refine ⟨fun c cs l rest h => ⟨fun empty => ?_, Lexeme.text_append_rest h⟩, fun ts scope => ?_,
    fun source => ⟨Cursor.tokensOf_reaches source.toList, Cursor.parse_reaches source⟩⟩
  · have first := Lexeme.head?_text h
    rw [empty] at first
    cases first
  · exact ⟨Cursor.expr_progresses ts scope, Cursor.term_progresses ts scope,
      Cursor.unary_progresses ts scope, Cursor.primary_progresses ts scope,
      Cursor.sequence_progresses ts scope, Cursor.parenthesized_progresses ts scope,
      Cursor.dict_progresses ts scope⟩

/-- A comment is cut off, and a tuple is read from its first parenthesis on. -/
theorem reading_progresses_comment_and_tuple :
    (Lexeme.next '#' ['a', '\n', 'x'] = .ok (⟨['#', 'a'], none⟩, ['\n', 'x']) ∧
      ['#', 'a'] ≠ [] ∧ ['#', 'a'] ++ ['\n', 'x'] = ['#', 'a', '\n', 'x']) ∧
    Cursor.primary [.mark .minus, .mark .openParen, .string "a", .mark .comma, .mark .closeParen]
      ∅ 9 1 = some (.ok (.list [.str "a"], 5)) ∧ 1 < 5 ∧ 5 ≤ 5 := by
  have comment : Lexeme.next '#' ['a', '\n', 'x'] = .ok (⟨['#', 'a'], none⟩, ['\n', 'x']) := by
    decide +kernel
  have tuple : Cursor.primary
      [.mark .minus, .mark .openParen, .string "a", .mark .comma, .mark .closeParen] ∅ 9 1 =
        some (.ok (.list [.str "a"], 5)) := rfl
  exact ⟨⟨comment, reading_progresses.1 _ _ _ _ comment⟩, tuple,
    (reading_progresses.2.1 _ ∅).2.2.2.1.advances _ _ _ _ tuple⟩

end OverlaySync.Deps
