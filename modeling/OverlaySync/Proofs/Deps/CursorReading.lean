import OverlaySync.Proofs.Deps.Cursor
import OverlaySync.Proofs.Deps.Meaning
import OverlaySync.Proofs.Deps.ReadingSound

/-! # The two ways of reading agree

The readers of `Cursor` evaluate while they read, and those of `Expr.read` leave an expression to be
evaluated. At every position, a reader of `Cursor` returns what the reading of the tokens from there
on settles to (`Reading.settle`): the value of what was read and the position of the rest, or the
first fault. So calls that may go deep enough always come to an end.

There is one lemma for each reader, by the well-founded recursion of the readings: on the number of
tokens that are left and on the rank of the reader. Where the two ways differ, it takes more. A sum
or a format is evaluated before the rest of it is read, so a reading that goes on behind a fault
must not hide it (`readAddends_error`, `readFormats_error`, `returns_operator`). What stands in
parentheses is an expression there and a `Paren` here (`Paren.ofExpr`). Items and entries are
evaluated one by one, up to the separator behind each (`returns_separator`). -/

namespace OverlaySync.Deps

open Step (Returns)

/-! ## Readings that are evaluated -/

namespace Reading

variable {n m : Nat} {α β γ δ : Type} {ts : List Token} {ev : α → Except Fault β}

/-- What a reading of some of the tokens `ts` comes to if what was read is evaluated: the value, and
the position behind it. -/
def settle (ts : List Token) (ev : α → Except Fault β) : Reading n α → Except Fault (β × Nat)
  | complete a rest _ => (ev a).map (·, ts.length - rest.length)
  | broken a => (ev a).map (·, ts.length)

/-- A looser bound on the rest makes no difference to what was read. -/
@[simp] theorem settle_weaken (r : Reading n α) (h : n ≤ m) :
    (r.weaken h).settle ts ev = r.settle ts ev := by
  cases r <;> rfl

/-- What is made of a reading is evaluated in place of it. -/
@[simp] theorem settle_map (r : Reading n γ) (f : γ → α) :
    (r.map f).settle ts ev = r.settle ts fun c => ev (f c) := by
  cases r <;> rfl

/-- Two evaluations settle alike if they agree on what was read, however the reading ended. -/
theorem settle_congr {r : Reading n α} {ev' : α → Except Fault β}
    (same : r.Ensures (fun a _ => ev a = ev' a) (fun a => ev a = ev' a)) :
    r.settle ts ev = r.settle ts ev' := by
  cases r with
  | complete a rest _ => exact congrArg (Except.map _) same
  | broken a => exact congrArg (Except.map _) same

/-- What holds of all values is ensured by every reading. -/
theorem Ensures.of_forall {r : Reading n α} {Q : α → Prop} (h : ∀ a, Q a) :
    r.Ensures (fun a _ => Q a) Q := by
  cases r with
  | complete a rest _ => exact h a
  | broken a => exact h a

/-- The fault of the evaluation is that of the reading. -/
theorem settle_error {r : Reading n α} {e : Fault}
    (fails : r.Ensures (fun a _ => ev a = .error e) (fun a => ev a = .error e)) :
    r.settle ts ev = .error e := by
  cases r with
  | complete a rest _ => exact congrArg (Except.map _) fails
  | broken a => exact congrArg (Except.map _) fails

/-- It leaves an end of the tokens, and evaluates to a fault if it broke off. -/
def Ends (ts : List Token) (ev : α → Except Fault β) (r : Reading n α) : Prop :=
  r.Ensures (fun _ rest => rest <:+ ts) fun a => ∃ e, ev a = .error e

/-- Nothing is hidden by what is made of a value: it still ends where it did, or in a fault. -/
theorem Ends.map {r : Reading n α} (h : r.Ends ts ev) {g : α → β → γ} :
    r.Ends ts fun a => (ev a).map (g a) := by
  refine h.imp (fun _ _ inside => inside) ?_
  rintro a ⟨e, fails⟩
  exact ⟨e, congrArg (Except.map (g a)) fails⟩

/-- What was read is used, without a move. -/
theorem returns_eval {x : Nat → Step β} {pos : Nat} {r : Reading n α}
    (hx : Returns x pos (r.settle ts ev)) (g : β → Except Fault γ) :
    Returns (fun d => x d >>= fun b => Step.eval (g b)) pos (r.settle ts fun a => ev a >>= g) := by
  have step (a : α) (pos' : Nat) (hx : Returns x pos ((ev a).map (·, pos'))) :
      Returns (fun d => x d >>= fun b => Step.eval (g b)) pos ((ev a >>= g).map (·, pos')) := by
    cases h : ev a with
    | error e =>
      rw [h] at hx
      exact hx.bind_error _
    | ok b =>
      rw [h] at hx
      exact hx.bind (.of_apply rfl)
  cases r with
  | complete a rest shorter => exact step a _ hx
  | broken a => exact step a _ hx

/-- What was read is used for a value that cannot fail. -/
theorem returns_pure {x : Nat → Step β} {pos : Nat} {r : Reading n α}
    (hx : Returns x pos (r.settle ts ev)) (g : β → γ) :
    Returns (fun d => x d >>= fun b => pure (g b)) pos (r.settle ts fun a => (ev a).map g) := by
  have same : (fun a => (ev a).map g) = fun a => ev a >>= fun b => .ok (g b) := by
    funext a
    cases ev a <;> rfl
  rw [same]
  exact returns_eval hx fun b => .ok (g b)

/-- Two readings in a row. -/
theorem returns_andThen {x : Nat → Step β} {f : Nat → β → Step δ} {pos : Nat} {r : Reading n α}
    {wrap : α → γ} {next : (a : α) → (rest : List Token) → rest.length < n → Reading m γ}
    {ev' : γ → Except Fault δ} (hx : Returns x pos (r.settle ts ev)) (ends : r.Ends ts ev)
    (hnext : ∀ a rest shorter, rest <:+ ts → Returns (fun d => Step.eval (ev a) >>= f d)
      (ts.length - rest.length) ((next a rest shorter).settle ts ev'))
    (hwrap : ∀ a e, ev a = .error e → ev' (wrap a) = .error e) :
    Returns (fun d => x d >>= f d) pos ((r.andThen wrap next).settle ts ev') := by
  cases r with
  | complete a rest shorter =>
    have later := hnext a rest shorter ends
    change Returns x pos ((ev a).map (·, ts.length - rest.length)) at hx
    change Returns _ pos ((next a rest shorter).settle ts ev')
    cases h : ev a with
    | error e =>
      rw [h] at hx later
      rw [later.unique (Returns.bind_error (.of_apply rfl) f)]
      exact hx.bind_error f
    | ok b =>
      rw [h] at hx later
      exact hx.bind (later.of_eval rfl)
  | broken a =>
    obtain ⟨e, h⟩ := ends
    change Returns x pos ((ev a).map (·, ts.length)) at hx
    change Returns _ pos ((ev' (wrap a)).map (·, ts.length))
    rw [h] at hx
    rw [hwrap a e h]
    exact hx.bind_error f

end Reading

namespace Cursor

variable {ts us rest : List Token} {pos : Nat}

/-! ## What the readers leave -/

section

variable {n : Nat} {scope : Bindings}

/-- An expression that broke off has no value. -/
theorem eval_ne_ok {e : Expr} (broken : e.phrase? = none) (v : Value) : e.eval scope ≠ .ok v := by
  intro h
  obtain ⟨p, hp, -⟩ := Expr.eval_eq_ok_iff.1 h
  cases broken.symm.trans hp

/-- A sound reader leaves an end of the tokens, or an expression without a value. -/
theorem ends_of_readAs {G : List Token → Phrase → Prop} {us : List Token} {read : Reading n Expr}
    (inside : us <:+ ts) (sound : read.Ensures (Expr.ReadAs G us) (·.phrase? = none)) :
    read.Ends ts (·.eval scope) := by
  refine sound.imp ?_ fun e broken => Outcome.exists_eq_error (eval_ne_ok broken)
  rintro e rest ⟨ws, p, rfl, -⟩
  exact (List.suffix_append ws rest).trans inside

/-- What is added does not hide a fault of what it is added to. -/
theorem readAddends_error {f : Fault} (left : Expr) (us : List Token)
    (fails : left.eval scope = .error f) :
    (Expr.readAddends left us).Ensures (fun e _ => e.eval scope = .error f)
      (·.eval scope = .error f) := by
  rw [Expr.readAddends]
  split
  · exact fails
  · next operand shorter hb =>
    have later (e : Expr) : (Expr.sum us.length left e).eval scope = .error f := by
      rw [Expr.eval, fails]
      rfl
    exact Reading.Ensures.andThen (.of_forall fun _ => trivial)
      (fun e rest _ _ => (readAddends_error _ rest (later e)).weaken _) fun e _ => later e
  termination_by us.length

/-- What a value is formatted with does not hide a fault of that value. -/
theorem readFormats_error {f : Fault} (left : Expr) (us : List Token)
    (fails : left.eval scope = .error f) :
    (Expr.readFormats left us).Ensures (fun e _ => e.eval scope = .error f)
      (·.eval scope = .error f) := by
  rw [Expr.readFormats]
  split
  · exact fails
  · next operand shorter hb =>
    have later (e : Expr) : (Expr.format us.length left e).eval scope = .error f := by
      rw [Expr.eval, fails]
      rfl
    exact Reading.Ensures.andThen (.of_forall fun _ => trivial)
      (fun e rest _ _ => (readFormats_error _ rest (later e)).weaken _) fun e _ => later e
  termination_by us.length

end

/-! ## What stands in parentheses -/

/-- What an expression that was read in parentheses comes to. -/
def Paren.ofExpr (scope : Bindings) : Expr → Except Fault Paren
  | .group e => (e.eval scope).map .group
  | .tuple es => (Expr.evalItems scope es).map .tuple
  | e => (e.eval scope).map .group

/-- Its value is that of the expression. -/
theorem Paren.value_ofExpr (scope : Bindings) (e : Expr) :
    e.eval scope = (ofExpr scope e).map Paren.value := by
  unfold ofExpr
  split
  · next e =>
    rw [Expr.eval]
    cases e.eval scope <;> rfl
  · next es =>
    rw [Expr.eval]
    cases Expr.evalItems scope es <;> rfl
  · cases e.eval scope <;> rfl

/-- What a group or a tuple supplies as arguments. -/
theorem Paren.arguments_ofExpr (scope : Bindings) {e : Expr}
    (bracketed : (∃ e', e = .group e') ∨ ∃ es, e = .tuple es) :
    (e.eval scope).map e.arguments = (ofExpr scope e).map Paren.arguments := by
  obtain ⟨e, rfl⟩ | ⟨es, rfl⟩ := bracketed
  · rw [Expr.eval, ofExpr]
    cases e.eval scope <;> rfl
  · rw [Expr.eval, ofExpr]
    cases Expr.evalItems scope es <;> rfl

/-- Any other expression supplies what its value does. -/
theorem arguments_of_ne_group {e : Expr} (bare : ∀ e', e ≠ .group e') (v : Value) :
    e.arguments v = argumentsOf v := by
  cases v with
  | list vs => exact Expr.arguments_list bare
  | _ => exact Expr.arguments_of_ne_list bare (by rintro _ ⟨⟩)

/-- An expression that does not open with a parenthesis is no group. -/
theorem ne_group_of_readAs {us rest : List Token} {e : Expr} (read : Expr.ReadAs IsUnary us e rest)
    (other : behind? .openParen us = none) : ∀ e', e ≠ .group e' := by
  rintro e' rfl
  obtain ⟨ws, p, rfl, hp, unary⟩ := read
  obtain ⟨q, -, rfl⟩ := Option.map_eq_some_iff.1 hp
  cases unary with
  | primary operand =>
    cases operand with
    | group inner => simp [behind?] at other
    | tuple inner => cases inner

/-- What is read in parentheses is a group or a tuple. -/
theorem bracketed_readParenthesized (us : List Token) :
    (Expr.readParenthesized us).Ensures (fun e _ => (∃ e', e = .group e') ∨ ∃ es, e = .tuple es)
      fun e => (∃ e', e = .group e') ∨ ∃ es, e = .tuple es := by
  rw [Expr.readParenthesized]
  split
  · exact .inr ⟨_, rfl⟩
  · refine Reading.Ensures.andThen (.of_forall fun _ => trivial) (fun e rest shorter _ => ?_)
      fun e _ => .inl ⟨e, rfl⟩
    split
    · exact .inl ⟨e, rfl⟩
    · split
      · exact (Reading.Ensures.of_forall fun _ => trivial).map (fun es _ _ => .inr ⟨e :: es, rfl⟩)
          fun es _ => .inr ⟨e :: es, rfl⟩
      · exact .inr ⟨_, rfl⟩

/-! ## Texts, items and operators -/

/-- Adjacent texts are taken. -/
theorem strings_returns (us : List Token) (inside : us <:+ ts) :
    Returns (strings ts) (ts.length - us.length)
      (.ok ((adjacentStrings us).1, ts.length - (adjacentStrings us).2.length)) := by
  have here := drop_of_suffix inside
  induction us with
  | nil =>
    refine .of_call rfl (fun d => by rw [strings]) (.after (peek_apply _) ?_)
    rw [← List.head?_drop, here]
    exact .of_apply rfl
  | cons t us ih =>
    obtain ⟨here', there, behind, -⟩ := drop_succ here
    have inside' := (List.suffix_cons t us).trans inside
    refine .of_call rfl (fun d => by rw [strings]) (.after (peek_apply _) ?_)
    rw [there]
    cases t with
    | string s =>
      have later := ih inside' (drop_of_suffix inside')
      rw [behind] at later
      exact .after rfl (later.bind (.of_apply rfl))
    | _ => exact .of_apply rfl

/-- Nothing is read behind the mark that closes. -/
theorem returns_closed {α : Type} {m : Mark} {b : α} {g : Nat → Step α}
    {shorter : rest.length < us.length} (here : ts.drop pos = us)
    (closes : behind? m us = some ⟨rest, shorter⟩) :
    Returns (fun d => eat ts m >>= fun eaten => if eaten = true then pure b else g d) pos
      (.ok (b, ts.length - rest.length)) := by
  have there := here.trans (eq_cons_of_behind? closes)
  refine returns_eat there ?_
  rw [(drop_succ there).2.2.1]
  exact .of_apply rfl

/-- Behind an item there is a comma and what follows it, or the mark `close`. -/
theorem returns_separator {m : Nat} {γ β δ : Type} {close : Mark} {what : Expectation}
    {e stop : γ} {item : Except Fault δ} {g : δ → β} {ev : List γ → Except Fault (List β)}
    {f : Nat → Step (List β)} {more : (rest : List Token) → rest.length < us.length →
      Reading m (List γ)} (here : ts.drop pos = us) (fits : us.length ≤ m)
    (none : ev [] = .ok []) (fault : ev [stop] = .error (Fault.expected what us))
    (items : ∀ es, ev (e :: es) = item >>= fun w => (ev es).map (g w :: ·))
    (later : ∀ rest shorter, ts.drop (pos + 1) = rest →
      Returns f (pos + 1) ((more rest shorter).settle ts ev)) :
    Returns (fun d => Step.eval item >>= fun w => eat ts .comma >>= fun eaten =>
        if eaten = true then f d >>= fun vs => pure (g w :: vs)
        else expect ts close what >>= fun _ => pure [g w]) pos
      (Reading.settle ts ev <| match behind? .comma us with
        | some ⟨rest, shorter⟩ => (more rest shorter).map (e :: ·)
        | .none =>
          match behind? close us with
          | some ⟨rest, shorter⟩ => .complete [e] rest (Nat.lt_of_lt_of_le shorter fits)
          | .none => .broken [e, stop]) := by
  cases item with
  | error f =>
    -- The item has a fault, which comes first whatever stands behind it.
    refine (Returns.bind_error (.of_apply rfl) _).of_eq (Reading.settle_error ?_).symm
    split
    · exact (Reading.Ensures.of_forall items).map (fun _ _ h => h) fun _ h => h
    · split
      · exact items []
      · exact items [stop]
  | ok w =>
    replace items (es : List γ) : ev (e :: es) = (ev es).map (g w :: ·) := items es
    refine .after rfl ?_
    split
    · next rest shorter hb =>
      have comma := here.trans (eq_cons_of_behind? hb)
      simp only [Reading.settle_map, items]
      exact returns_eat comma (Reading.returns_pure (later rest shorter (drop_succ comma).1) _)
    · next last =>
      refine returns_pass here last ?_
      split
      · next rest _ hb =>
        have closes := here.trans (eq_cons_of_behind? hb)
        obtain ⟨-, -, behind, -⟩ := drop_succ closes
        refine returns_expect closes ?_
        rw [← behind]
        change Returns _ _ ((ev [e]).map _)
        rw [items, none]
        exact .of_apply rfl
      · next other =>
        -- Neither a comma nor the closing mark: the reading breaks off with a stop, whose fault is
        -- the one that is raised here.
        change Returns _ _ ((ev [e, stop]).map _)
        rw [items, fault]
        exact returns_unexpected here other

/-- Behind a left operand there is an operator, its right operand and what follows them, or nothing
that belongs to it. -/
theorem returns_operator {β : Type} {scope : Bindings} {m : Mark} {left : Expr} {v : Value}
    {node : Expr → Expr} {x : Nat → Step β} {f : Nat → Value → Step Value}
    {ev : Expr → Except Fault β} {op : β → Except Fault Value}
    {operand : (us : List Token) → Reading us.length Expr}
    {more : Expr → (us : List Token) → Reading (us.length + 1) Expr}
    (inside : us <:+ ts) (value : left.eval scope = .ok v)
    (nodes : ∀ e, (node e).eval scope = ev e >>= op)
    (ends : ∀ rest, rest <:+ ts → (operand rest).Ends ts ev)
    (right : ∀ rest, rest.length < us.length → ts.drop (ts.length - us.length + 1) = rest →
      Returns x (ts.length - us.length + 1) ((operand rest).settle ts ev))
    (later : ∀ e rest, rest.length < us.length → rest <:+ ts →
      Returns (fun d => Step.eval ((node e).eval scope) >>= f d) (ts.length - rest.length)
        ((more (node e) rest).settle ts (·.eval scope))) :
    Returns (fun d => eat ts m >>= fun eaten =>
        if eaten = true then x d >>= fun w => Step.eval (op w) >>= f d else pure v)
      (ts.length - us.length)
      (Reading.settle ts (·.eval scope) <| match behind? m us with
        | none => .complete left us (Nat.lt_succ_self _)
        | some ⟨rest, shorter⟩ => (operand rest).andThen node fun e rest' shorter' =>
          (more (node e) rest').weaken (Nat.le_succ_of_le (Nat.lt_trans shorter' shorter))) := by
  have here := drop_of_suffix inside
  split
  · next other =>
    -- Without the operator the left operand is all there is.
    refine returns_pass here other ?_
    change Returns _ _ ((left.eval scope).map _)
    rw [value]
    exact .of_apply rfl
  · next rest shorter hb =>
    have behind := here.trans (eq_cons_of_behind? hb)
    obtain ⟨here', -⟩ := drop_succ behind
    refine returns_eat behind ?_
    refine Reading.returns_andThen (right rest shorter here')
      (ends rest (here' ▸ List.drop_suffix _ ts)) (fun e rest' shorter' inside => ?_)
      fun e fault he => ?_
    · -- What was read so far is the left operand of what follows.
      have later := later e rest' (Nat.lt_trans shorter' shorter) inside
      rw [nodes] at later
      rw [Reading.settle_weaken]
      simpa only [Step.eval_bind, bind_assoc] using later
    · rw [nodes, he]
      rfl

/-! ## The readers return

One lemma for each reader. Those of what follows an operand start behind it, with its value. -/

section

variable (ts : List Token) (scope : Bindings)

mutual

/-- An expression is a term and what is added to it. -/
theorem expr_returns {pos : Nat} (us : List Token) (here : ts.drop pos = us) :
    Returns (expr ts scope) pos ((Expr.read us).settle ts (·.eval scope)) := by
  have inside : us <:+ ts := here ▸ List.drop_suffix pos ts
  rw [Expr.read]
  refine .of_call rfl (fun d => by rw [expr]) ?_
  refine Reading.returns_andThen (term_returns us here)
    (ends_of_readAs inside (Expr.readFormatted_sound us)) (fun e rest shorter inside => ?_)
    (fun e f h => h)
  rw [Reading.settle_weaken]
  exact addends_returns e rest inside
  termination_by (us.length, 5)

/-- Addends start behind a term that has been evaluated: the sum so far is evaluated here before the
next addend is read, and there when all of them have been. -/
theorem addends_returns (left : Expr) (us : List Token) (inside : us <:+ ts) :
    Returns (fun d => Step.eval (left.eval scope) >>= addends ts scope d) (ts.length - us.length)
      ((Expr.readAddends left us).settle ts (·.eval scope)) := by
  cases h : left.eval scope with
  | error f =>
    rw [Reading.settle_error (readAddends_error left us h)]
    exact .bind_error (.of_apply rfl) _
  | ok v =>
    refine .after rfl (.of_call rfl (fun d => by rw [addends]) (.after (remaining_apply _) ?_))
    have sum (e : Expr) : (Expr.sum us.length left e).eval scope =
        e.eval scope >>= fun w => Fault.locate us.length (v.add w) := by
      rw [Expr.eval, h]
      rfl
    rw [Expr.readAddends, Nat.sub_sub_self inside.length_le]
    exact returns_operator inside h sum
      (fun rest inside => ends_of_readAs inside (Expr.readFormatted_sound rest))
      (fun rest _ here => term_returns rest here) fun e rest _ inside =>
      addends_returns _ rest inside
  termination_by (us.length, 4)

/-- A term is a unary expression and what it is formatted with. -/
theorem term_returns {pos : Nat} (us : List Token) (here : ts.drop pos = us) :
    Returns (term ts scope) pos ((Expr.readFormatted us).settle ts (·.eval scope)) := by
  have inside : us <:+ ts := here ▸ List.drop_suffix pos ts
  rw [Expr.readFormatted]
  refine .of_call rfl (fun d => by rw [term]) ?_
  refine Reading.returns_andThen (unary_returns us here)
    (ends_of_readAs inside (Expr.readUnary_sound us)) (fun e rest shorter inside => ?_)
    (fun e f h => h)
  rw [Reading.settle_weaken]
  exact formats_returns e rest inside
  termination_by (us.length, 3)

/-- Formats start behind what is formatted, as addends do behind a term. -/
theorem formats_returns (left : Expr) (us : List Token) (inside : us <:+ ts) :
    Returns (fun d => Step.eval (left.eval scope) >>= formats ts scope d) (ts.length - us.length)
      ((Expr.readFormats left us).settle ts (·.eval scope)) := by
  cases h : left.eval scope with
  | error f =>
    rw [Reading.settle_error (readFormats_error left us h)]
    exact .bind_error (.of_apply rfl) _
  | ok v =>
    refine .after rfl (.of_call rfl (fun d => by rw [formats]) (.after (remaining_apply _) ?_))
    have format (e : Expr) : (Expr.format us.length left e).eval scope =
        (e.eval scope).map e.arguments >>= fun args =>
          Fault.locate us.length (v.formatWith args) := by
      rw [Expr.eval, h]
      cases e.eval scope <;> rfl
    rw [Expr.readFormats, Nat.sub_sub_self inside.length_le]
    exact returns_operator inside h format
      (fun rest inside => (ends_of_readAs inside (Expr.readUnary_sound rest)).map)
      (fun rest _ here => arguments_returns rest here) fun e rest _ inside =>
      formats_returns _ rest inside
  termination_by (us.length, 2)

/-- The operand of a format is looked at before it is read: parentheses keep the difference between
a group and a tuple, which its value would not tell. -/
theorem arguments_returns {pos : Nat} (us : List Token) (here : ts.drop pos = us) :
    Returns (arguments ts scope) pos
      ((Expr.readUnary us).settle ts fun e => (e.eval scope).map e.arguments) := by
  refine .of_call rfl (fun d => by rw [arguments]) (.after (peek_apply _) ?_)
  cases opens : behind? .openParen us with
  | some behind =>
    obtain ⟨rest, shorter⟩ := behind
    obtain rfl := eq_cons_of_behind? opens
    have operand : Expr.readUnary (.mark .openParen :: rest) =
        (Expr.readParenthesized rest).weaken (Nat.le_succ _) := by
      rw [Expr.readUnary]
      simp only [behind?, Expr.readOperand]
      rfl
    -- What is read behind a parenthesis is a group or a tuple, and a `Paren` keeps which.
    have bracketed := bracketed_readParenthesized rest
    simp only [(drop_succ here).2.1, ↓reduceIte]
    rw [operand, Reading.settle_weaken, Reading.settle_congr (bracketed.imp
      (fun e _ he => Paren.arguments_ofExpr scope he) fun e he => Paren.arguments_ofExpr scope he)]
    exact Reading.returns_pure (parenthesized_returns rest here) _
  | none =>
    -- Any other operand supplies what its value does, so `argumentsOf` is enough.
    have same : (Expr.readUnary us).Ensures
        (fun e _ => (e.eval scope).map e.arguments = (e.eval scope).map argumentsOf)
        fun e => (e.eval scope).map e.arguments = (e.eval scope).map argumentsOf := by
      refine (Expr.readUnary_sound us).imp (fun e rest read => ?_) fun e broken => ?_
      · rw [funext (arguments_of_ne_group (ne_group_of_readAs read opens))]
      · obtain ⟨f, fails⟩ := Outcome.exists_eq_error (eval_ne_ok broken)
        rw [fails]
        rfl
    simp only [getElem?_ne_of_behind? here opens, ↓reduceIte]
    rw [Reading.settle_congr same]
    exact Reading.returns_pure (unary_returns us here) _
  termination_by (us.length, 2)

/-- A negation is read up to its operand and then evaluated. -/
theorem unary_returns {pos : Nat} (us : List Token) (here : ts.drop pos = us) :
    Returns (unary ts scope) pos ((Expr.readUnary us).settle ts (·.eval scope)) := by
  refine .of_call rfl (fun d => by rw [unary]) (.after (remaining_apply _) ?_)
  rw [Expr.readUnary]
  split
  · next other => exact returns_pass here other (primary_returns us here)
  · next operand shorter hb =>
    have behind := here.trans (eq_cons_of_behind? hb)
    obtain ⟨here', -, -, place⟩ := drop_succ behind
    have length : us.length = operand.length + 1 := by rw [eq_cons_of_behind? hb]; rfl
    simp only [Reading.settle_map, Reading.settle_weaken, Expr.eval, place, length]
    -- The tokens are counted from the minus sign on, which is where its fault is placed.
    exact returns_eat behind (Reading.returns_eval (unary_returns operand here') _)
  termination_by (us.length, 1)

/-- The first token decides which operand is read. -/
theorem primary_returns {pos : Nat} (us : List Token) (here : ts.drop pos = us) :
    Returns (primary ts scope) pos ((Expr.readOperand us).settle ts (·.eval scope)) := by
  refine .of_call rfl (fun d => by rw [primary]) (.after (remaining_apply _) ?_)
  cases us with
  | nil =>
    refine .after (next_nil here) ?_
    unfold Expr.readOperand
    exact .of_apply rfl
  | cons t rest =>
    obtain ⟨here', -, behind, place⟩ := drop_succ here
    refine .after (next_cons here) ?_
    unfold Expr.readOperand
    rw [place]
    cases t with
    | string s =>
      rw [← behind]
      exact (strings_returns rest (here' ▸ List.drop_suffix _ ts)).bind (.of_apply rfl)
    | integer n =>
      rw [← behind]
      exact .of_apply rfl
    | name x =>
      rw [← behind]
      exact .of_apply rfl
    | mark m =>
      cases m with
      | openBrace =>
        simp only [Reading.settle_map, Reading.settle_weaken]
        exact dict_returns rest here'
      | openBracket =>
        simp only [Reading.settle_map, Reading.settle_weaken]
        exact Reading.returns_pure (sequence_returns _ _ rest here') _
      | openParen =>
        -- The reader takes a step back to the parenthesis, which the next one expects.
        have back : (modify (· - 1) : Step Unit) (pos + 1) = some (.ok ((), pos)) := rfl
        refine .after back ?_
        rw [Reading.settle_weaken, funext (Paren.value_ofExpr scope)]
        exact Reading.returns_pure (parenthesized_returns rest here) _
      | _ => exact .of_apply rfl
  termination_by (us.length, 0)
  decreasing_by all_goals subst_vars; decreasing_tactic

/-- Behind the opening parenthesis a group is told from a tuple by the comma behind its first item.
-/
theorem parenthesized_returns {pos : Nat} (us : List Token)
    (opens : ts.drop pos = .mark .openParen :: us) :
    Returns (parenthesized ts scope) pos
      ((Expr.readParenthesized us).settle ts (Paren.ofExpr scope)) := by
  obtain ⟨here, -⟩ := drop_succ opens
  have inside : us <:+ ts := here ▸ List.drop_suffix _ ts
  refine .of_call rfl (fun d => by rw [parenthesized]) (returns_expect opens ?_)
  rw [Expr.readParenthesized]
  split
  · next hb => exact returns_closed here hb
  · next other =>
    refine returns_pass here other ?_
    refine Reading.returns_andThen (expr_returns us here)
      (ends_of_readAs inside (Expr.read_sound us)) (fun e rest shorter inside => ?_)
      (fun e f he => by rw [Paren.ofExpr, he]; rfl)
    have here := drop_of_suffix inside
    cases he : e.eval scope with
    | error f =>
      -- The first item has the fault, whatever follows it.
      have group : Paren.ofExpr scope (.group e) = .error f := by rw [Paren.ofExpr, he]; rfl
      have tuple (es : List Expr) : Paren.ofExpr scope (.tuple (e :: es)) = .error f := by
        rw [Paren.ofExpr, Expr.evalItems, he]
        rfl
      refine (Returns.bind_error (.of_apply rfl) _).of_eq (Reading.settle_error ?_).symm
      split
      · exact group
      · split
        · exact ((Reading.Ensures.of_forall tuple).weaken _).map (fun _ _ h => h) fun _ h => h
        · exact tuple _
    | ok v =>
      refine .after rfl ?_
      split
      · next hb =>
        -- A closing parenthesis behind the first item makes a group.
        change Returns _ _ ((Paren.ofExpr scope (.group e)).map _)
        rw [Paren.ofExpr, he]
        exact returns_closed here hb
      · next unclosed =>
        refine returns_pass here unclosed ?_
        split
        · next rest' _ hb =>
          -- A comma makes a tuple, of which the first item has been evaluated.
          have comma := here.trans (eq_cons_of_behind? hb)
          have items : (fun es => Paren.ofExpr scope (.tuple (e :: es))) =
              fun es => (Expr.evalItems scope es).map fun vs => .tuple (v :: vs) := by
            funext es
            rw [Paren.ofExpr, Expr.evalItems, he]
            cases Expr.evalItems scope es <;> rfl
          refine returns_expect comma ?_
          rw [Reading.settle_map, Reading.settle_weaken, items]
          exact Reading.returns_pure (sequence_returns _ _ rest' (drop_succ comma).1) _
        · next other =>
          change Returns _ _ ((Paren.ofExpr scope (.tuple [e, _])).map _)
          rw [Paren.ofExpr, Expr.evalItems, he]
          exact returns_unexpected here other
  termination_by (us.length, 6)

/-- Items are evaluated one by one, each before what separates it from the next is looked for. -/
theorem sequence_returns {pos : Nat} (close : Mark) (what : Expectation) (us : List Token)
    (here : ts.drop pos = us) :
    Returns (sequence ts scope close what) pos
      ((Expr.readItems close what us).settle ts (Expr.evalItems scope)) := by
  have inside : us <:+ ts := here ▸ List.drop_suffix pos ts
  refine .of_call rfl (fun d => by rw [sequence]) ?_
  rw [Expr.readItems]
  split
  · next hb => exact returns_closed here hb
  · next other =>
    refine returns_pass here other ?_
    refine Reading.returns_andThen (expr_returns us here)
      (ends_of_readAs inside (Expr.read_sound us)) (fun e rest shorter inside => ?_)
      (fun e f he => by rw [Expr.evalItems, he]; rfl)
    refine returns_separator (drop_of_suffix inside) (Nat.le_of_lt shorter) rfl rfl
      (fun es => by rw [Expr.evalItems]; cases Expr.evalItems scope es <;> rfl)
      fun rest' shorter' here => ?_
    rw [Reading.settle_weaken]
    exact sequence_returns _ _ rest' here
  termination_by (us.length, 6)

/-- A dict is made of its entries, of which the latest for a key counts. -/
theorem dict_returns {pos : Nat} (us : List Token) (here : ts.drop pos = us) :
    Returns (dict ts scope) pos
      ((Expr.readEntries us).settle ts fun es => (Expr.dict es).eval scope) := by
  have entries : (fun es => (Expr.dict es).eval scope) = fun es =>
      (Expr.evalEntries scope es).map fun kvs => .dict (Entries.ofList kvs) := by
    funext es
    rw [Expr.eval]
    cases Expr.evalEntries scope es <;> rfl
  refine .of_call rfl (fun d => by rw [dict]) ?_
  rw [entries]
  exact Reading.returns_pure (entries_returns us here) _
  termination_by (us.length, 7)

/-- Entries are evaluated one by one, the key before the colon and the value before the comma. -/
theorem entries_returns {pos : Nat} (us : List Token) (here : ts.drop pos = us) :
    Returns (entries ts scope) pos
      ((Expr.readEntries us).settle ts (Expr.evalEntries scope)) := by
  have inside : us <:+ ts := here ▸ List.drop_suffix pos ts
  refine .of_call rfl (fun d => by rw [entries]) ?_
  rw [Expr.readEntries]
  split
  · next hb => exact returns_closed here hb
  · next other =>
    have place : ts.length - pos = us.length := by rw [← here, List.length_drop]
    refine returns_pass here other (.after (remaining_apply _) ?_)
    rw [place]
    refine Reading.returns_andThen (expr_returns us here)
      (ends_of_readAs inside (Expr.read_sound us)) (fun k rest shorter inside => ?_)
      (fun k f hk => by rw [Expr.evalEntries, hk]; rfl)
    have here := drop_of_suffix inside
    simp only [← bind_assoc, ← Step.eval_bind]
    cases hk : k.eval scope >>= Expr.key us.length with
    | error f =>
      -- The key has a fault, or is no text: no value behind it is looked at.
      have entries (e : Expr) (es : List (Nat × Expr × Expr)) :
          Expr.evalEntries scope ((us.length, k, e) :: es) = .error f := by
        rw [Expr.evalEntries, ← bind_assoc, hk]
        rfl
      refine (Returns.bind_error (.of_apply rfl) _).of_eq (Reading.settle_error ?_).symm
      split
      · exact entries _ []
      · refine .andThen (.of_forall fun _ => trivial) (fun e rest₂ _ _ => ?_)
          fun e _ => entries e []
        split
        · exact ((Reading.Ensures.of_forall (entries e)).weaken _).map (fun _ _ h => h) fun _ h => h
        · split
          · exact entries e []
          · exact entries e _
    | ok s =>
      -- With a key the entry is evaluated as an item is, from the colon on.
      have entries (e : Expr) (es : List (Nat × Expr × Expr)) :
          Expr.evalEntries scope ((us.length, k, e) :: es) = e.eval scope >>= fun v =>
            (Expr.evalEntries scope es).map ((s, v) :: ·) := by
        rw [Expr.evalEntries, ← bind_assoc, hk]
        rfl
      refine .after rfl ?_
      simp only [bind_assoc]
      split
      · next other =>
        change Returns _ _ ((Expr.evalEntries scope [_]).map _)
        rw [entries]
        exact returns_unexpected here other
      · next rest₁ shorter₁ hb =>
        have colon := here.trans (eq_cons_of_behind? hb)
        obtain ⟨here, -⟩ := drop_succ colon
        have inside : rest₁ <:+ ts := here ▸ List.drop_suffix _ ts
        refine returns_expect colon ?_
        refine Reading.returns_andThen (expr_returns rest₁ here)
          (ends_of_readAs inside (Expr.read_sound rest₁)) (fun e rest₂ shorter₂ inside => ?_)
          (fun e f he => by rw [entries, he]; rfl)
        refine returns_separator (drop_of_suffix inside) (by omega) rfl rfl (entries e)
          fun rest₃ shorter₃ here => ?_
        rw [Reading.settle_weaken]
        exact entries_returns rest₃ here
  termination_by (us.length, 6)

end

end

end Cursor

end OverlaySync.Deps
