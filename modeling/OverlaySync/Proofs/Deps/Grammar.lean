import OverlaySync.Deps.Expr

/-! # The grammar of deps files

What it means for tokens to be a deps file, independently of how they are read:

    file    := (NAME '=' expr)*
    expr    := term ('+' term)*
    term    := unary ('%' (tuple | unary))*
    unary   := '-' unary | primary
    primary := STRING+ | INTEGER | NAME | dict | list | '(' expr ')' | tuple

Items of lists and tuples and entries of dicts are separated by commas, and a comma may follow the
last one. A tuple is `()` or has a comma behind its first item. Every relation of this module joins
tokens to the `Phrase` that they derive; `+` and `%` group to the left. A phrase knows nothing of
places and is never broken, and `Expr.phrase?` forgets the places of an expression that was read to
its end. -/

namespace OverlaySync.Deps

/-- The syntax tree of an expression, without places. -/
inductive Phrase where
  /-- Quoted texts next to each other, put together. -/
  | text (s : String)
  /-- An integer literal. -/
  | integer (n : Int64)
  /-- A reference to a name. -/
  | name (x : String)
  /-- A list. -/
  | list (items : List Phrase)
  /-- A tuple. -/
  | tuple (items : List Phrase)
  /-- An expression in parentheses. -/
  | group (p : Phrase)
  /-- A dict: keys and values. -/
  | dict (entries : List (Phrase × Phrase))
  /-- A negation. -/
  | negation (p : Phrase)
  /-- The formatting of the left operand with the right one. -/
  | format (left right : Phrase)
  /-- A sum. -/
  | sum (left right : Phrase)

/-! ## Derivations -/

mutual

/-- `expr := term ('+' term)*` -/
inductive IsExpr : List Token → Phrase → Prop where
  /-- A term, and what is added to it. -/
  | intro {ts us : List Token} {l p : Phrase} (head : IsTerm ts l) (tail : IsAddends l us p) :
      IsExpr (ts ++ us) p

/-- `('+' term)*`, behind the phrase `l` to which the terms are added from left to right. -/
inductive IsAddends : Phrase → List Token → Phrase → Prop where
  /-- Nothing is added. -/
  | nil {l : Phrase} : IsAddends l [] l
  /-- A term is added, and others to the sum. -/
  | cons {ts us : List Token} {l r p : Phrase} (head : IsTerm ts r)
      (tail : IsAddends (.sum l r) us p) : IsAddends l (.mark .plus :: (ts ++ us)) p

/-- `term := unary ('%' (tuple | unary))*` -/
inductive IsTerm : List Token → Phrase → Prop where
  /-- A unary expression, and what it is formatted with. -/
  | intro {ts us : List Token} {l p : Phrase} (head : IsUnary ts l) (tail : IsFormats l us p) :
      IsTerm (ts ++ us) p

/-- `('%' (tuple | unary))*`, behind the phrase `l` that is formatted from left to right. -/
inductive IsFormats : Phrase → List Token → Phrase → Prop where
  /-- Nothing is formatted. -/
  | nil {l : Phrase} : IsFormats l [] l
  /-- A tuple supplies the arguments. -/
  | tuple {ts us : List Token} {l r p : Phrase} (head : IsTuple ts r)
      (tail : IsFormats (.format l r) us p) : IsFormats l (.mark .percent :: (ts ++ us)) p
  /-- A unary expression supplies the arguments. -/
  | unary {ts us : List Token} {l r p : Phrase} (head : IsUnary ts r)
      (tail : IsFormats (.format l r) us p) : IsFormats l (.mark .percent :: (ts ++ us)) p

/-- `unary := '-' unary | primary` -/
inductive IsUnary : List Token → Phrase → Prop where
  /-- A minus sign and an operand. -/
  | negation {ts : List Token} {p : Phrase} (operand : IsUnary ts p) :
      IsUnary (.mark .minus :: ts) (.negation p)
  /-- No minus sign. -/
  | primary {ts : List Token} {p : Phrase} (operand : IsPrimary ts p) : IsUnary ts p

/-- `primary := STRING+ | INTEGER | NAME | dict | list | '(' expr ')' | tuple` -/
inductive IsPrimary : List Token → Phrase → Prop where
  /-- Adjacent quoted texts are one text. -/
  | text (s : String) (ss : List String) :
      IsPrimary (.string s :: ss.map .string) (.text (String.join (s :: ss)))
  /-- An integer literal. -/
  | integer (n : Int64) : IsPrimary [.integer n] (.integer n)
  /-- A name. -/
  | name (x : String) : IsPrimary [.name x] (.name x)
  /-- Items in brackets. -/
  | list {ts : List Token} {ps : List Phrase} (items : IsItems ts ps) :
      IsPrimary (.mark .openBracket :: (ts ++ [.mark .closeBracket])) (.list ps)
  /-- Entries in braces. -/
  | dict {ts : List Token} {es : List (Phrase × Phrase)} (entries : IsEntries ts es) :
      IsPrimary (.mark .openBrace :: (ts ++ [.mark .closeBrace])) (.dict es)
  /-- An expression in parentheses. -/
  | group {ts : List Token} {p : Phrase} (inner : IsExpr ts p) :
      IsPrimary (.mark .openParen :: (ts ++ [.mark .closeParen])) (.group p)
  /-- A tuple. -/
  | tuple {ts : List Token} {p : Phrase} (inner : IsTuple ts p) : IsPrimary ts p

/-- A tuple: `()`, or an item, a comma and more items. -/
inductive IsTuple : List Token → Phrase → Prop where
  /-- The tuple without items. -/
  | empty : IsTuple [.mark .openParen, .mark .closeParen] (.tuple [])
  /-- A comma behind the first item tells a tuple from a group. -/
  | items {ts us : List Token} {p : Phrase} {ps : List Phrase} (head : IsExpr ts p)
      (tail : IsItems us ps) :
      IsTuple (.mark .openParen :: (ts ++ .mark .comma :: (us ++ [.mark .closeParen])))
        (.tuple (p :: ps))

/-- Items with commas between them, and perhaps one behind the last. -/
inductive IsItems : List Token → List Phrase → Prop where
  /-- No items. -/
  | nil : IsItems [] []
  /-- The last item, without a comma behind it. -/
  | last {ts : List Token} {p : Phrase} (item : IsExpr ts p) : IsItems ts [p]
  /-- An item, a comma, and what follows. -/
  | cons {ts us : List Token} {p : Phrase} {ps : List Phrase} (head : IsExpr ts p)
      (tail : IsItems us ps) : IsItems (ts ++ .mark .comma :: us) (p :: ps)

/-- Entries `key : value` with commas between them, and perhaps one behind the last. -/
inductive IsEntries : List Token → List (Phrase × Phrase) → Prop where
  /-- No entries. -/
  | nil : IsEntries [] []
  /-- The last entry, without a comma behind it. -/
  | last {ts us : List Token} {k p : Phrase} (key : IsExpr ts k) (value : IsExpr us p) :
      IsEntries (ts ++ .mark .colon :: us) [(k, p)]
  /-- An entry, a comma, and what follows. -/
  | cons {ts us vs : List Token} {k p : Phrase} {es : List (Phrase × Phrase)} (key : IsExpr ts k)
      (value : IsExpr us p) (tail : IsEntries vs es) :
      IsEntries (ts ++ .mark .colon :: (us ++ .mark .comma :: vs)) ((k, p) :: es)

end

/-- `file := (NAME '=' expr)*` -/
inductive IsFile : List Token → List (String × Phrase) → Prop where
  /-- No bindings. -/
  | nil : IsFile [] []
  /-- A binding, and those behind it. -/
  | cons {ts us : List Token} {p : Phrase} {bs : List (String × Phrase)} (x : String)
      (value : IsExpr ts p) (tail : IsFile us bs) :
      IsFile (.name x :: .mark .equals :: (ts ++ us)) ((x, p) :: bs)

/-- A term to which nothing is added is an expression. -/
theorem IsTerm.isExpr {ts : List Token} {p : Phrase} (h : IsTerm ts p) : IsExpr ts p := by
  simpa using IsExpr.intro h .nil

/-- A unary expression with which nothing is done is an expression. -/
theorem IsUnary.isExpr {ts : List Token} {p : Phrase} (h : IsUnary ts p) : IsExpr ts p := by
  simpa using (IsTerm.intro h .nil).isExpr

/-! ## Phrases of expressions -/

namespace Expr

mutual

/-- The phrase of an expression; none if the expression breaks off somewhere. -/
def phrase? : Expr → Option Phrase
  | .string s => some (.text s)
  | .integer n => some (.integer n)
  | .name _ x => some (.name x)
  | .list items => (phraseItems? items).map .list
  | .tuple items => (phraseItems? items).map .tuple
  | .group e => e.phrase?.map .group
  | .dict entries => (phraseEntries? entries).map .dict
  | .negation _ e => e.phrase?.map .negation
  | .format _ left right => do return .format (← left.phrase?) (← right.phrase?)
  | .sum _ left right => do return .sum (← left.phrase?) (← right.phrase?)
  | .broken _ => none

/-- The phrases of items. -/
def phraseItems? : List Expr → Option (List Phrase)
  | [] => some []
  | e :: es => do return (← e.phrase?) :: (← phraseItems? es)

/-- The phrases of the entries of a dict. -/
def phraseEntries? : List (Nat × Expr × Expr) → Option (List (Phrase × Phrase))
  | [] => some []
  | (_, k, e) :: es => do return ((← k.phrase?), (← e.phrase?)) :: (← phraseEntries? es)

end

end Expr

/-- The phrases that names are bound to; none if one of the expressions breaks off. -/
def phraseBindings? : List (String × Expr) → Option (List (String × Phrase))
  | [] => some []
  | (x, e) :: bs => do return (x, ← e.phrase?) :: (← phraseBindings? bs)

end OverlaySync.Deps
