/-! # Lines that end in a carriage return and a newline

Some systems end a line with a carriage return and a newline. `withReturns` writes a text for them.
What is read of a text up to the end of a line is then the same, and what is left is the rest of the
text, written in the same way. -/

namespace OverlaySync

/-- The text with a carriage return in front of every newline. -/
def withReturns (cs : List Char) : List Char :=
  cs.flatMap fun c => if c = '\n' then ['\r', '\n'] else [c]

@[simp] theorem withReturns_nil : withReturns [] = [] := rfl

@[simp] theorem withReturns_newline (cs : List Char) :
    withReturns ('\n' :: cs) = '\r' :: '\n' :: withReturns cs := rfl

/-- A character that is no newline is kept. -/
theorem withReturns_cons {c : Char} (h : c ≠ '\n') (cs : List Char) :
    withReturns (c :: cs) = c :: withReturns cs := by
  simp [withReturns, h]

/-- No text starts with a newline when it is written with returns. -/
theorem newline_ne_withReturns (cs ds : List Char) : '\n' :: cs ≠ withReturns ds := by
  cases ds with
  | nil => simp
  | cons d ds =>
    by_cases hd : d = '\n'
    · simp [hd]
    · rw [withReturns_cons hd]
      intro h
      exact hd (List.cons.inj h).1.symm

/-- Texts that are the same with returns are the same. -/
theorem withReturns_inj {cs ds : List Char} (h : withReturns cs = withReturns ds) : cs = ds := by
  induction cs generalizing ds with
  | nil =>
    cases ds with
    | nil => rfl
    | cons d ds => by_cases hd : d = '\n' <;> simp [hd, withReturns_cons] at h
  | cons c cs ih =>
    cases ds with
    | nil => by_cases hc : c = '\n' <;> simp [hc, withReturns_cons] at h
    | cons d ds =>
      by_cases hc : c = '\n' <;> by_cases hd : d = '\n'
      · subst hc hd
        simp only [withReturns_newline, List.cons.injEq, true_and] at h
        rw [ih h]
      · rw [hc, withReturns_newline, withReturns_cons hd] at h
        exact absurd (List.cons.inj h).2 (newline_ne_withReturns _ ds)
      · rw [hd, withReturns_newline, withReturns_cons hc] at h
        exact absurd (List.cons.inj h).2.symm (newline_ne_withReturns _ cs)
      · rw [withReturns_cons hc, withReturns_cons hd] at h
        obtain ⟨rfl, same⟩ := List.cons.inj h
        rw [ih same]

/-- A run of characters that no end of a line continues is the same, and the rest behind it is
written with returns. -/
theorem takeWhile_withReturns {p : Char → Bool} (newline : p '\n' = false)
    (carriage : p '\r' = false) (cs : List Char) :
    (withReturns cs).takeWhile p = cs.takeWhile p ∧
      (withReturns cs).dropWhile p = withReturns (cs.dropWhile p) := by
  induction cs with
  | nil => exact ⟨rfl, rfl⟩
  | cons c cs ih =>
    by_cases hc : c = '\n'
    · subst hc
      simp [newline, carriage]
    · rw [withReturns_cons hc]
      cases hp : p c with
      | true => simp [hp, ih]
      | false => simp [hp, withReturns_cons hc]

/-- A line is the same up to its end, where a return may come first. -/
theorem takeWhile_line_withReturns (cs : List Char) :
    (cs.dropWhile (· ≠ '\n') = [] ∧ withReturns cs = cs) ∨
      ∃ rest, cs.dropWhile (· ≠ '\n') = '\n' :: rest ∧
        (withReturns cs).takeWhile (· ≠ '\n') = cs.takeWhile (· ≠ '\n') ++ ['\r'] ∧
        (withReturns cs).dropWhile (· ≠ '\n') = '\n' :: withReturns rest := by
  induction cs with
  | nil => exact .inl ⟨rfl, rfl⟩
  | cons c cs ih =>
    by_cases hc : c = '\n'
    · subst hc
      exact .inr ⟨cs, by simp, by simp, by simp⟩
    · rw [withReturns_cons hc, List.dropWhile_cons_of_pos (by simpa using hc)]
      obtain ⟨stops, same⟩ | ⟨rest, stops, line, behind⟩ := ih
      · exact .inl ⟨stops, by rw [same]⟩
      · refine .inr ⟨rest, stops, ?_, ?_⟩
        · rw [List.takeWhile_cons_of_pos (by simpa using hc),
            List.takeWhile_cons_of_pos (by simpa using hc), line, List.cons_append]
        · rw [List.dropWhile_cons_of_pos (by simpa using hc), behind]

end OverlaySync
