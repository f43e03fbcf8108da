import OverlaySync.Diff.Reading

/-! # Applying diffs

A diff applies only where its headers say: every hunk has to meet exactly its old lines at its line
numbers, behind the hunk before it. There is no search for another place. A hunk that reaches the
end of the text also has to agree with it about the final newline. -/

namespace OverlaySync.Diff

/-- The first place where expected lines and the lines found there differ, counted from zero. -/
def firstMismatch : List Line → List Line → Option (Nat × Line × Line)
  | e :: es, f :: fs =>
    if e = f then (firstMismatch es fs).map fun (n, x, y) => (n + 1, x, y) else some (0, e, f)
  | _, _ => none

/-- Apply hunks, the first of which is number `index`, to the part `rest` of a text of `total` lines
that starts behind its first `cursor` lines; `terminated` says whether the new text ends in a
newline as far as the hunks before are concerned. -/
def applyHunks (total index cursor : Nat) (rest : List Line) (terminated : Bool) :
    List Hunk → Except Fault (List Line × Bool)
  | [] => .ok (rest, terminated)
  | h :: hs =>
    if h.start < cursor then .error (.overlap index)
    else if total < h.stop then .error (.beyondEnd index h.oldStart h.oldCount total)
    else
      let here := rest.drop (h.start - cursor)
      match firstMismatch h.oldLines (here.take h.oldCount) with
      | some (n, expected, found) => .error (.lineMismatch index (h.start + n + 1) expected found)
      | none =>
        if h.stop = total ∧ 0 < h.oldCount ∧ h.oldUnterminated = terminated then
          .error (.newlineMismatch index)
        else
          let terminated' := if h.stop = total then !h.newUnterminated else terminated
          match applyHunks total (index + 1) h.stop (here.drop h.oldCount) terminated' hs with
          | .error f => .error f
          | .ok (later, final) =>
            .ok (rest.take (h.start - cursor) ++ h.newLines ++ later, final)

/-- Apply hunks to a text. -/
def LineText.patch (t : LineText) (hunks : List Hunk) : Except Fault LineText :=
  (applyHunks t.lines.length 1 0 t.lines t.terminated hunks).map fun (lines, terminated) =>
    ⟨lines, terminated⟩

/-- Apply a diff to a text. -/
def FileDiff.apply (p : FileDiff) (text : String) : Except Fault String :=
  ((LineText.ofChars text.toList).patch p.hunks).map fun t => String.ofList t.toChars

end OverlaySync.Diff
