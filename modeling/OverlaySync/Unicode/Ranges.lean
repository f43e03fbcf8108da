/-! # Sets of characters as code point ranges

A Unicode property is a set of code points, listed as ranges with both ends included, in ascending
order. `Ranges.covers` searches such a list and stops at the first range beyond the code point.
`Ranges.covers_iff` says that on an ascending list nothing is lost by stopping there. -/

namespace OverlaySync.Unicode

/-- A set of code points: ranges with both ends included, in ascending order. -/
abbrev Ranges := List (Nat × Nat)

namespace Ranges

/-- Whether a code point lies in one of the ranges. The search stops at the first range that starts
beyond the code point. -/
def covers : Ranges → Nat → Bool
  | [], _ => false
  | (first, last) :: rest, n => decide (first ≤ n) && (decide (n ≤ last) || covers rest n)

/-- The ranges stand in ascending order, do not overlap, and start at `least` or later. -/
def isAscendingFrom (least : Nat) : Ranges → Bool
  | [] => true
  | (first, last) :: rest =>
    decide (least ≤ first) && decide (first ≤ last) && isAscendingFrom (last + 1) rest

/-- The ranges stand in ascending order and do not overlap. -/
def isAscending (r : Ranges) : Bool :=
  r.isAscendingFrom 0

/-- In ascending ranges none begins below the bound they ascend from. -/
private theorem le_of_mem {r : Ranges} {least : Nat} (asc : r.isAscendingFrom least = true)
    {a : Nat × Nat} (ha : a ∈ r) : least ≤ a.1 := by
  induction r generalizing least with
  | nil => simp at ha
  | cons b rest ih =>
    simp only [isAscendingFrom, Bool.and_eq_true, decide_eq_true_eq] at asc
    rcases List.mem_cons.1 ha with rfl | ha
    · exact asc.1.1
    · have := ih asc.2 ha
      omega

/-- The ascending search finds exactly the code points of the ranges. -/
theorem covers_iff {r : Ranges} {least : Nat} (asc : r.isAscendingFrom least = true) {n : Nat} :
    r.covers n = true ↔ ∃ a ∈ r, a.1 ≤ n ∧ n ≤ a.2 := by
  induction r generalizing least with
  | nil => simp [covers]
  | cons a rest ih =>
    simp only [isAscendingFrom, Bool.and_eq_true, decide_eq_true_eq] at asc
    simp only [covers, Bool.and_eq_true, Bool.or_eq_true, decide_eq_true_eq, ih asc.2,
      List.mem_cons, exists_eq_or_imp]
    constructor
    · rintro ⟨low, high | later⟩
      · exact .inl ⟨low, high⟩
      · exact .inr later
    · rintro (⟨low, high⟩ | ⟨b, hb, low, high⟩)
      · exact ⟨low, .inl high⟩
      · have after := le_of_mem asc.2 hb
        exact ⟨by omega, .inr ⟨b, hb, low, high⟩⟩

end Ranges

end OverlaySync.Unicode
