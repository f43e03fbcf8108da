import Mathlib.Data.List.Forall2
import OverlaySync.IgnorePolicy

/-! # An override is a set of segments

The paths that an override leaves out are the longest runs of its characters that are no delimiters.
The set therefore depends neither on which delimiters are written nor on how many of them, the set
of two overrides in a row is the union of theirs, and paths that are strung together with delimiters
are given back.

Main statement: `IgnorePolicy.paths_segments`. -/

namespace OverlaySync

/-! ## Pieces -/

namespace Text

variable {α : Type} [DecidableEq α]

/-- A separator ends the pieces before it and starts those behind it. -/
theorem pieces_append_cons_sep (sep : α) (xs ys : List α) :
    pieces sep (xs ++ sep :: ys) = pieces sep xs ++ pieces sep ys := by
  have whole : xs ++ sep :: ys = joined sep (pieces sep xs ++ pieces sep ys) := by
    rw [joined_append sep (pieces_ne_nil sep xs) (pieces_ne_nil sep ys), joined_pieces,
      joined_pieces]
  rw [whole]
  refine pieces_joined (List.append_ne_nil_of_left_ne_nil (pieces_ne_nil sep xs) _) fun p hp => ?_
  obtain hp | hp := List.mem_append.1 hp
  · exact not_mem_of_mem_pieces hp
  · exact not_mem_of_mem_pieces hp

/-- A piece is a run without separators that has a separator or an end on both sides. -/
theorem mem_pieces_iff {sep : α} {xs p : List α} :
    p ∈ pieces sep xs ↔ sep ∉ p ∧ ∃ front back, xs = front ++ (p ++ back) ∧
      (∀ x ∈ front.getLast?, x = sep) ∧ ∀ x ∈ back.head?, x = sep := by
  constructor
  · intro hp
    refine ⟨not_mem_of_mem_pieces hp, ?_⟩
    obtain ⟨before, after, hpieces⟩ := List.append_of_mem hp
    have whole : xs = joined sep (before ++ p :: after) := by rw [← hpieces, joined_pieces]
    -- What follows the piece is nothing, or a separator and the later pieces.
    obtain ⟨back, hback, ends⟩ : ∃ back, joined sep (p :: after) = p ++ back ∧
        ∀ x ∈ back.head?, x = sep := by
      cases after with
      | nil => exact ⟨[], (List.append_nil p).symm, nofun⟩
      | cons q qs => exact ⟨sep :: joined sep (q :: qs), rfl, by simp⟩
    by_cases first : before = []
    · exact ⟨[], back, by rw [whole, first, List.nil_append, hback, List.nil_append], nofun, ends⟩
    · refine ⟨joined sep before ++ [sep], back, ?_, by simp, ends⟩
      rw [whole, joined_append sep first (List.cons_ne_nil p after), hback, List.append_assoc,
        List.singleton_append]
  · rintro ⟨free, front, back, rfl, starts, ends⟩
    have here : p ∈ pieces sep (p ++ back) := by
      cases back with
      | nil => rw [List.append_nil, pieces_of_not_mem free]; exact List.mem_singleton_self p
      | cons x back =>
        rw [ends x rfl, pieces_append_sep free]
        exact List.mem_cons_self
    obtain rfl | ⟨front, x, rfl⟩ := List.eq_nil_or_concat front
    · exact here
    · rw [List.concat_eq_append] at starts ⊢
      rw [starts x (by simp), List.append_assoc, List.singleton_append, pieces_append_cons_sep]
      exact List.mem_append_right _ here

end Text

/-! ## Sets of paths -/

namespace PathSet

/-- The paths of a list are in its set, and no others. -/
theorem mem_toList_ofList {ps : List String} {p : String} : p ∈ (ofList ps).toList ↔ p ∈ ps := by
  have inserted : ∀ es : List (String × Unit),
      (Entries.find? p ((ps.map fun p => (p, ())).foldl
        (fun es e => Entries.insert e.1 e.2 es) es)).isSome = true ↔
        p ∈ ps ∨ (Entries.find? p es).isSome = true := by
    induction ps with
    | nil => simp
    | cons q ps ih =>
      intro es
      rw [List.map_cons, List.foldl_cons, ih, Entries.find?_insert]
      by_cases hq : p = q
      · simp [hq]
      · simp [hq]
  have found := inserted []
  rw [Entries.find?_nil] at found
  exact Entries.isSome_find?_iff.symm.trans (found.trans (by simp))

/-- Sets with the same paths are the same. -/
theorem ext {s t : PathSet} (same : ∀ p, p ∈ s.toList ↔ p ∈ t.toList) : s = t := by
  refine OrderedMap.ext fun p => ?_
  have hp := same p
  rw [toList, toList, ← OrderedMap.contains_iff_mem_keys, ← OrderedMap.contains_iff_mem_keys,
    OrderedMap.contains, OrderedMap.contains] at hp
  cases hs : s.get? p <;> cases ht : t.get? p <;> simp_all

end PathSet

namespace IgnorePolicy

/-! ## Segments -/

/-- The characters that separate the paths of an override. -/
def IsDelimiter (c : Char) : Prop :=
  c = ':' ∨ c = ';'

instance (c : Char) : Decidable (IsDelimiter c) :=
  inferInstanceAs (Decidable (_ ∨ _))

/-- A segment of an override: a run of characters that are no delimiters, not empty and as long as
it can be. -/
structure IsSegment (override s : List Char) : Prop where
  /-- The run is not empty. -/
  some : s ≠ []
  /-- It holds no delimiter. -/
  free : ∀ c ∈ s, ¬IsDelimiter c
  /-- On both sides it stops at a delimiter or at the end of the override. -/
  whole : ∃ front back, override = front ++ (s ++ back) ∧
    (∀ c ∈ front.getLast?, IsDelimiter c) ∧ ∀ c ∈ back.head?, IsDelimiter c

/-- Two texts are the same up to the choice of delimiters. -/
def SameButDelimiters (v w : List Char) : Prop :=
  List.Forall₂ (fun c d => c = d ∨ IsDelimiter c ∧ IsDelimiter d) v w

instance (v w : List Char) : Decidable (SameButDelimiters v w) :=
  inferInstanceAs (Decidable (List.Forall₂ _ v w))

/-- A text that strings paths together, in their order, with any delimiters before, between and
behind them: a path is followed by a delimiter or by nothing. -/
inductive Strings : List (List Char) → List Char → Prop where
  /-- Nothing is left. -/
  | nil : Strings [] []
  /-- A delimiter. -/
  | delimiter {ps : List (List Char)} {text : List Char} {d : Char} (delimits : IsDelimiter d)
      (later : Strings ps text) : Strings ps (d :: text)
  /-- A path, in front of a delimiter or of the end. -/
  | path {p : List Char} {ps : List (List Char)} {text : List Char} (later : Strings ps text)
      (stops : ∀ c ∈ text.head?, IsDelimiter c) : Strings (p :: ps) (p ++ text)

/-- One delimiter in the place of both. -/
def unified (c : Char) : Char :=
  if c = ':' then ';' else c

/-- A semicolon stands for either delimiter, and for no other character. -/
theorem unified_eq_iff {c : Char} : unified c = ';' ↔ IsDelimiter c := by
  unfold unified IsDelimiter
  split <;> simp_all

/-- Characters that are no delimiters are kept. -/
theorem unified_of_not {c : Char} (other : ¬IsDelimiter c) : unified c = c :=
  if_neg fun h => other (.inl h)

/-- Only the delimiters are changed. -/
theorem map_unified_of_free {s : List Char} (free : ∀ c ∈ s, ¬IsDelimiter c) :
    s.map unified = s :=
  (List.map_congr_left fun c hc => unified_of_not (free c hc)).trans (List.map_id' s)

/-- A text without delimiters comes from itself alone. -/
theorem eq_of_map_unified {s t : List Char} (h : t.map unified = s) (free : ';' ∉ s) :
    t = s ∧ ∀ c ∈ s, ¬IsDelimiter c := by
  have plain : ∀ c ∈ t, ¬IsDelimiter c := fun c hc delimits =>
    free (h ▸ unified_eq_iff.2 delimits ▸ List.mem_map_of_mem hc)
  rw [map_unified_of_free plain] at h
  exact ⟨h, h ▸ plain⟩

/-- The segments of an override are its longest runs of other characters. -/
theorem mem_segments_iff {cs s : List Char} : s ∈ segments cs ↔ IsSegment cs s := by
  have hsegments : segments cs = (Text.pieces ';' (cs.map unified)).filter fun s => !s.isEmpty :=
    rfl
  rw [hsegments, List.mem_filter, Text.mem_pieces_iff]
  constructor
  -- Where the unified text falls apart, the text itself does, and its parts are unified.
  · rintro ⟨⟨free, front, back, hcs, starts, ends⟩, some⟩
    obtain ⟨front, rest, rfl, rfl, hrest⟩ := List.map_eq_append_iff.1 hcs
    obtain ⟨t, back, rfl, ht, rfl⟩ := List.map_eq_append_iff.1 hrest
    obtain ⟨rfl, free⟩ := eq_of_map_unified ht free
    refine ⟨by simpa using some, free, front, back, rfl, fun c hc => ?_, fun c hc => ?_⟩
    · exact unified_eq_iff.1 (starts _ (by
        rw [List.getLast?_map]; exact Option.mem_map_of_mem _ hc))
    · exact unified_eq_iff.1 (ends _ (by rw [List.head?_map]; exact Option.mem_map_of_mem _ hc))
  · rintro ⟨some, free, front, back, rfl, starts, ends⟩
    refine ⟨⟨fun h => free _ h (.inr rfl), front.map unified, back.map unified, ?_, ?_, ?_⟩,
      by simpa using some⟩
    · rw [List.map_append, List.map_append, map_unified_of_free free]
    · intro c hc
      rw [List.getLast?_map] at hc
      obtain ⟨d, hd, rfl⟩ := Option.map_eq_some_iff.1 hc
      exact unified_eq_iff.2 (starts d hd)
    · intro c hc
      rw [List.head?_map] at hc
      obtain ⟨d, hd, rfl⟩ := Option.map_eq_some_iff.1 hc
      exact unified_eq_iff.2 (ends d hd)

@[simp] theorem segments_nil : segments [] = [] := rfl

/-- A delimiter ends the segments before it and starts those behind it. -/
theorem segments_append_cons {d : Char} (delimits : IsDelimiter d) (cs ds : List Char) :
    segments (cs ++ d :: ds) = segments cs ++ segments ds := by
  have hmap : (cs ++ d :: ds).map unified = cs.map unified ++ ';' :: ds.map unified := by
    rw [List.map_append, List.map_cons, unified_eq_iff.2 delimits]
  change ((Text.pieces ';' ((cs ++ d :: ds).map unified)).filter fun s => !s.isEmpty) = _
  rw [hmap, Text.pieces_append_cons_sep, List.filter_append]
  rfl

/-- A delimiter in front of a text adds no segment. -/
theorem segments_cons {d : Char} (delimits : IsDelimiter d) (cs : List Char) :
    segments (d :: cs) = segments cs :=
  segments_append_cons delimits [] cs

/-- Without delimiters the whole text is a segment, if there is any. -/
theorem segments_of_free {s : List Char} (free : ∀ c ∈ s, ¬IsDelimiter c) :
    segments s = [s].filter fun s => !s.isEmpty := by
  change ((Text.pieces ';' (s.map unified)).filter fun s => !s.isEmpty) = _
  rw [map_unified_of_free free, Text.pieces_of_not_mem fun h => free _ h (.inr rfl)]

/-- The choice of delimiters makes no difference to the segments. -/
theorem SameButDelimiters.segments_eq {v w : List Char} (same : SameButDelimiters v w) :
    segments v = segments w := by
  have hmap : v.map unified = w.map unified := by
    induction same with
    | nil => rfl
    | cons hcd _ ih =>
      obtain rfl | ⟨hc, hd⟩ := hcd
      · rw [List.map_cons, List.map_cons, ih]
      · rw [List.map_cons, List.map_cons, ih, unified_eq_iff.2 hc, unified_eq_iff.2 hd]
  change ((Text.pieces ';' (v.map unified)).filter fun s => !s.isEmpty) = _
  rw [hmap]
  rfl

/-- Paths that are strung together are the segments again, except for empty ones. -/
theorem Strings.segments_eq {ps : List (List Char)} {text : List Char} (strings : Strings ps text)
    (free : ∀ p ∈ ps, ∀ c ∈ p, ¬IsDelimiter c) :
    segments text = ps.filter fun p => !p.isEmpty := by
  induction strings with
  | nil => rfl
  | delimiter delimits later ih => rw [segments_cons delimits, ih free]
  | @path p ps text later stops ih =>
    obtain ⟨hp, hps⟩ := List.forall_mem_cons.1 free
    -- What follows the path has the segments of the later paths, whether it starts with a
    -- delimiter or is nothing.
    have apart : segments (p ++ text) = segments p ++ segments text := by
      cases text with
      | nil => rw [List.append_nil, segments_nil, List.append_nil]
      | cons d text =>
        rw [segments_append_cons (stops d rfl), segments_cons (stops d rfl)]
    rw [apart, segments_of_free hp, ih hps, ← List.filter_append]
    rfl

/-! ## The set of an override -/

/-- An override that is not empty leaves out its segments. -/
theorem paths_of_ne {v : String} (some : v ≠ "") :
    paths (.some v) = PathSet.ofList ((segments v.toList).map String.ofList) := by
  unfold paths
  split
  · next h => cases h
  · next h => exact absurd (Option.some.inj h) some
  · next h =>
    cases h
    rfl

/-- An override that is not empty names the segments of its text, and nothing else. -/
theorem mem_paths_iff {v p : String} (some : v ≠ "") :
    p ∈ (paths (.some v)).toList ↔ p.toList ∈ segments v.toList := by
  rw [paths_of_ne some, PathSet.mem_toList_ofList, List.mem_map]
  constructor
  · rintro ⟨s, hs, rfl⟩
    rwa [String.toList_ofList]
  · intro hp
    exact ⟨_, hp, String.ofList_toList⟩

/-- An override that is not empty leaves out exactly its segments: the longest runs of characters
other than colons and semicolons. So no path that it leaves out is empty or holds a delimiter; which
delimiters are written makes no difference; two overrides with a delimiter between them leave out
what either of them does; and paths without delimiters that are strung together, less the empty
ones, are given back as a set. -/
theorem paths_segments :
    (∀ v p : String, v ≠ "" →
      (p ∈ (paths (some v)).toList ↔ IsSegment v.toList p.toList) ∧
      (p ∈ (paths (some v)).toList → p ≠ "" ∧ ∀ c ∈ p.toList, ¬IsDelimiter c)) ∧
    (∀ v w : String, SameButDelimiters v.toList w.toList → paths (some v) = paths (some w)) ∧
    (∀ (v w : String) (d : Char), v ≠ "" → w ≠ "" → IsDelimiter d → ∀ p,
      p ∈ (paths (some (v ++ d.toString ++ w))).toList ↔
        p ∈ (paths (some v)).toList ∨ p ∈ (paths (some w)).toList) ∧
    ∀ (ps : List String) (text : String), (∀ p ∈ ps, ∀ c ∈ p.toList, ¬IsDelimiter c) →
      Strings ((ps.filter (· ≠ "")).map String.toList) text.toList → text ≠ "" →
        paths (some text) = PathSet.ofList (ps.filter (· ≠ "")) := by
  refine ⟨fun v p hv => ?_, fun v w same => ?_, fun v w d hv hw delimits p => ?_,
    fun ps text free strings some => ?_⟩
  · rw [mem_paths_iff hv, mem_segments_iff]
    refine ⟨Iff.rfl, fun segment => ⟨?_, segment.free⟩⟩
    rintro rfl
    exact segment.some rfl
  · by_cases hv : v = ""
    · subst hv
      have hw : w.toList = [] := List.forall₂_nil_left_iff.1 same
      rw [String.toList_eq_nil_iff.1 hw]
    · have hw : w ≠ "" := by
        rintro rfl
        exact hv (String.toList_eq_nil_iff.1 (List.forall₂_nil_right_iff.1 same))
      rw [paths_of_ne hv, paths_of_ne hw, same.segments_eq]
  · have ne : v ++ d.toString ++ w ≠ "" := by simp
    have hlist : (v ++ d.toString ++ w).toList = v.toList ++ d :: w.toList := by simp
    rw [mem_paths_iff ne, mem_paths_iff hv, mem_paths_iff hw, hlist,
      segments_append_cons delimits, List.mem_append]
  -- The empty paths were never in the text, so its segments are the others.
  · have kept := strings.segments_eq fun s hs => by
      obtain ⟨p, hp, rfl⟩ := List.mem_map.1 hs
      exact free p (List.mem_of_mem_filter hp)
    refine PathSet.ext fun p => ?_
    rw [mem_paths_iff some, PathSet.mem_toList_ofList, kept, List.mem_filter, List.mem_map]
    constructor
    · rintro ⟨⟨q, hq, same⟩, -⟩
      exact String.toList_inj.1 same ▸ hq
    · intro hp
      exact ⟨⟨p, hp, rfl⟩, by simpa using (List.mem_filter.1 hp).2⟩

/-- Two paths with delimiters of both kinds around them. -/
theorem paths_segments_mixed :
    IsSegment ";src/a::build:".toList "build".toList ∧
      paths (some ";src/a::build:") = paths (some ":src/a:;build;") ∧
      "build" ∈ (paths (some ("src/a" ++ ':'.toString ++ "build"))).toList ∧
      paths (some ";src/a::build:") = PathSet.ofList ["src/a", "build"] := by
  obtain ⟨segment, same, union, strung⟩ := paths_segments
  have parts : (["src/a", "", "build"].filter (· ≠ "") |>.map String.toList) =
      [['s', 'r', 'c', '/', 'a'], ['b', 'u', 'i', 'l', 'd']] := by decide +kernel
  have text : ";src/a::build:".toList =
      [';', 's', 'r', 'c', '/', 'a', ':', ':', 'b', 'u', 'i', 'l', 'd', ':'] := by decide +kernel
  have strings : Strings (["src/a", "", "build"].filter (· ≠ "") |>.map String.toList)
      ";src/a::build:".toList := by
    rw [parts, text]
    exact .delimiter (.inr rfl) <| .path (p := ['s', 'r', 'c', '/', 'a']) (.delimiter (.inl rfl) <|
      .delimiter (.inl rfl) <| .path (p := ['b', 'u', 'i', 'l', 'd'])
        (.delimiter (.inl rfl) .nil) (by simp [IsDelimiter])) (by simp [IsDelimiter])
  refine ⟨?_, same _ _ (by decide +kernel), ?_, ?_⟩
  · exact (segment ";src/a::build:" "build" (by decide +kernel)).1.1 (by decide +kernel)
  · exact (union "src/a" "build" ':' (by decide +kernel) (by decide +kernel) (.inl rfl) "build").2
      (.inr (by decide +kernel))
  · exact strung ["src/a", "", "build"] _ (by simp [IsDelimiter]) strings (by decide +kernel)

end IgnorePolicy

end OverlaySync
