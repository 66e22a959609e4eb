import Mathlib.Data.Nat.Notation

/-!
# Paths of URLs

A path is a sequence of segments behind slashes. The segments `.` and `..` are not names: they are
removed before a server sees the path, `..` together with the segment before it, and where such a
segment is the last one, an empty segment stays behind. A path of other segments is left as it is.
-/

namespace DittoClient

namespace Text

/-- The segments `.` and `..`. -/
def DotSegment (s : List Char) : Prop :=
  s = ['.'] ∨ s = ['.', '.']

instance (s : List Char) : Decidable (DotSegment s) :=
  inferInstanceAs (Decidable (_ ∨ _))

/-- The segments that are kept once a segment is met. -/
def keepSegment (out : List (List Char)) (s : List Char) : List (List Char) :=
  if s = ['.'] then out else if s = ['.', '.'] then out.dropLast else out ++ [s]

/-- The segments of a path behind the segments `out`, without dot segments. -/
def removeDots (out : List (List Char)) : List (List Char) → List (List Char)
  | [] => out
  | [s] => if DotSegment s then keepSegment out s ++ [[]] else keepSegment out s
  | s :: segments => removeDots (keepSegment out s) segments

/-- What stands before a query or a fragment. -/
def beforeQuery (target : List Char) : List Char :=
  target.takeWhile fun c => decide (c ≠ '?' ∧ c ≠ '#')

/-- The query and the fragment. -/
def queryOf (target : List Char) : List Char :=
  target.dropWhile fun c => decide (c ≠ '?' ∧ c ≠ '#')

/-- The segments that a target addresses, which begins with a slash. -/
def addressed (target : List Char) : List (List Char) :=
  removeDots [] ((beforeQuery target).splitOn '/').tail

/-- A segment in a path. -/
structure Segment (s : List Char) : Prop where
  slash : '/' ∉ s
  mark : '?' ∉ s
  hash : '#' ∉ s

section Segments

variable {out segments : List (List Char)} {s : List Char}

theorem keepSegment_of_not_dot (h : ¬ DotSegment s) : keepSegment out s = out ++ [s] := by
  rw [keepSegment, if_neg fun heq => h (Or.inl heq), if_neg fun heq => h (Or.inr heq)]

/-- A path without dot segments is left as it is. -/
theorem removeDots_of_not_dot (h : ∀ s ∈ segments, ¬ DotSegment s) :
    removeDots out segments = out ++ segments := by
  induction segments generalizing out with
  | nil => exact (List.append_nil out).symm
  | cons s segments ih =>
      obtain ⟨hs, hsegments⟩ := List.forall_mem_cons.mp h
      cases segments with
      | nil => rw [removeDots, if_neg hs, keepSegment_of_not_dot hs]
      | cons t segments =>
          rw [removeDots, keepSegment_of_not_dot hs, ih hsegments, List.append_assoc]
          · rfl
          · exact List.cons_ne_nil t segments

/-- The text of a path. -/
def pathText (segments : List (List Char)) : List Char :=
  segments.flatMap fun s => '/' :: s

/-- The segments of a path behind a text without a slash. -/
theorem splitOn_append_pathText (hs : '/' ∉ s) (h : ∀ t ∈ segments, '/' ∉ t) :
    (s ++ pathText segments).splitOn '/' = s :: segments := by
  induction segments generalizing s with
  | nil => rw [pathText, List.flatMap_nil, List.append_nil, List.splitOn_eq_singleton hs]
  | cons t segments ih =>
      obtain ⟨ht, hsegments⟩ := List.forall_mem_cons.mp h
      rw [pathText, List.flatMap_cons, ← pathText, List.cons_append,
        List.splitOn_append_cons_self_of_not_mem hs, ih ht hsegments]

/-- A query begins with its mark. -/
def IsQuery (query : List Char) : Prop :=
  ∀ c ∈ query.head?, c = '?'

theorem beforeQuery_append {path query : List Char} (hpath : '?' ∉ path ∧ '#' ∉ path)
    (hquery : IsQuery query) :
    beforeQuery (path ++ query) = path ∧ queryOf (path ++ query) = query := by
  have hall : ∀ c ∈ path, decide (c ≠ '?' ∧ c ≠ '#') = true := fun c hc =>
    decide_eq_true ⟨fun heq => hpath.1 (heq ▸ hc), fun heq => hpath.2 (heq ▸ hc)⟩
  rw [beforeQuery, queryOf, List.takeWhile_append_of_pos hall, List.dropWhile_append_of_pos hall]
  cases query with
  | nil => exact ⟨List.append_nil path, rfl⟩
  | cons c query =>
      obtain rfl := hquery c rfl
      exact ⟨List.append_nil path, rfl⟩

variable {query : List Char} (hsegments : ∀ s ∈ segments, Segment s) (hquery : IsQuery query)
include hsegments hquery

theorem before_pathText : beforeQuery (pathText segments ++ query) = pathText segments ∧
    queryOf (pathText segments ++ query) = query := by
  have hnot : ∀ c, c ≠ '/' → (∀ s ∈ segments, c ∉ s) → c ∉ pathText segments := by
    intro c hc hall hmem
    obtain ⟨s, hs, hcs⟩ := List.mem_flatMap.mp hmem
    rcases List.mem_cons.mp hcs with rfl | hcs
    · exact hc rfl
    · exact hall s hs hcs
  have hpath : '?' ∉ pathText segments ∧ '#' ∉ pathText segments :=
    ⟨hnot '?' (by decide) fun s hs => (hsegments s hs).mark,
      hnot '#' (by decide) fun s hs => (hsegments s hs).hash⟩
  exact beforeQuery_append hpath hquery

/-- The segments before the query. -/
theorem splitOn_beforeQuery :
    ((beforeQuery (pathText segments ++ query)).splitOn '/').tail = segments := by
  have hsplit := splitOn_append_pathText List.not_mem_nil fun s hs => (hsegments s hs).slash
  rw [List.nil_append] at hsplit
  rw [(before_pathText hsegments hquery).1, hsplit, List.tail_cons]

/-- A target of segments that are no dots addresses these segments. -/
theorem addressed_pathText (hdots : ∀ s ∈ segments, ¬ DotSegment s) :
    addressed (pathText segments ++ query) = segments ∧
      queryOf (pathText segments ++ query) = query := by
  rw [addressed, splitOn_beforeQuery hsegments hquery, removeDots_of_not_dot hdots]
  exact ⟨rfl, (before_pathText hsegments hquery).2⟩

end Segments

end Text

end DittoClient
