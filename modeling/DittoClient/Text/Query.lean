import DittoClient.Text.Path
import Mathlib.Data.List.TakeWhile

/-!
# Queries of URLs

A query is a sequence of parameters behind a question mark. Each parameter is a name and a value
with an equals sign between them, and an ampersand stands between two parameters.
-/

namespace DittoClient

namespace Text

/-- A name and a value. -/
abbrev Parameter := List Char × List Char

/-- The text of a query, which is empty without parameters. -/
def queryText : List Parameter → List Char
  | [] => []
  | ps => '?' :: ['&'].intercalate (ps.map fun p => p.1 ++ '=' :: p.2)

/-- What stands in front of the first mark, and what stands behind it. -/
def splitFirst (mark : Char) (cs : List Char) : List Char × List Char :=
  (cs.takeWhile fun c => decide (c ≠ mark), (cs.dropWhile fun c => decide (c ≠ mark)).tail)

/-- The name and the value in a text. A text without an equals sign is a name. -/
def splitParameter (cs : List Char) : Parameter :=
  splitFirst '=' cs

/-- The parameters in a query. -/
def parameters : List Char → List Parameter
  | [] => []
  | _ :: cs => (cs.splitOn '&').map splitParameter

/-- A parameter that is no more than one. -/
structure Parameter.Single (p : Parameter) : Prop where
  equals : '=' ∉ p.1
  name : '&' ∉ p.1
  value : '&' ∉ p.2

theorem isQuery_queryText (ps : List Parameter) : IsQuery (queryText ps) := by
  intro c hc
  cases ps with
  | nil => cases hc
  | cons p ps => exact (Option.some.inj hc).symm

/-- A text is split where two parts were put together if the mark does not stand in the first. -/
theorem splitFirst_append_iff {mark : Char} {l r : List Char} :
    splitFirst mark (l ++ mark :: r) = (l, r) ↔ mark ∉ l := by
  constructor
  · intro hsplit hmem
    have hfirst : (l ++ mark :: r).takeWhile (fun c => decide (c ≠ mark)) = l :=
      congrArg Prod.fst hsplit
    rw [← hfirst] at hmem
    have hne := List.mem_takeWhile_imp (p := fun c => decide (c ≠ mark)) hmem
    exact of_decide_eq_true hne rfl
  · intro hnot
    have hall : ∀ c ∈ l, decide (c ≠ mark) = true :=
      fun c hc => decide_eq_true (ne_of_mem_of_not_mem hc hnot)
    have htake : (l ++ mark :: r).takeWhile (fun c => decide (c ≠ mark)) = l := by
      rw [List.takeWhile_append_of_pos hall]
      simp
    have hdrop : (l ++ mark :: r).dropWhile (fun c => decide (c ≠ mark)) = mark :: r := by
      rw [List.dropWhile_append_of_pos hall]
      simp
    rw [splitFirst, htake, hdrop]
    rfl

theorem splitParameter_append {p : Parameter} (h : '=' ∉ p.1) :
    splitParameter (p.1 ++ '=' :: p.2) = p :=
  splitFirst_append_iff.mpr h

/-- The parameters are read back. -/
theorem parameters_queryText {ps : List Parameter} (h : ∀ p ∈ ps, p.Single) :
    parameters (queryText ps) = ps := by
  cases ps with
  | nil => rfl
  | cons p ps =>
      have hnot : ∀ l ∈ (p :: ps).map (fun p => p.1 ++ '=' :: p.2), '&' ∉ l := by
        intro l hl hmem
        obtain ⟨q, hq, rfl⟩ := List.mem_map.mp hl
        rcases List.mem_append.mp hmem with hmem | hmem
        · exact (h q hq).name hmem
        · rcases List.mem_cons.mp hmem with heq | hmem
          · exact absurd heq (by decide)
          · exact (h q hq).value hmem
      have hsplit := List.splitOn_intercalate '&' hnot (by simp)
      change ((['&'].intercalate ((p :: ps).map fun p => p.1 ++ '=' :: p.2)).splitOn '&').map
        splitParameter = p :: ps
      rw [hsplit, List.map_map]
      calc (p :: ps).map (splitParameter ∘ fun p => p.1 ++ '=' :: p.2)
          = (p :: ps).map id :=
            List.map_congr_left fun q hq => splitParameter_append (h q hq).equals
        _ = p :: ps := List.map_id _

end Text

end DittoClient
