import DittoClient.NodeTcp.Registry
import DittoClient.Wire.Validation

/-!
# The names of watched entries

A callback is stored under the key of the entry, after its namespace and two colons if there is
one. Two entries that differ may have one name: a namespace that ends with a colon runs into the
separator, and a key without a namespace may look like one with a namespace. In strict mode there
is no other way (`watchCallbackKey_eq_iff`).
-/

namespace DittoClient

namespace NodeTcp

open DittoClient.Text
open DittoClient.Wire

/-- The options of a client with the strict mode on or off. -/
def Options.inMode (opts : Options) (strict : Bool) : Options :=
  { opts with validate := fun r => (nodeValidate strict r).isOk }

theorem Options.inMode_validate (opts : Options) (strict : Bool) (r : Request) :
    (opts.inMode strict).validate r = (nodeValidate strict r).isOk := rfl

/-- An entry of the store: a key in a namespace that is normalized. -/
structure Pair where
  ns : Option String
  key : String
  deriving DecidableEq, Repr

/-- The entry that the arguments of a call name. -/
def Pair.of (key : String) (ns : Option String) : Pair :=
  ⟨normalizeNamespace ns, key⟩

/-- The name of an entry in the map of callbacks, and in the events of the server. -/
def Pair.name (p : Pair) : String :=
  watchCallbackKey p.key p.ns

/-- What the strict mode asks of the namespace of an entry. -/
def Pair.Strict (p : Pair) : Prop :=
  ∀ n ∈ p.ns, n ≠ "" ∧ ¬ [':', ':'] <:+: n.toList

/-- The two ways in which one name is read as two entries. -/
def Pair.Shifts : Pair → Pair → Prop
  | ⟨none, k⟩, ⟨some n, l⟩ => k = n ++ "::" ++ l
  | ⟨some m, k⟩, ⟨some n, l⟩ => n = m ++ ":" ∧ k = ":" ++ l
  | _, _ => False

/-- Two entries have one name. -/
def Pair.Clash (p q : Pair) : Prop :=
  p.Shifts q ∨ q.Shifts p

instance Pair.decidableShifts : (p q : Pair) → Decidable (p.Shifts q)
  | ⟨none, k⟩, ⟨some n, l⟩ => inferInstanceAs (Decidable (k = n ++ "::" ++ l))
  | ⟨some m, k⟩, ⟨some n, l⟩ => inferInstanceAs (Decidable (n = m ++ ":" ∧ k = ":" ++ l))
  | ⟨none, _⟩, ⟨none, _⟩ => inferInstanceAs (Decidable False)
  | ⟨some _, _⟩, ⟨none, _⟩ => inferInstanceAs (Decidable False)

instance Pair.decidableClash (p q : Pair) : Decidable (p.Clash q) :=
  inferInstanceAs (Decidable (p.Shifts q ∨ q.Shifts p))

theorem Pair.name_none (k : String) : Pair.name ⟨none, k⟩ = k := rfl

theorem Pair.name_some {n : String} (h : n ≠ "") (k : String) :
    Pair.name ⟨some n, k⟩ = n ++ "::" ++ k := by
  have hfilter : (some n).filter (fun n => decide (n ≠ "")) = some n :=
    Option.filter_eq_some_iff.mpr ⟨rfl, decide_eq_true h⟩
  rw [name, watchCallbackKey, hfilter]

/-- A separator is found at one place only, or one further. -/
theorem separator_shift {m n k l : List Char} (hn : ¬ [':', ':'] <:+: n)
    (hle : m.length ≤ n.length) (h : m ++ (':' :: ':' :: k) = n ++ (':' :: ':' :: l)) :
    (m = n ∧ k = l) ∨ (n = m ++ [':'] ∧ k = ':' :: l) := by
  obtain ⟨a, rfl⟩ : m <+: n :=
    List.prefix_of_prefix_length_le (List.prefix_append m _) (h ▸ List.prefix_append n _) hle
  rw [List.append_assoc, List.append_cancel_left_eq] at h
  match a with
  | [] =>
      refine Or.inl ⟨(List.append_nil m).symm, ?_⟩
      simpa using h
  | [x] =>
      simp only [List.cons_append, List.nil_append, List.cons.injEq, true_and] at h
      exact Or.inr ⟨by rw [← h.1], h.2⟩
  | x :: y :: rest =>
      -- A longer shift would put the separator into the namespace.
      simp only [List.cons_append, List.cons.injEq] at h
      refine absurd ⟨m, rest, ?_⟩ hn
      simp [← h.1, ← h.2.1]

theorem name_toList {n : String} (hn : n ≠ "") (k : String) :
    (Pair.name ⟨some n, k⟩).toList = n.toList ++ (':' :: ':' :: k.toList) := by
  rw [Pair.name_some hn, String.toList_append, String.toList_append, List.append_assoc]
  rfl

/-- Two keys in namespaces have one name only if they are the same, or the longer namespace takes
a colon off the key. -/
theorem eq_or_shifts_of_le {m n k l : String} (hm : m ≠ "")
    (hn : n ≠ "" ∧ ¬ [':', ':'] <:+: n.toList) (hle : m.toList.length ≤ n.toList.length)
    (h : Pair.name ⟨some m, k⟩ = Pair.name ⟨some n, l⟩) :
    (⟨some m, k⟩ : Pair) = ⟨some n, l⟩ ∨ Pair.Shifts ⟨some m, k⟩ ⟨some n, l⟩ := by
  have hlist := congrArg String.toList h
  rw [name_toList hm, name_toList hn.1] at hlist
  rcases separator_shift hn.2 hle hlist with ⟨heq, hkey⟩ | ⟨heq, hkey⟩
  · rw [String.toList_inj.mp heq, String.toList_inj.mp hkey]
    exact Or.inl rfl
  · refine Or.inr ⟨String.toList_inj.mp ?_, String.toList_inj.mp ?_⟩
    · rw [heq, String.toList_append]
      rfl
    · rw [hkey, String.toList_append]
      rfl

namespace Pair

variable {p q : Pair}

theorem Shifts.name_eq (h : p.Shifts q) (hq : q.Strict) (hp : p.Strict) : p.name = q.name := by
  obtain ⟨m, k⟩ := p
  obtain ⟨n, l⟩ := q
  cases n with
  | none => cases m <;> exact h.elim
  | some n =>
      have hn := (hq n rfl).1
      cases m with
      | none => rw [name_some hn, name_none, h]
      | some m =>
          obtain ⟨rfl, rfl⟩ := h
          refine String.toList_inj.mp ?_
          rw [name_toList (hp m rfl).1, name_toList hn]
          simp

theorem Shifts.ne (h : p.Shifts q) : p ≠ q := by
  rintro rfl
  obtain ⟨m, k⟩ := p
  cases m with
  | none => exact h
  | some m =>
      have hlen := congrArg (fun s => s.toList.length) h.1
      simp at hlen

theorem Clash.ne (h : p.Clash q) : p ≠ q := by
  rcases h with h | h
  · exact h.ne
  · exact h.ne.symm

/-- Entries of the strict mode that have one name are the same or clash. -/
theorem name_eq_iff (hp : p.Strict) (hq : q.Strict) : p.name = q.name ↔ p = q ∨ p.Clash q := by
  constructor
  · intro h
    obtain ⟨m, k⟩ := p
    obtain ⟨n, l⟩ := q
    cases m with
    | none =>
        cases n with
        | none => exact Or.inl (by rw [← name_none k, h, name_none])
        | some n =>
            rw [name_none, name_some (hq n rfl).1] at h
            exact Or.inr (Or.inl h)
    | some m =>
        cases n with
        | none =>
            rw [name_none, name_some (hp m rfl).1] at h
            exact Or.inr (Or.inr h.symm)
        | some n =>
            rcases Nat.le_total m.toList.length n.toList.length with hle | hle
            · exact (eq_or_shifts_of_le (hp m rfl).1 (hq n rfl) hle h).imp id Or.inl
            · exact (eq_or_shifts_of_le (hq n rfl).1 (hp m rfl) hle h.symm).imp Eq.symm Or.inr
  · rintro (rfl | h | h)
    · rfl
    · exact h.name_eq hq hp
    · exact (h.name_eq hp hq).symm

end Pair

end NodeTcp

end DittoClient
