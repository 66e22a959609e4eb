import Mathlib.Data.List.Infix

/-!
# Texts searched up to case

The clients tell some errors by a text in their messages: the message is put in lower case, and
searched for the texts of a list. The texts are in ASCII, so that of the lower case of a character
only what is in ASCII matters.
-/

namespace DittoClient

namespace Text

/-- The lower case of a character, as far as it is in ASCII. Besides the letters of ASCII it is only
the Kelvin sign that has one. -/
def lowerChar (c : Char) : Char :=
  if c.toNat = 0x212A then 'k' else c.toLower

/-- The same in Go, where the capital I with a dot loses the dot. -/
def goLowerChar (c : Char) : Char :=
  if c.toNat = 0x130 then 'i' else lowerChar c

/-- Whether a message contains a text, when its characters are put in lower case. -/
def contains (lower : Char → Char) (message text : String) : Bool :=
  decide (text.toList <:+: message.toList.map lower)

/-- Whether a message contains one of the texts of a list. -/
def containsAny (lower : Char → Char) (texts : List String) (message : String) : Bool :=
  texts.any (contains lower message)

variable {lower : Char → Char} {message text : String} {texts : List String}

theorem contains_append (h : contains lower message text = true) (more : String) :
    contains lower (message ++ more) text = true := by
  rw [contains, decide_eq_true_eq] at h ⊢
  rw [String.toList_append, List.map_append]
  exact h.trans (List.prefix_append _ _).isInfix

theorem append_contains (h : contains lower message text = true) (before : String) :
    contains lower (before ++ message) text = true := by
  rw [contains, decide_eq_true_eq] at h ⊢
  rw [String.toList_append, List.map_append]
  exact h.trans (List.suffix_append _ _).isInfix

theorem containsAny_of_mem (hmem : text ∈ texts) (h : contains lower message text = true) :
    containsAny lower texts message = true :=
  List.any_eq_true.mpr ⟨text, hmem, h⟩

/-- A message contains no text that has a character which is not in the message. -/
theorem not_containsAny {known : Char → Bool} (hmessage : ∀ c ∈ message.toList, known (lower c) = true)
    (htexts : ∀ text ∈ texts, text.toList.all known = false) :
    containsAny lower texts message = false := by
  refine eq_false_of_ne_true fun h => ?_
  obtain ⟨text, hmem, htext⟩ := List.any_eq_true.mp h
  rw [contains, decide_eq_true_eq] at htext
  have hall : text.toList.all known = true := by
    refine List.all_eq_true.mpr fun c hc => ?_
    obtain ⟨d, hd, rfl⟩ := List.mem_map.mp (htext.subset hc)
    exact hmessage d hd
  rw [htexts text hmem] at hall
  cases hall

theorem lowerChar_of_isDigit {c : Char} (h : c.isDigit = true) : lowerChar c = c := by
  have hbound : c.toNat ≤ 57 := by
    simp only [Char.isDigit, Bool.and_eq_true, decide_eq_true_eq] at h
    exact h.2
  have hupper : ¬ (c.val ≥ 65 ∧ c.val ≤ 90) := fun hc => by
    have hlow : 65 ≤ c.toNat := hc.1
    omega
  rw [lowerChar, if_neg (by omega)]
  exact dif_neg hupper

/-- The characters of a number. -/
theorem mem_toString_nat {n : ℕ} {c : Char} (h : c ∈ (toString n).toList) : c.isDigit = true :=
  Nat.isDigit_of_mem_toDigits (b := 10) (by decide) (by decide) (by simpa using h)

theorem mem_toString_int {n : ℤ} {c : Char} (h : c ∈ (toString n).toList) :
    c.isDigit = true ∨ c = '-' := by
  cases n with
  | ofNat n => exact Or.inl (mem_toString_nat h)
  | negSucc n =>
      have hsign : (toString (Int.negSucc n)).toList = '-' :: (toString (n + 1)).toList := by
        change ("-" ++ toString (n + 1)).toList = _
        rw [String.toList_append]
        rfl
      rw [hsign] at h
      rcases List.mem_cons.mp h with h | h
      · exact Or.inr h
      · exact Or.inl (mem_toString_nat h)

example : contains lowerChar "read ECONNRESET" "econnreset" = true := by decide

end Text

end DittoClient
