import DittoClient.Text.Space

/-!
# Words between spaces

A text is trimmed, and what is left of it should be a word over certain characters. Two checks of
this kind may differ in what they take for a space and in what they allow. If one of them is wider
than the other in both respects, then it takes more texts, and those are the ones in which there is
a character that is neither a space nor allowed for the narrow check.
-/

namespace DittoClient

namespace Text

/-- A text of allowed characters that is not empty. -/
structure Word (allowed : Char → Bool) (s : String) : Prop where
  ne_empty : s ≠ ""
  allowed : ∀ c ∈ s.toList, allowed c = true

/-- A text with spaces around it. -/
def Between (space : Char → Bool) (s t : String) : Prop :=
  ∃ a b, s.toList = a ++ (t.toList ++ b) ∧ (∀ c ∈ a, space c = true) ∧ ∀ c ∈ b, space c = true

section Words

variable {space narrow allowed documented : Char → Bool} {s t : String}

theorem Word.mono (h : Word documented s) (himp : ∀ c, documented c = true → allowed c = true) :
    Word allowed s :=
  ⟨h.ne_empty, fun c hc => himp c (h.allowed c hc)⟩

/-- What is left of a text stands between spaces. -/
theorem between_trim (space : Char → Bool) (s : String) : Between space s (trim space s) :=
  exists_split space s

theorem Between.mono (h : Between narrow s t) (himp : ∀ c, narrow c = true → space c = true) :
    Between space s t := by
  obtain ⟨a, b, hs, ha, hb⟩ := h
  exact ⟨a, b, hs, fun c hc => himp c (ha c hc), fun c hc => himp c (hb c hc)⟩

theorem Between.mem (h : Between space s t) {c : Char} (hc : c ∈ s.toList) :
    c ∈ t.toList ∨ space c = true := by
  obtain ⟨a, b, hs, ha, hb⟩ := h
  rw [hs, List.mem_append, List.mem_append] at hc
  rcases hc with hc | hc | hc
  · exact Or.inr (ha c hc)
  · exact Or.inl hc
  · exact Or.inr (hb c hc)

theorem Between.mem_of_mem (h : Between space s t) {c : Char} (hc : c ∈ t.toList) :
    c ∈ s.toList := by
  obtain ⟨a, b, hs, -, -⟩ := h
  rw [hs]
  exact List.mem_append_right a (List.mem_append_left b hc)

/-- A text without spaces is what is left of it between spaces. -/
theorem Between.trim_eq (h : Between space s t) (ht : ∀ c ∈ t.toList, space c = false) :
    trim space s = t := by
  obtain ⟨a, b, hs, ha, hb⟩ := h
  rw [trim_eq_of_split hs ha hb]
  exact trim_eq_self (fun c hc => ht c (List.mem_of_mem_head? hc))
    fun c hc => ht c (List.mem_of_getLast? hc)

/-- Both trims leave the same, if all that the wide one takes off is a space for the narrow one. -/
theorem trim_eq_trim (himp : ∀ c, narrow c = true → space c = true)
    (h : ∀ c ∈ s.toList, space c = true → narrow c = true) : trim narrow s = trim space s := by
  obtain ⟨a, b, hs, ha, hb⟩ := between_trim space s
  have hmem : ∀ c, c ∈ a ∨ c ∈ b → c ∈ s.toList := by
    intro c hc
    rw [hs, List.mem_append, List.mem_append]
    exact hc.imp id Or.inr
  rw [trim_eq_of_split hs (fun c hc => h c (hmem c (Or.inl hc)) (ha c hc))
    fun c hc => h c (hmem c (Or.inr hc)) (hb c hc)]
  exact trim_of_imp_trim himp s

/-- A text that a wide check takes and a narrow one does not: a word for the wide one between its
spaces, in which there is a character that means nothing to the narrow one. What else is asked of
the word is `other`. -/
def Stray (space allowed narrow documented : Char → Bool) (other : String → Prop) (s : String) :
    Prop :=
  ∃ t, Between space s t ∧ Word allowed t ∧ other t ∧
    ∃ c ∈ s.toList, documented c = false ∧ narrow c = false

section Checks

variable {other : String → Prop} (hspace : ∀ c, narrow c = true → space c = true)
  (hallowed : ∀ c, documented c = true → allowed c = true)
  (hapart : ∀ c, allowed c = true → space c = false)
include hspace hallowed hapart

/-- The wide check takes the texts that the narrow one takes and the strays. -/
theorem word_trim_iff (other : String → Prop) (s : String) :
    Word allowed (trim space s) ∧ other (trim space s) ↔
      Word documented (trim narrow s) ∧ other (trim narrow s) ∨
        Stray space allowed narrow documented other s := by
  constructor
  · rintro ⟨hword, hother⟩
    by_cases hstray : ∃ c ∈ s.toList, documented c = false ∧ narrow c = false
    · exact Or.inr ⟨_, between_trim space s, hword, hother, hstray⟩
    · have hplain : ∀ c ∈ s.toList, documented c = true ∨ narrow c = true := by
        intro c hc
        by_contra hnot
        exact hstray ⟨c, hc, by simpa using hnot⟩
      have htrim : trim narrow s = trim space s := by
        refine trim_eq_trim hspace fun c hc hsp => (hplain c hc).resolve_left fun hdoc => ?_
        rw [hapart c (hallowed c hdoc)] at hsp
        cases hsp
      rw [htrim]
      refine Or.inl ⟨⟨hword.ne_empty, fun c hc => ?_⟩, hother⟩
      refine (hplain c ((between_trim space s).mem_of_mem hc)).resolve_right fun hnarrow => ?_
      have hnot := hapart c (hword.allowed c hc)
      rw [hspace c hnarrow] at hnot
      cases hnot
  · rintro (⟨hword, hother⟩ | ⟨t, hbetween, hword, hother, -⟩)
    · have htrim : trim space s = trim narrow s :=
        ((between_trim narrow s).mono hspace).trim_eq fun c hc =>
          hapart c (hallowed c (hword.allowed c hc))
      rw [htrim]
      exact ⟨hword.mono hallowed, hother⟩
    · rw [hbetween.trim_eq fun c hc => hapart c (hword.allowed c hc)]
      exact ⟨hword, hother⟩

omit hspace hallowed hapart in
/-- The narrow check takes no strays. -/
theorem not_stray_of_word (h : Word documented (trim narrow s)) :
    ¬ Stray space allowed narrow documented other s := by
  rintro ⟨t, -, -, -, c, hc, hdoc, hnarrow⟩
  rcases (between_trim narrow s).mem hc with hmem | hsp
  · rw [h.allowed c hmem] at hdoc
    cases hdoc
  · rw [hsp] at hnarrow
    cases hnarrow

end Checks

end Words

end Text

end DittoClient
