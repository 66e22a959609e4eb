import Mathlib.Data.List.DropRight

/-!
# Spaces around a text

The clients strip texts, or ask whether there is anything in them but spaces. What counts as
a space is that of the language. All languages count the spaces of ASCII, and none counts a
visible character of ASCII; beyond ASCII they differ in a few characters.
-/

namespace DittoClient

namespace Text

/-- The Unicode property `White_Space`, which Go and Rust trim by. -/
def whiteSpace (c : Char) : Bool :=
  decide ((9 ≤ c.toNat ∧ c.toNat ≤ 13) ∨ (0x2000 ≤ c.toNat ∧ c.toNat ≤ 0x200A) ∨
    c.toNat ∈ [0x20, 0x85, 0xA0, 0x1680, 0x2028, 0x2029, 0x202F, 0x205F, 0x3000])

/-- The four information separators, U+001C to U+001F. -/
def separator (c : Char) : Bool :=
  decide (0x1C ≤ c.toNat ∧ c.toNat ≤ 0x1F)

/-- What `str.strip` removes. -/
def pythonSpace (c : Char) : Bool :=
  whiteSpace c || separator c

/-- What `Character.isWhitespace` holds of; the spaces that do not break are not among
them. -/
def javaSpace (c : Char) : Bool :=
  (whiteSpace c && !decide (c.toNat ∈ [0x85, 0xA0, 0x2007, 0x202F])) || separator c

/-- What `String.prototype.trim` removes. -/
def nodeSpace (c : Char) : Bool :=
  (whiteSpace c && !decide (c.toNat = 0x85)) || decide (c.toNat = 0xFEFF)

/-- A visible character of ASCII. -/
def visible (c : Char) : Bool :=
  decide (0x21 ≤ c.toNat ∧ c.toNat ≤ 0x7E)

/-- A text without the spaces at its two ends. -/
def trim (space : Char → Bool) (s : String) : String :=
  String.ofList ((s.toList.dropWhile space).rdropWhile space)

/-- A text with nothing in it but spaces. -/
def blank (space : Char → Bool) (s : String) : Bool :=
  s.toList.all space

/-- A text that may be absent, without the spaces around it; a blank text is absent as well. -/
def trimmed (space : Char → Bool) (s : Option String) : Option String :=
  (s.map (trim space)).filter fun t => decide (t ≠ "")

/-- The letters and digits of ASCII. -/
theorem isAlphanum_iff {c : Char} : c.isAlphanum = true ↔
    ((65 ≤ c.toNat ∧ c.toNat ≤ 90) ∨ (97 ≤ c.toNat ∧ c.toNat ≤ 122)) ∨
      (48 ≤ c.toNat ∧ c.toNat ≤ 57) := by
  change ((decide ('A'.val ≤ c.val ∧ c.val ≤ 'Z'.val) ||
    (decide ('a'.val ≤ c.val) && decide (c.val ≤ 'z'.val))) ||
      (decide ('0'.val ≤ c.val) && decide (c.val ≤ '9'.val))) = true ↔ _
  simp only [Bool.or_eq_true, Bool.and_eq_true, decide_eq_true_eq, UInt32.le_iff_toNat_le]
  rfl

section Visible

variable {c : Char}

theorem whiteSpace_of_visible (h : visible c = true) : whiteSpace c = false := by
  simp only [visible, whiteSpace, decide_eq_true_eq, decide_eq_false_iff_not, List.mem_cons,
    List.not_mem_nil, or_false] at *
  omega

theorem separator_of_visible (h : visible c = true) : separator c = false := by
  simp only [visible, separator, decide_eq_true_eq, decide_eq_false_iff_not] at *
  omega

theorem pythonSpace_of_visible (h : visible c = true) : pythonSpace c = false := by
  rw [pythonSpace, whiteSpace_of_visible h, separator_of_visible h]
  rfl

theorem javaSpace_of_visible (h : visible c = true) : javaSpace c = false := by
  rw [javaSpace, whiteSpace_of_visible h, separator_of_visible h]
  rfl

theorem nodeSpace_of_visible (h : visible c = true) : nodeSpace c = false := by
  have hmark : ¬ c.toNat = 0xFEFF := by
    simp only [visible, decide_eq_true_eq] at h
    omega
  rw [nodeSpace, whiteSpace_of_visible h, decide_eq_false hmark]
  rfl

end Visible

section Trim

variable {space : Char → Bool} {s : String}

theorem blank_iff : blank space s = true ↔ ∀ c ∈ s.toList, space c = true :=
  List.all_eq_true

/-- What is left of a text is empty if and only if the text is blank. -/
theorem trim_eq_empty_iff : trim space s = "" ↔ blank space s = true := by
  have hnil : trim space s = "" ↔ (s.toList.dropWhile space).rdropWhile space = [] := by
    rw [trim, ← String.toList_inj, String.toList_ofList]
    rfl
  rw [hnil, List.rdropWhile_eq_nil_iff, blank_iff]
  refine ⟨fun h c hc => ?_, fun h c hc => h c (List.dropWhile_sublist space |>.subset hc)⟩
  rw [← List.takeWhile_append_dropWhile (p := space) (l := s.toList)] at hc
  rcases List.mem_append.mp hc with hc | hc
  · exact List.mem_takeWhile_imp hc
  · exact h c hc

/-- A text that begins with no space is not blank. -/
theorem not_blank_of_head {c : Char} {cs : List Char} (h : s.toList = c :: cs)
    (hc : space c = false) : blank space s = false := by
  rw [blank, h, List.all_cons, hc, Bool.false_and]

/-- A text that neither begins nor ends with a space is left as it is. -/
theorem trim_eq_self (hhead : ∀ c ∈ s.toList.head?, space c = false)
    (hlast : ∀ c ∈ s.toList.getLast?, space c = false) : trim space s = s := by
  have hdrop : s.toList.dropWhile space = s.toList := by
    cases hs : s.toList with
    | nil => rfl
    | cons c cs =>
        have hc : space c = false := hhead c (by simp [hs])
        rw [List.dropWhile_cons_of_neg (by simp [hc])]
  have hrdrop : s.toList.rdropWhile space = s.toList := by
    refine List.rdropWhile_eq_self_iff.mpr fun hne => ?_
    have hc := hlast (s.toList.getLast hne) (List.getLast_mem_getLast? hne)
    simp [hc]
  rw [trim, hdrop, hrdrop, String.ofList_toList]

/-- A trimmed text begins with no space. -/
theorem head_trim : ∀ c ∈ (trim space s).toList.head?, space c = false := by
  intro c hc
  obtain ⟨t, ht⟩ := List.rdropWhile_prefix space (s.toList.dropWhile space)
  rw [trim, String.toList_ofList] at hc
  have hnot := List.head?_dropWhile_not space s.toList
  rw [← ht, List.head?_append, Option.mem_def.mp hc] at hnot
  simpa using hnot

/-- A trimmed text ends with no space. -/
theorem getLast_trim : ∀ c ∈ (trim space s).toList.getLast?, space c = false := by
  intro c hc
  rw [trim, String.toList_ofList] at hc
  have hne : (s.toList.dropWhile space).rdropWhile space ≠ [] := by
    intro h
    rw [h] at hc
    cases hc
  have hlast := List.rdropWhile_last_not space (s.toList.dropWhile space) hne
  rw [List.getLast?_eq_getLast_of_ne_nil hne] at hc
  cases hc
  simpa using hlast

/-- What trimming takes off a text are spaces. -/
theorem exists_split (space : Char → Bool) (s : String) :
    ∃ a b, s.toList = a ++ ((trim space s).toList ++ b) ∧ (∀ c ∈ a, space c = true) ∧
      ∀ c ∈ b, space c = true := by
  refine ⟨s.toList.takeWhile space, (s.toList.dropWhile space).rtakeWhile space, ?_,
    fun c hc => List.mem_takeWhile_imp hc, fun c hc => List.mem_rtakeWhile_imp hc⟩
  rw [trim, String.toList_ofList, List.rdropWhile_append_rtakeWhile,
    List.takeWhile_append_dropWhile]

theorem rdropWhile_append_of_pos {p : Char → Bool} {l b : List Char}
    (hb : ∀ c ∈ b, p c = true) : (l ++ b).rdropWhile p = l.rdropWhile p := by
  induction b using List.reverseRecOn with
  | nil => rw [List.append_nil]
  | append_singleton b c ih =>
      have hc : p c = true := hb c (List.mem_append_right _ (List.mem_singleton_self c))
      rw [← List.append_assoc, List.rdropWhile_concat_pos p (l ++ b) c hc]
      exact ih fun d hd => hb d (List.mem_append_left _ hd)

/-- Spaces around a text make no difference to what is left of it. -/
theorem trim_eq_of_split {t : String} {a b : List Char} (h : s.toList = a ++ (t.toList ++ b))
    (ha : ∀ c ∈ a, space c = true) (hb : ∀ c ∈ b, space c = true) :
    trim space s = trim space t := by
  have hdrop : (t.toList ++ b).dropWhile space =
      if (t.toList.dropWhile space).isEmpty then [] else t.toList.dropWhile space ++ b := by
    rw [List.dropWhile_append, List.dropWhile_eq_nil_iff.mpr hb]
  rw [trim, trim, h, List.dropWhile_append_of_pos ha, hdrop]
  cases hempty : (t.toList.dropWhile space).isEmpty
  · rw [if_neg Bool.false_ne_true, rdropWhile_append_of_pos hb]
  · rw [if_pos rfl, List.isEmpty_iff.mp hempty]

section Narrower

variable {wide narrow : Char → Bool}

/-- A trim that takes off less can be done first. -/
theorem trim_trim_of_imp (h : ∀ c, narrow c = true → wide c = true) (s : String) :
    trim wide (trim narrow s) = trim wide s := by
  obtain ⟨a, b, hsplit, ha, hb⟩ := exists_split narrow s
  exact (trim_eq_of_split hsplit (fun c hc => h c (ha c hc)) fun c hc => h c (hb c hc)).symm

/-- A trim that takes off less does nothing afterwards. -/
theorem trim_of_imp_trim (h : ∀ c, narrow c = true → wide c = true) (s : String) :
    trim narrow (trim wide s) = trim wide s := by
  have hnot : ∀ c, wide c = false → narrow c = false := by
    intro c hc
    cases hn : narrow c with
    | false => rfl
    | true => exact absurd (h c hn) (by simp [hc])
  exact trim_eq_self (fun c hc => hnot c (head_trim c hc)) fun c hc => hnot c (getLast_trim c hc)

theorem blank_of_imp (h : ∀ c, narrow c = true → wide c = true) (hs : blank narrow s = true) :
    blank wide s = true :=
  blank_iff.mpr fun c hc => h c (blank_iff.mp hs c hc)

end Narrower

theorem trim_trim (space : Char → Bool) (s : String) : trim space (trim space s) = trim space s :=
  trim_trim_of_imp (fun _ h => h) s

theorem trim_ne_empty (h : blank space s = false) : trim space s ≠ "" := by
  rw [Ne, trim_eq_empty_iff, h]
  exact Bool.false_ne_true

theorem blank_eq_decide (space : Char → Bool) (s : String) :
    blank space s = decide (trim space s = "") := by
  rw [Bool.eq_iff_iff, decide_eq_true_iff, trim_eq_empty_iff]

theorem trimmed_some_of_empty (h : trim space s = "") : trimmed space (some s) = none := by
  rw [trimmed, Option.map_some, h]
  rfl

theorem trimmed_some_of_ne (h : trim space s ≠ "") :
    trimmed space (some s) = some (trim space s) := by
  rw [trimmed, Option.map_some]
  exact Option.filter_eq_some_iff.mpr ⟨rfl, decide_eq_true h⟩

theorem pythonSpace_of_whiteSpace (c : Char) (h : whiteSpace c = true) : pythonSpace c = true := by
  rw [pythonSpace, h, Bool.true_or]

/-- A text without separators has the same spaces in Python. -/
theorem trim_pythonSpace (h : ∀ c ∈ (trim whiteSpace s).toList, separator c = false) :
    trim pythonSpace s = trim whiteSpace s := by
  have hnot : ∀ c ∈ (trim whiteSpace s).toList, whiteSpace c = false → pythonSpace c = false := by
    intro c hc hspace
    rw [pythonSpace, hspace, h c hc]
    rfl
  rw [← trim_trim_of_imp pythonSpace_of_whiteSpace s]
  exact trim_eq_self
    (fun c hc => hnot c (List.mem_of_mem_head? hc) (head_trim c hc))
    fun c hc => hnot c (List.mem_of_getLast? hc) (getLast_trim c hc)

end Trim

end Text

end DittoClient
