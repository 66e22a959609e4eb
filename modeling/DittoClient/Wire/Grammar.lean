import DittoClient.Text.Words
import DittoClient.Wire.Validation

/-!
# The grammar of the strict mode

In strict mode a key is documented to be a word over the letters and digits of ASCII and a few
marks, and so are a pattern and a namespace without the spaces around them. The clients in Python,
Rust and JavaScript allow just these characters, but take more for a space; those in Go and Java
allow letters and digits of other scripts as well. `strict_grammar_iff` says which arguments they
all judge by the grammar.
-/

namespace DittoClient

namespace Wire

open DittoClient.Text

/-- What `String.trim` of Java removes. -/
def javaTrimmed (c : Char) : Bool :=
  decide (c.toNat ≤ 0x20)

/-- The validators of the Java client. They look at the units of UTF-16, so that a letter that takes
two of them is not allowed. -/
def javaValidators (alphabet : Alphabet) : Validators where
  space := javaTrimmed
  alphanumeric c := alphabet.holds c && decide (c.toNat ≤ 0xFFFF)
  complaint op reason := "Invalid " ++ op ++ " request: " ++ reason.sentence
  unscoped reason := "Invalid request: " ++ reason.sentence
  deleteByPattern := "deleteByPattern"
  setTtlByPattern := "setTtlByPattern"

/-- The letters and digits of Unicode. No space is among them. -/
structure Letters extends Alphabet where
  apart : ∀ c, whiteSpace c = true → holds c = false

/-- The clients that have a strict mode. -/
inductive Sdk
  | python
  | go
  | rust
  | java
  | node
  deriving DecidableEq, Repr

/-- What the standard libraries of Go and Java take for a letter or a digit is given. -/
def Sdk.validators (go : Letters) (java : Alphabet) : Sdk → Validators
  | .python => pythonValidators
  | .go => goValidators go.toAlphabet
  | .rust => rustValidators
  | .java => javaValidators java
  | .node => nodeValidators

/-- An argument that is checked. -/
inductive Argument
  | key (s : String)
  | pattern (s : String)
  | ns (ns : Option String)

/-- The check of an argument. -/
def Validators.check (v : Validators) (op : String) : Argument → Except String Unit
  | .key s => v.validateCoreInputs true op s none
  | .pattern s => v.validatePatternInputs true op s none
  | .ns ns => v.validateOptional (v.complaint op) ns

/-- The marks of a key or a namespace. -/
def marks : List Char := ['-', '_', '.', ':']

/-- The marks of a pattern. -/
def wildMarks : List Char := ['-', '_', '.', ':', '*']

/-- The characters of the grammar with these marks. -/
def documented (marks : List Char) (c : Char) : Bool :=
  c.isAlphanum || decide (c ∈ marks)

/-- The characters that a client allows. -/
def Validators.allowed (v : Validators) (marks : List Char) (c : Char) : Bool :=
  v.alphanumeric c || decide (c ∈ marks)

/-- There are no two colons next to each other. -/
def NoColons (s : String) : Prop :=
  ¬ [':', ':'] <:+: s.toList

/-- The spaces of ASCII. -/
def asciiSpace (c : Char) : Bool :=
  decide ((9 ≤ c.toNat ∧ c.toNat ≤ 13) ∨ c.toNat = 0x20)

/-- The grammar of an argument, with the spaces that may be around a pattern or a namespace. -/
def Argument.Documented (space : Char → Bool) : Argument → Prop
  | .key s => Word (documented marks) s
  | .pattern s => Word (documented wildMarks) (trim space s)
  | .ns given => ∀ s ∈ given, Word (documented marks) (trim space s) ∧ NoColons (trim space s)

/-- An argument with a character beyond the grammar, which is nothing unusual to a client: it is
one of its letters or digits, or one of its spaces around a pattern or a namespace. -/
def Argument.Stray (space : Char → Bool) (v : Validators) : Argument → Prop
  | .key s => Word (v.allowed marks) s ∧ ∃ c ∈ s.toList, documented marks c = false
  | .pattern s => Text.Stray v.space (v.allowed wildMarks) space (documented wildMarks)
      (fun _ => True) s
  | .ns given => ∃ s ∈ given, Text.Stray v.space (v.allowed marks) space (documented marks) NoColons s

/-- What all validators have in common. -/
structure Validators.Lawful (v : Validators) : Prop where
  ascii : ∀ c : Char, c.toNat < 128 → v.alphanumeric c = c.isAlphanum
  space : ∀ c, asciiSpace c = true → v.space c = true
  not_space : ∀ c, visible c = true → v.space c = false
  apart : ∀ c, v.alphanumeric c = true → v.space c = false

section Characters

variable {c : Char}

theorem toNat_of_isAlphanum (h : c.isAlphanum = true) : 48 ≤ c.toNat ∧ c.toNat ≤ 122 := by
  rcases isAlphanum_iff.mp h with (hupper | hlower) | hdigit
  · exact ⟨by omega, by omega⟩
  · exact ⟨by omega, hlower.2⟩
  · exact ⟨hdigit.1, by omega⟩

theorem visible_of_isAlphanum (h : c.isAlphanum = true) : visible c = true := by
  have hrange := toNat_of_isAlphanum h
  refine decide_eq_true ?_
  omega

theorem whiteSpace_of_asciiSpace (h : asciiSpace c = true) : whiteSpace c = true := by
  simp only [asciiSpace, whiteSpace, decide_eq_true_eq, List.mem_cons] at h ⊢
  omega

theorem nodeSpace_of_asciiSpace (h : asciiSpace c = true) : nodeSpace c = true := by
  have hnot : ¬ c.toNat = 0x85 := by
    simp only [asciiSpace, decide_eq_true_eq] at h
    omega
  simp [nodeSpace, whiteSpace_of_asciiSpace h, hnot]

theorem javaTrimmed_of_asciiSpace (h : asciiSpace c = true) : javaTrimmed c = true := by
  simp only [asciiSpace, javaTrimmed, decide_eq_true_eq] at h ⊢
  omega

theorem javaTrimmed_of_visible (h : visible c = true) : javaTrimmed c = false := by
  simp only [visible, javaTrimmed, decide_eq_true_eq, decide_eq_false_iff_not] at h ⊢
  omega

end Characters

/-- Validators that allow the letters and digits of ASCII only. -/
theorem lawful_of_ascii {v : Validators} (hv : v.alphanumeric = Char.isAlphanum)
    (hspace : ∀ c, asciiSpace c = true → v.space c = true)
    (hvisible : ∀ c, visible c = true → v.space c = false) : v.Lawful where
  ascii c _ := by rw [hv]
  space := hspace
  not_space := hvisible
  apart c hc := by
    rw [hv] at hc
    exact hvisible c (visible_of_isAlphanum hc)

theorem python_lawful : pythonValidators.Lawful :=
  lawful_of_ascii rfl (fun c h => pythonSpace_of_whiteSpace c (whiteSpace_of_asciiSpace h))
    fun c => pythonSpace_of_visible

theorem lawful (go : Letters) (java : Alphabet) (sdk : Sdk) :
    (sdk.validators go java).Lawful := by
  cases sdk with
  | python => exact python_lawful
  | rust =>
      exact lawful_of_ascii rfl (fun c => whiteSpace_of_asciiSpace) fun c => whiteSpace_of_visible
  | node =>
      exact lawful_of_ascii rfl (fun c => nodeSpace_of_asciiSpace) fun c => nodeSpace_of_visible
  | go =>
      refine ⟨go.ascii, fun c => whiteSpace_of_asciiSpace, fun c => whiteSpace_of_visible, ?_⟩
      intro c hc
      cases hsp : whiteSpace c with
      | false => exact hsp
      | true =>
          have hnot := go.apart c hsp
          rw [show go.holds c = true from hc] at hnot
          cases hnot
  | java =>
      refine ⟨fun c hc => ?_, fun c => javaTrimmed_of_asciiSpace, fun c => javaTrimmed_of_visible,
        fun c hc => ?_⟩
      · have hunit : c.toNat ≤ 0xFFFF := by omega
        change (java.holds c && decide (c.toNat ≤ 0xFFFF)) = c.isAlphanum
        rw [java.ascii c hc, decide_eq_true hunit, Bool.and_true]
      · have hholds : java.holds c = true := (Bool.and_eq_true_iff.mp hc).1
        refine decide_eq_false fun hle => ?_
        rw [java.ascii c (by omega)] at hholds
        have hrange := toNat_of_isAlphanum hholds
        omega

section Check

variable {v : Validators} {op : String} {cs : List Char}

/-- The grammar is allowed. -/
theorem Validators.Lawful.allowed_of_documented (hv : v.Lawful) {c : Char}
    (h : documented cs c = true) : v.allowed cs c = true := by
  rcases Bool.or_eq_true_iff.mp h with halpha | hmark
  · have hrange := toNat_of_isAlphanum halpha
    rw [Validators.allowed, hv.ascii c (by omega), halpha, Bool.true_or]
  · rw [Validators.allowed, hmark, Bool.or_true]

/-- No space is allowed. -/
theorem Validators.Lawful.space_of_allowed (hv : v.Lawful) (hcs : ∀ c ∈ cs, visible c = true)
    {c : Char} (h : v.allowed cs c = true) : v.space c = false := by
  rcases Bool.or_eq_true_iff.mp h with halpha | hmark
  · exact hv.apart c halpha
  · exact hv.not_space c (hcs c (of_decide_eq_true hmark))

theorem visible_marks : ∀ c ∈ marks, visible c = true :=
  List.all_eq_true.mp (by decide)

theorem visible_wildMarks : ∀ c ∈ wildMarks, visible c = true :=
  List.all_eq_true.mp (by decide)

theorem isStrictToken_iff {s : String} :
    v.isStrictToken s = true ↔ ∀ c ∈ s.toList, v.allowed marks c = true :=
  List.all_eq_true

theorem isStrictPattern_iff {s : String} :
    v.isStrictPattern s = true ↔ ∀ c ∈ s.toList, v.allowed wildMarks c = true :=
  List.all_eq_true

/-- A key that is a word is not blank. -/
theorem check_key_iff (hv : v.Lawful) {s : String} :
    v.check op (.key s) = .ok () ↔ Word (v.allowed marks) s := by
  have hblank : Word (v.allowed marks) s → trim v.space s ≠ "" := by
    intro h hempty
    have hsp := blank_iff.mp (trim_eq_empty_iff.mp hempty)
    obtain ⟨c, hc⟩ := List.exists_mem_of_ne_nil s.toList
      fun hnil => h.ne_empty (String.toList_inj.mp hnil)
    have hnot := hv.space_of_allowed visible_marks (h.allowed c hc)
    rw [hsp c hc] at hnot
    cases hnot
  simp only [Validators.check, Validators.validateCoreInputs, Bool.not_true, Bool.false_eq_true,
    if_false]
  constructor
  · intro h
    split_ifs at h with hempty htoken
    refine ⟨?_, isStrictToken_iff.mp (by simpa using htoken)⟩
    rintro rfl
    exact hempty rfl
  · intro h
    rw [if_neg (hblank h), isStrictToken_iff.mpr h.allowed]
    rfl

theorem check_pattern_iff {s : String} :
    v.check op (.pattern s) = .ok () ↔ Word (v.allowed wildMarks) (trim v.space s) := by
  simp only [Validators.check, Validators.validatePatternInputs, Bool.not_true,
    Bool.false_eq_true, if_false]
  constructor
  · intro h
    split_ifs at h with hempty hpattern
    exact ⟨hempty, isStrictPattern_iff.mp (by simpa using hpattern)⟩
  · intro h
    rw [if_neg h.ne_empty, isStrictPattern_iff.mpr h.allowed]
    rfl

theorem check_ns_iff {ns : Option String} :
    v.check op (.ns ns) = .ok () ↔
      ∀ s ∈ ns, Word (v.allowed marks) (trim v.space s) ∧ NoColons (trim v.space s) := by
  cases ns with
  | none => exact ⟨fun _ => nofun, fun _ => rfl⟩
  | some s =>
      rw [Validators.check, Validators.validateOptional, Validators.validateNamespace_eq_ok_iff]
      simp only [Option.mem_def, Option.some.injEq, forall_eq']
      exact ⟨fun h => ⟨⟨h.present, isStrictToken_iff.mp h.token⟩, h.colons⟩,
        fun h => ⟨h.1.ne_empty, h.2, isStrictToken_iff.mpr h.1.allowed⟩⟩

/-- A client takes the arguments of the grammar and the strays. -/
theorem check_iff (hv : v.Lawful) {space : Char → Bool}
    (hspace : ∀ c, space c = true → asciiSpace c = true) (a : Argument) :
    v.check op a = .ok () ↔ a.Documented space ∨ a.Stray space v := by
  have hwide : ∀ c, space c = true → v.space c = true := fun c hc => hv.space c (hspace c hc)
  cases a with
  | key s =>
      rw [check_key_iff hv, Argument.Documented, Argument.Stray]
      constructor
      · intro h
        by_cases hstray : ∃ c ∈ s.toList, documented marks c = false
        · exact Or.inr ⟨h, hstray⟩
        · refine Or.inl ⟨h.ne_empty, fun c hc => ?_⟩
          by_contra hnot
          exact hstray ⟨c, hc, by simpa using hnot⟩
      · rintro (h | h)
        · exact h.mono fun c => hv.allowed_of_documented
        · exact h.1
  | pattern s =>
      have hiff := word_trim_iff hwide (fun c => hv.allowed_of_documented)
        (fun c => hv.space_of_allowed visible_wildMarks) (fun _ => True) s
      simp only [and_true] at hiff
      rw [check_pattern_iff, hiff]
      rfl
  | ns ns =>
      cases ns with
      | none => simp [check_ns_iff, Argument.Documented]
      | some s =>
          rw [check_ns_iff, Argument.Documented, Argument.Stray]
          simp only [Option.mem_def, Option.some.injEq, forall_eq', exists_eq_left']
          exact word_trim_iff hwide (fun c => hv.allowed_of_documented)
            (fun c => hv.space_of_allowed visible_marks) NoColons s

/-- A stray is not of the grammar. -/
theorem not_stray {space : Char → Bool} {a : Argument} (h : a.Documented space) :
    ¬ a.Stray space v := by
  cases a with
  | key s =>
      rintro ⟨-, c, hc, hnot⟩
      rw [h.allowed c hc] at hnot
      cases hnot
  | pattern s => exact not_stray_of_word h
  | ns ns =>
      rintro ⟨s, hs, hstray⟩
      exact not_stray_of_word (h s hs).1 hstray

/-- The text of an argument, if there is one. -/
def Argument.text? : Argument → Option String
  | .key s => some s
  | .pattern s => some s
  | .ns given => given

/-- Among the characters of ASCII that are no control characters, a client allows those of the
grammar only. -/
theorem Validators.Lawful.documented_of_allowed (hv : v.Lawful) {c : Char}
    (hc : visible c = true ∨ c = ' ') (h : v.allowed cs c = true) : documented cs c = true := by
  have hascii : c.toNat < 128 := by
    rcases hc with hc | rfl
    · have hrange := of_decide_eq_true hc
      omega
    · decide
  rwa [Validators.allowed, hv.ascii c hascii] at h

/-- No word between spaces is a stray, if all its characters are of ASCII and none is a control
character. -/
theorem not_stray_of_ascii (hv : v.Lawful) {space : Char → Bool} (hspace : space ' ' = true)
    {s : String} (hs : ∀ c ∈ s.toList, visible c = true ∨ c = ' ') {other : String → Prop} :
    ¬ Text.Stray v.space (v.allowed cs) space (documented cs) other s := by
  rintro ⟨t, hbetween, hword, -, c, hc, hdoc, hnarrow⟩
  rcases hbetween.mem hc with hmem | hsp
  · rw [hv.documented_of_allowed (hs c hc) (hword.allowed c hmem)] at hdoc
    cases hdoc
  · rcases hs c hc with hvisible | rfl
    · rw [hv.not_space c hvisible] at hsp
      cases hsp
    · rw [hspace] at hnarrow
      cases hnarrow

/-- In particular, an argument of ASCII without control characters is judged by the grammar, where
the space is among the spaces. -/
theorem Argument.not_stray_of_ascii (hv : v.Lawful) {space : Char → Bool} (hspace : space ' ' = true)
    {a : Argument} (ha : ∀ s ∈ a.text?, ∀ c ∈ s.toList, visible c = true ∨ c = ' ') :
    ¬ a.Stray space v := by
  cases a with
  | key s =>
      rintro ⟨hword, c, hc, hdoc⟩
      rw [hv.documented_of_allowed (ha s rfl c hc) (hword.allowed c hc)] at hdoc
      cases hdoc
  | pattern s => exact Wire.not_stray_of_ascii hv hspace (ha s rfl)
  | ns given =>
      rintro ⟨s, hs, hstray⟩
      exact Wire.not_stray_of_ascii hv hspace (ha s hs) hstray

end Check

/-- A key and a namespace are checked one after the other. -/
theorem validateCoreInputs_iff (v : Validators) (op key : String) (ns : Option String) :
    v.validateCoreInputs true op key ns = .ok () ↔
      v.check op (.key key) = .ok () ∧ v.check op (.ns ns) = .ok () := by
  simp only [Validators.check, Validators.validateCoreInputs, Bool.not_true, Bool.false_eq_true,
    if_false]
  split_ifs
  · simp
  · simp
  · exact (and_iff_right rfl).symm

theorem validatePatternInputs_iff (v : Validators) (op pattern : String) (ns : Option String) :
    v.validatePatternInputs true op pattern ns = .ok () ↔
      v.check op (.pattern pattern) = .ok () ∧ v.check op (.ns ns) = .ok () := by
  simp only [Validators.check, Validators.validatePatternInputs, Bool.not_true,
    Bool.false_eq_true, if_false]
  split_ifs
  · simp
  · simp
  · exact (and_iff_right rfl).symm

/-- All clients take an argument just when it is of the grammar if and only if it is a stray for
none of them. -/
theorem strict_grammar_iff (go : Letters) (java : Alphabet) (space : Char → Bool)
    (hspace : ∀ c, space c = true → asciiSpace c = true) (op : String) (a : Argument) :
    (∀ sdk : Sdk, (sdk.validators go java).check op a = .ok () ↔ a.Documented space) ↔
      ∀ sdk : Sdk, ¬ a.Stray space (sdk.validators go java) := by
  refine forall_congr' fun sdk => ?_
  rw [check_iff (lawful go java sdk) hspace a]
  constructor
  · exact fun h hstray => not_stray (h.mp (Or.inr hstray)) hstray
  · exact fun h => ⟨fun hor => hor.resolve_right h, Or.inl⟩

/-- An alphabet with the letters of Latin-1 in it. -/
def latin : Letters where
  holds c := c.isAlphanum || decide (0xC0 ≤ c.toNat ∧ c.toNat ≤ 0xFF ∧ c.toNat ≠ 0xD7 ∧
    c.toNat ≠ 0xF7)
  ascii c hc := by
    have hnot : ¬ (0xC0 ≤ c.toNat ∧ c.toNat ≤ 0xFF ∧ c.toNat ≠ 0xD7 ∧ c.toNat ≠ 0xF7) := by omega
    rw [decide_eq_false hnot, Bool.or_false]
  apart c hc := by
    have hnot : ¬ (0xC0 ≤ c.toNat ∧ c.toNat ≤ 0xFF ∧ c.toNat ≠ 0xD7 ∧ c.toNat ≠ 0xF7) := by
      simp only [whiteSpace, decide_eq_true_eq, List.mem_cons, List.not_mem_nil, or_false] at hc
      omega
    rw [decide_eq_false hnot, Bool.or_false]
    cases halpha : c.isAlphanum with
    | false => rfl
    | true =>
        rw [whiteSpace_of_visible (visible_of_isAlphanum halpha)] at hc
        cases hc

/-- All clients take a pattern with a space before it, which is of the grammar. -/
theorem strict_grammar_iff_spaced :
    (Argument.pattern " user:*").Documented asciiSpace ∧
      ∀ sdk : Sdk, (sdk.validators latin latin.toAlphabet).check "deleteByPattern"
        (.pattern " user:*") = .ok () := by
  have hdocumented : (Argument.pattern " user:*").Documented asciiSpace := by
    have htrim : trim asciiSpace " user:*" = "user:*" := by decide
    rw [Argument.Documented, htrim]
    exact ⟨by decide, List.all_eq_true.mp (by decide)⟩
  refine ⟨hdocumented, fun sdk => ?_⟩
  refine ((strict_grammar_iff latin latin.toAlphabet asciiSpace (fun _ h => h) _ _).mpr
    (fun sdk => ?_) sdk).mpr hdocumented
  refine Argument.not_stray_of_ascii (lawful latin latin.toAlphabet sdk) (by decide) ?_
  rintro s ⟨⟩ c hc
  have hall : " user:*".toList.all (fun c => visible c || decide (c = ' ')) = true := by decide
  simpa using List.all_eq_true.mp hall c hc

/-- A key with an accent is taken in Go and Java only. -/
theorem accent_differs :
    (javaValidators latin.toAlphabet).check "get" (.key "é") = .ok () ∧
      (goValidators latin.toAlphabet).check "get" (.key "é") = .ok () ∧
      pythonValidators.check "get" (.key "é") ≠ .ok () ∧
      rustValidators.check "get" (.key "é") ≠ .ok () ∧
      nodeValidators.check "get" (.key "é") ≠ .ok () ∧
      ¬ (Argument.key "é").Documented asciiSpace := by
  refine ⟨by decide, by decide, by decide, by decide, by decide, ?_⟩
  intro h
  exact absurd (h.allowed 'é' (by decide)) (by decide)

end Wire

end DittoClient
