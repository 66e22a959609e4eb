import DittoClient.Http.PythonRequests
import DittoClient.Wire.Delivery
import DittoClient.Wire.Extent
import DittoClient.Wire.RustDecoding

/-!
# What the Python clients send in strict mode

In strict mode the Python clients trim a pattern and a namespace before they look at the
characters, but what they look at is not what they send: both send the pattern as it was given, and
the TCP client sends the namespace so as well. What is sent is of the grammar if and only if there
was nothing to trim (`strict_emits_iff`).
-/

namespace DittoClient

namespace Wire

open DittoClient.Text

/-- The marks in a text. -/
def Subject.marks : Subject → List Char
  | .key => Wire.marks
  | .pattern => wildMarks

/-- The text that is looked at. -/
def Subject.checked : Subject → String → String
  | .key, s => s
  | .pattern, s => trim pythonSpace s

/-- What the validators of the Python client take. -/
theorem python_validate_iff (r : Request) : pythonValidators.validate true r = .ok () ↔
    (∀ subject ∈ r.subject, Word (documented subject.marks) (subject.checked r.text)) ∧
      ∀ n ∈ r.ns, Word (documented marks) (trim pythonSpace n) ∧ NoColons (trim pythonSpace n) := by
  have hkey : ∀ op key ns, pythonValidators.validateCoreInputs true op key ns = .ok () ↔
      (∀ subject ∈ some Subject.key, Word (documented subject.marks) (subject.checked key)) ∧
        ∀ n ∈ ns, Word (documented marks) (trim pythonSpace n) ∧
          NoColons (trim pythonSpace n) := by
    intro op key ns
    rw [validateCoreInputs_iff, check_key_iff python_lawful, check_ns_iff]
    simp only [Option.mem_def, Option.some.injEq, forall_eq']
    rfl
  have hpattern : ∀ op pattern ns,
      pythonValidators.validatePatternInputs true op pattern ns = .ok () ↔
      (∀ subject ∈ some Subject.pattern,
        Word (documented subject.marks) (subject.checked pattern)) ∧
        ∀ n ∈ ns, Word (documented marks) (trim pythonSpace n) ∧
          NoColons (trim pythonSpace n) := by
    intro op pattern ns
    rw [validatePatternInputs_iff, check_pattern_iff, check_ns_iff]
    simp only [Option.mem_def, Option.some.injEq, forall_eq']
    rfl
  cases r with
  | ping => exact iff_of_true rfl ⟨nofun, nofun⟩
  | auth token => exact iff_of_true rfl ⟨nofun, nofun⟩
  | deleteByPattern pattern ns => exact hpattern ..
  | setTtlByPattern pattern ttlSecs ns => exact hpattern ..
  | get key ns => exact hkey ..
  | set key value ttlSecs ns => exact hkey ..
  | delete key ns => exact hkey ..
  | watch key ns => exact hkey ..
  | unwatch key ns => exact hkey ..
  | setNx key value ttlSecs ns => exact hkey ..
  | incr key delta ttlSecsOnCreate ns => exact hkey ..

end Wire

namespace Http

namespace Python

open DittoClient.Octets
open DittoClient.Protobuf
open DittoClient.Text
open DittoClient.Wire

inductive Transport
  | tcp
  | http
  deriving DecidableEq, Repr

/-- What is sent for a call. -/
inductive Emission
  | frame (bs : List UInt8)
  | request (h : HttpRequest)

/-- What a client sends for an operation. Nothing is sent if the call is rejected, if the frame
cannot be written or if the client has no such operation. -/
def emit (strict : Bool) (r : Wire.Request) : Transport → Option Emission
  | .http => (send strict r).map .request
  | .tcp =>
      match pythonValidators.validate strict r with
      | .ok () => (pythonEncoder.encode r).toOption.map .frame
      | .error _ => none

/-- A reader finds this key or pattern in what is sent. -/
def Emission.HasText (r : Wire.Request) (subject : Subject) : Emission → String → Prop
  | .frame bs, s => ∃ inner, Delivers referenceFormat bs r.variant inner ∧
      Holds referenceFormat 1 (.bytes (utf8Bytes s)) inner
  | .request h, s =>
      match subject with
      | .key => h.key? = some s
      | .pattern => h.pattern? = some s

/-- A reader finds this namespace in what is sent. -/
def Emission.HasNamespace (r : Wire.Request) : Emission → String → Prop
  | .frame bs, n => ∃ inner w, Delivers referenceFormat bs r.variant inner ∧
      Holds referenceFormat r.nsNumber (.bytes w) inner ∧ Holds referenceFormat 1 (.bytes (utf8Bytes n)) w
  | .request h, n => h.ns = some n

/-- A namespace as it is sent. -/
def Transport.sent : Transport → String → String
  | .tcp, n => n
  | .http, n => trim pythonSpace n

/-- What is sent for an operation consists of words of the grammar. -/
structure Grammatical (r : Wire.Request) (e : Emission) : Prop where
  text : ∀ subject ∈ r.subject, ∃ s, e.HasText r subject s ∧ Word (documented subject.marks) s
  ns : ∀ n, e.HasNamespace r n → Word (documented marks) n ∧ NoColons n

/-- There is nothing to trim in what is sent as it was given. -/
structure Untrimmed (t : Transport) (r : Wire.Request) : Prop where
  pattern : r.subject = some .pattern → trim pythonSpace r.text = r.text
  ns : t = .tcp → ∀ n ∈ r.ns, trim pythonSpace n = n

section Words

variable {cs : List Char} {s : String}

/-- There is nothing to trim in a word. -/
theorem trim_word (hcs : ∀ c ∈ cs, visible c = true) (h : Word (documented cs) s) :
    trim pythonSpace s = s := by
  have hplain : ∀ c ∈ s.toList, pythonSpace c = false := by
    intro c hc
    rcases Bool.or_eq_true_iff.mp (h.allowed c hc) with halpha | hmark
    · exact pythonSpace_of_visible (visible_of_isAlphanum halpha)
    · exact pythonSpace_of_visible (hcs c (of_decide_eq_true hmark))
  exact trim_eq_self (fun c hc => hplain c (List.mem_of_mem_head? hc))
    fun c hc => hplain c (List.mem_of_getLast? hc)

theorem word_ne_empty (h : Word (documented cs) (trim pythonSpace s)) : s ≠ "" := by
  rintro rfl
  exact h.ne_empty rfl

end Words

section Frames

variable {r : Wire.Request} {s n : String}

theorem pythonContent_text (r : Wire.Request) : r.pythonContent.text = r.text := by
  cases r <;> rfl

theorem pythonContent_nsNumber (r : Wire.Request) : r.pythonContent.nsNumber = r.nsNumber := by
  cases r <;> rfl

theorem pythonContent_ns (r : Wire.Request) :
    r.pythonContent.ns = r.ns.filter fun n => !blank pythonSpace n := by
  cases r <;> rfl

variable (hlen : r.pythonContent.envelope.length < 2 ^ 64)
include hlen

theorem delivers_frame : Delivers referenceFormat (framed r.pythonContent.envelope) r.variant
    (encodeMessage r.pythonContent.slots) := by
  rw [← pythonContent_variant]
  exact delivers_envelope reference_standard hlen

/-- The text in a frame is the one that was given. -/
theorem hasText_frame (hne : r.text ≠ "") (subject : Subject) :
    Emission.HasText r subject (.frame (framed r.pythonContent.envelope)) s ↔ s = r.text := by
  have hheld : Holds referenceFormat 1 (.bytes (utf8Bytes r.text))
      (encodeMessage r.pythonContent.slots) := by
    rw [← pythonContent_text] at hne ⊢
    exact Request.holds_text reference_standard hlen hne
  constructor
  · rintro ⟨inner, hdelivers, hs⟩
    obtain rfl := hdelivers.unique (delivers_frame hlen)
    exact utf8Bytes_inj (Content.bytes.inj (hs.unique hheld))
  · rintro rfl
    exact ⟨_, delivers_frame hlen, hheld⟩

/-- The namespace in a frame is the one that was given, unless it is blank. -/
theorem hasNamespace_frame : Emission.HasNamespace r (.frame (framed r.pythonContent.envelope)) n ↔
    n ∈ r.pythonContent.ns := by
  have hheld : ∀ m ∈ r.pythonContent.ns, Holds referenceFormat r.nsNumber
      (.bytes (encodeMessage [textSlot 1 m])) (encodeMessage r.pythonContent.slots) ∧
      Holds referenceFormat 1 (.bytes (utf8Bytes m)) (encodeMessage [textSlot 1 m]) := by
    intro m hm
    have hne : m ≠ "" := by
      rintro rfl
      rw [pythonContent_ns, Option.mem_def, Option.filter_eq_some_iff] at hm
      exact absurd hm.2 (by decide)
    have hns := Request.holds_ns reference_standard hlen hm hne
    rwa [pythonContent_nsNumber] at hns
  constructor
  · rintro ⟨inner, w, hdelivers, hw, hn⟩
    obtain rfl := hdelivers.unique (delivers_frame hlen)
    cases hns : r.pythonContent.ns with
    | none =>
        have hlacks := Request.lacks reference_standard hlen (Request.nsNumber_not_mem hns)
        rw [pythonContent_nsNumber] at hlacks
        exact absurd hlacks hw.not_lacks
    | some m =>
        obtain ⟨hwrapper, htext⟩ := hheld m hns
        obtain rfl := Content.bytes.inj (hw.unique hwrapper)
        exact congrArg some (utf8Bytes_inj (Content.bytes.inj (htext.unique hn)))
  · intro hn
    obtain ⟨hwrapper, htext⟩ := hheld n hn
    exact ⟨_, _, delivers_frame hlen, hwrapper, htext⟩

end Frames

section Emissions

variable {r : Wire.Request} {t : Transport} {e : Emission} {s n : String}

/-- What is sent passed the checks. -/
theorem emit_cases (h : e ∈ emit true r t) : pythonValidators.validate true r = .ok () ∧
    ((t = .tcp ∧ r.pythonContent.envelope.length < 2 ^ 32 ∧
        e = .frame (framed r.pythonContent.envelope)) ∨
      (t = .http ∧ ∃ sent, request r = some sent ∧ e = .request sent)) := by
  cases hvalid : pythonValidators.validate true r with
  | error err => cases t <;> simp [emit, send, hvalid] at h
  | ok u =>
      refine ⟨rfl, ?_⟩
      cases t with
      | tcp =>
          simp only [emit, hvalid] at h
          cases hencode : pythonEncoder.encode r with
          | error err =>
              rw [hencode] at h
              cases h
          | ok bs =>
              rw [hencode] at h
              cases h
              obtain ⟨hlen, rfl⟩ := (Unbounded.encode_eq_ok_iff .python r).mp hencode
              exact Or.inl ⟨rfl, hlen, rfl⟩
      | http =>
          simp only [emit, send, hvalid] at h
          obtain ⟨sent, hsent, rfl⟩ := Option.mem_map.mp h
          exact Or.inr ⟨rfl, sent, hsent, rfl⟩

/-- The text in what is sent is the one that was given. -/
theorem hasText_iff (h : e ∈ emit true r t) {subject : Subject} (hsubject : subject ∈ r.subject) :
    e.HasText r subject s ↔ s = r.text := by
  obtain ⟨hvalid, ⟨rfl, hlen, rfl⟩ | ⟨rfl, sent, hsent, rfl⟩⟩ := emit_cases h
  · refine hasText_frame (hlen.trans (by decide)) ?_ subject
    have hword := ((python_validate_iff r).mp hvalid).1 subject hsubject
    cases subject with
    | key => exact hword.ne_empty
    | pattern => exact word_ne_empty hword
  · cases subject with
    | key =>
        change sent.key? = some s ↔ _
        rw [key?_request hsent hsubject, Option.some.injEq, eq_comm]
    | pattern =>
        change sent.pattern? = some s ↔ _
        rw [pattern?_request hsent hsubject, Option.some.injEq, eq_comm]

/-- The TCP client sends a namespace as it was given, the HTTP client trims it. -/
theorem hasNamespace_iff (h : e ∈ emit true r t) :
    e.HasNamespace r n ↔ ∃ m ∈ r.ns, n = t.sent m := by
  obtain ⟨hvalid, ⟨rfl, hlen, rfl⟩ | ⟨rfl, sent, hsent, rfl⟩⟩ := emit_cases h
  · have hblank : ∀ m ∈ r.ns, blank pythonSpace m = false := fun m hm => by
      have hne := (((python_validate_iff r).mp hvalid).2 m hm).1.ne_empty
      rwa [Ne, trim_eq_empty_iff, Bool.not_eq_true] at hne
    rw [hasNamespace_frame (hlen.trans (by decide)), pythonContent_ns, Option.mem_def,
      Option.filter_eq_some_iff]
    constructor
    · rintro ⟨hn, -⟩
      exact ⟨n, hn, rfl⟩
    · rintro ⟨m, hm, rfl⟩
      exact ⟨hm, congrArg not (hblank _ hm)⟩
  · change sent.ns = some n ↔ _
    rw [ns_request hsent]
    cases hns : r.ns with
    | none => exact ⟨nofun, nofun⟩
    | some m =>
        have hne := (((python_validate_iff r).mp hvalid).2 m hns).1.ne_empty
        have hheader : namespaceHeaders (some m) = some (trim pythonSpace m) := if_neg hne
        rw [hheader, Option.some.injEq, eq_comm]
        exact ⟨fun hn => ⟨m, rfl, hn⟩, fun ⟨m', hm, hn⟩ => Option.some.inj hm ▸ hn⟩

/-- What is sent is of the grammar if and only if there was nothing to trim. -/
theorem grammatical_iff (h : e ∈ emit true r t) : Grammatical r e ↔ Untrimmed t r := by
  obtain ⟨hvalid, -⟩ := emit_cases h
  obtain ⟨htext, hns⟩ := (python_validate_iff r).mp hvalid
  constructor
  · intro hg
    refine ⟨fun hsubject => ?_, ?_⟩
    · obtain ⟨s, hs, hword⟩ := hg.text .pattern hsubject
      rw [hasText_iff h hsubject] at hs
      rw [← hs]
      exact trim_word visible_wildMarks hword
    · rintro rfl n hn
      exact trim_word visible_marks (hg.ns n ((hasNamespace_iff h).mpr ⟨n, hn, rfl⟩)).1
  · intro hu
    refine ⟨fun subject hsubject => ⟨r.text, (hasText_iff h hsubject).mpr rfl, ?_⟩, ?_⟩
    · have hword := htext subject hsubject
      cases subject with
      | key => exact hword
      | pattern =>
          rw [Subject.checked, hu.pattern hsubject] at hword
          exact hword
    · intro n hn
      obtain ⟨m, hm, rfl⟩ := (hasNamespace_iff h).mp hn
      have hword := hns m hm
      cases t with
      | tcp =>
          rw [hu.ns rfl m hm] at hword
          exact hword
      | http => exact hword

theorem untrimmed_of_emit (h : e ∈ emit true r t) (hall : ∀ e ∈ emit true r t, Grammatical r e) :
    Untrimmed t r :=
  (grammatical_iff h).mp (hall e h)

end Emissions

/-- All that is sent for a call in strict mode is of the grammar if and only if there is nothing to
trim in its pattern and, over TCP, in its namespace, or the call is rejected, or its arguments do
not fit in a frame. -/
theorem strict_emits_iff (r : Wire.Request) (t : Transport) :
    (∀ e ∈ emit true r t, Grammatical r e) ↔
      (pythonValidators.validate true r = .ok () → Untrimmed t r) ∨
        (t = .tcp ∧ 2 ^ 32 ≤ r.pythonContent.extent) := by
  rw [← Wire.Request.length_envelope]
  constructor
  · intro hall
    cases hemit : emit true r t with
    | some e => exact Or.inl fun _ => untrimmed_of_emit hemit hall
    | none =>
        cases t with
        | tcp =>
            refine or_iff_not_imp_right.mpr fun hfits hvalid => ?_
            have hlen : r.pythonContent.envelope.length < 2 ^ 32 :=
              not_le.mp fun hle => hfits ⟨rfl, hle⟩
            have hencode := (Unbounded.encode_eq_ok_iff .python r).mpr ⟨hlen, rfl⟩
            change pythonEncoder.encode r = _ at hencode
            simp [emit, hvalid, hencode, Except.toOption] at hemit
        | http =>
            refine Or.inl fun hvalid => ⟨fun hsubject => ?_, nofun⟩
            simp only [emit, send, hvalid, Option.map_eq_none_iff] at hemit
            cases r with
            | deleteByPattern pattern ns => cases hemit
            | setTtlByPattern pattern ttlSecs ns => cases hemit
            | _ => cases hsubject
  · rintro hcond e he
    obtain ⟨hvalid, hcases⟩ := emit_cases he
    rcases hcond with hu | ⟨rfl, hlong⟩
    · exact (grammatical_iff he).mpr (hu hvalid)
    · rcases hcases with ⟨-, hlen, -⟩ | ⟨htcp, -⟩
      · exact absurd hlen (not_lt.mpr hlong)
      · cases htcp

/-- A pattern with a space before it is sent with the space over both transports, and a namespace
with spaces around it over TCP. -/
theorem strict_emits_spaces :
    (¬ ∀ e ∈ emit true (.deleteByPattern " user:*" none) .tcp,
      Grammatical (.deleteByPattern " user:*" none) e) ∧
    (¬ ∀ e ∈ emit true (.deleteByPattern " user:*" none) .http,
      Grammatical (.deleteByPattern " user:*" none) e) ∧
    ¬ ∀ e ∈ emit true (.watch "k" (some " ns ")) .tcp,
      Grammatical (.watch "k" (some " ns ")) e := by
  refine ⟨fun h => ?_, fun h => ?_, fun h => ?_⟩
  · exact absurd ((untrimmed_of_emit rfl h).pattern rfl) (by decide)
  · exact absurd ((untrimmed_of_emit rfl h).pattern rfl) (by decide)
  · exact absurd ((untrimmed_of_emit rfl h).ns rfl " ns " rfl) (by decide)

end Python

end Http

end DittoClient
