import DittoClient.Wire.RequestAgreement
import DittoClient.Wire.RequestRoundTrip
import DittoClient.Wire.Validation

/-!
# Namespaces across clients

The namespace that reaches the server should depend on the argument only and not on the client.
The Python TCP client encodes the argument as it is. Its HTTP client, its normalization and the
clients in Go and Rust trim the argument first, so that all agree if and only if there is
nothing to trim.
-/

namespace DittoClient

namespace Wire

open DittoClient.Octets
open DittoClient.Protobuf
open DittoClient.Text

/-- The namespace that an encoder writes, if it writes one. -/
def RequestEncoder.writtenNamespace (e : RequestEncoder) (ns : Option String) : Option String :=
  if e.hasNamespace ns then ns else none

/-- The namespace in the frame of the Python TCP client. -/
def pythonTcp (strict : Bool) (r : Request) : Except String (Option String) := do
  pythonValidators.validate strict r
  .ok (pythonEncoder.writtenNamespace r.ns)

/-- The header `X-Ditto-Namespace`. -/
def namespaceHeaders : Option String → Option String
  | none => none
  | some ns =>
      let normalized := trim pythonSpace ns
      if normalized = "" then none else some normalized

/-- The namespace in the headers of the Python HTTP client. -/
def pythonHttp (strict : Bool) (r : Request) : Except String (Option String) := do
  pythonValidators.validate strict r
  .ok (namespaceHeaders r.ns)

/-- A request with its namespace normalized, which is checked after that. -/
def Validators.resolve (v : Validators)
    (normalize : Bool → Option String → Except String (Option String)) (strict : Bool)
    (r : Request) : Except String Request := do
  let ns ← normalize strict r.ns
  v.validate strict (r.change id fun _ => ns)
  .ok (r.change id fun _ => ns)

/-- The Go client checks a `set` once more before it is sent. -/
def Validators.validateSet (v : Validators) (strict : Bool) : Request → Except String Unit
  | .set key _ _ ns => v.validateCoreInputs strict "set" key ns
  | _ => .ok ()

/-- The namespace in the frame of the Go client. -/
def goTcp (alphabet : Alphabet) (strict : Bool) (r : Request) : Except String (Option String) := do
  let v := goValidators alphabet
  let r ← v.resolve v.normalizedNamespace strict r
  v.validateSet strict r
  .ok (goEncoder.writtenNamespace r.ns)

/-- The namespace in the frame of the Rust client. -/
def rustTcp (strict : Bool) (r : Request) : Except String (Option String) := do
  let r ← rustValidators.resolve rustNormalizedNamespace strict r
  .ok (rustEncoder.writtenNamespace r.ns)

/-- There are no watches over HTTP. -/
def Request.overHttp : Request → Bool
  | .watch _ _ => false
  | .unwatch _ _ => false
  | _ => true

/-- What the clients make of the namespace of a request. -/
def namespaces (alphabet : Alphabet) (strict : Bool) (r : Request) :
    List (Except String (Option String)) :=
  [pythonTcp strict r, pythonValidators.normalizedNamespace strict r.ns, goTcp alphabet strict r,
    rustTcp strict r] ++ if r.overHttp then [pythonHttp strict r] else []

/-- The clients that do not reject the request make the same of its namespace. -/
def OneNamespace (alphabet : Alphabet) (strict : Bool) (r : Request) : Prop :=
  ∃ n, ∀ outcome ∈ namespaces alphabet strict r, ∀ m, outcome = .ok m → m = n

section Written

variable {e : RequestEncoder}

/-- What is written of a request has the namespace that is written. -/
theorem content_ns (e : RequestEncoder) (r : Request) :
    (r.content e.space).ns = e.writtenNamespace r.ns := by
  have hfilter : ∀ ns : Option String,
      (ns.filter fun ns => !blank e.space ns) = e.writtenNamespace ns := by
    intro ns
    cases ns with
    | none => rfl
    | some ns => rw [Option.filter_some]; rfl
  cases r with
  | ping => rfl
  | auth token => rfl
  | _ => exact hfilter _

/-- A server reads the namespace that an encoder writes. -/
theorem read_namespace {bound : ℕ} (he : e.Exact bound) (hbound : 2 ^ 32 ≤ bound)
    {r args : Request} (hargs : e.arguments r = .ok args)
    (httl : ∀ t ∈ args.ttl, t < bound ∧ t < 2 ^ 64)
    (hdelta : ∀ d ∈ args.delta, -2 ^ 63 ≤ d ∧ d < 2 ^ 63)
    (hlen : (args.content e.space).envelope.length < 2 ^ 32) :
    ∃ env r', e.encode r = .ok (framed env) ∧ readEnvelope clientVariants env = .ok (1, r') ∧
      r'.ns = e.writtenNamespace r.ns := by
  have hns : args.ns = r.ns := by
    cases r with
    | incr key delta ttlSecsOnCreate ns =>
        rw [RequestEncoder.arguments] at hargs
        cases hdelta : e.delta delta with
        | error err => rw [hdelta] at hargs; cases hargs
        | ok d => rw [hdelta] at hargs; cases hargs; rfl
    | _ => cases hargs; rfl
  have hcontent : (∀ t ∈ (args.content e.space).ttl, 0 ≤ t ∧ t < 2 ^ 64) ∧
      ∀ d ∈ (args.content e.space).delta, -2 ^ 63 ≤ d ∧ d < 2 ^ 63 := by
    have hpositive : ∀ t ∈ args.ttl.filter (fun t => decide (0 < t)), 0 ≤ t ∧ t < 2 ^ 64 := by
      intro t ht
      have hmem := Option.filter_eq_some_iff.mp ht
      exact ⟨(of_decide_eq_true hmem.2).le, (httl t hmem.1).2⟩
    cases args <;> exact ⟨hpositive, hdelta⟩
  refine ⟨(args.content e.space).envelope, args.content e.space,
    he.encode hbound hargs (fun t ht => (httl t ht).1) hdelta hlen, ?_, ?_⟩
  · exact readEnvelope_envelope rfl hcontent.1 hcontent.2 (hlen.trans (by decide))
  · rw [content_ns, hns]

theorem writtenNamespace_of_blank {s : String} (h : blank e.space s = true) :
    e.writtenNamespace (some s) = none := by
  rw [RequestEncoder.writtenNamespace, RequestEncoder.hasNamespace, h]
  rfl

theorem writtenNamespace_of_not_blank {s : String} (h : blank e.space s = false) :
    e.writtenNamespace (some s) = some s := by
  rw [RequestEncoder.writtenNamespace, RequestEncoder.hasNamespace, h]
  rfl

/-- A trimmed namespace is written as it is. -/
theorem writtenNamespace_trimmed (e : RequestEncoder) (ns : Option String) :
    e.writtenNamespace (trimmed e.space ns) = trimmed e.space ns := by
  cases ns with
  | none => rfl
  | some s =>
      by_cases hempty : trim e.space s = ""
      · rw [trimmed_some_of_empty hempty]
        rfl
      · rw [trimmed_some_of_ne hempty]
        refine writtenNamespace_of_not_blank ?_
        rw [blank_eq_decide, trim_trim, decide_eq_false hempty]

theorem namespaceHeaders_eq (ns : Option String) :
    namespaceHeaders ns = trimmed pythonSpace ns := by
  cases ns with
  | none => rfl
  | some s =>
      rw [namespaceHeaders]
      by_cases hempty : trim pythonSpace s = ""
      · rw [trimmed_some_of_empty hempty, if_pos hempty]
      · rw [trimmed_some_of_ne hempty, if_neg hempty]

end Written

section Outcomes

variable {v : Validators} {alphabet : Alphabet} {strict : Bool} {r r' : Request}
  {m : Option String}

theorem change_ns_trimmed (space : Char → Bool) (r : Request) :
    (r.change id fun _ => trimmed space r.ns).ns = trimmed space r.ns := by
  cases r <;> rfl

/-- The namespace of a request that is resolved. -/
theorem resolve_ok (h : v.resolve v.normalizedNamespace strict r = .ok r') :
    r'.ns = trimmed v.space r.ns ∧ (strict = true → ∀ n ∈ r.ns, v.StrictNamespace n) := by
  obtain ⟨ns, hns, h⟩ := Rules.bind_eq_ok.mp h
  obtain ⟨u, hvalid, h⟩ := Rules.bind_eq_ok.mp h
  obtain ⟨rfl, hstrict⟩ := Validators.normalizedNamespace_eq_ok_iff.mp hns
  cases h
  exact ⟨change_ns_trimmed v.space r, hstrict⟩

theorem goTcp_ok (h : goTcp alphabet strict r = .ok m) :
    m = trimmed whiteSpace r.ns ∧
      (strict = true → ∀ n ∈ r.ns, (goValidators alphabet).StrictNamespace n) := by
  obtain ⟨r', hr', h⟩ := Rules.bind_eq_ok.mp h
  obtain ⟨u, -, h⟩ := Rules.bind_eq_ok.mp h
  obtain ⟨hns, hstrict⟩ := resolve_ok hr'
  cases h
  rw [hns]
  exact ⟨writtenNamespace_trimmed goEncoder r.ns, hstrict⟩

theorem rustTcp_eq (strict : Bool) (r : Request) :
    rustTcp strict r = (rustValidators.resolve rustValidators.normalizedNamespace strict r >>=
      fun r => .ok (rustEncoder.writtenNamespace r.ns)) := by
  rw [rustTcp, Validators.resolve, rustNormalizedNamespace_eq]
  rfl

theorem rustTcp_ok (h : rustTcp strict r = .ok m) :
    m = trimmed whiteSpace r.ns ∧
      (strict = true → ∀ n ∈ r.ns, rustValidators.StrictNamespace n) := by
  rw [rustTcp_eq] at h
  obtain ⟨r', hr', h⟩ := Rules.bind_eq_ok.mp h
  obtain ⟨hns, hstrict⟩ := resolve_ok hr'
  cases h
  rw [hns]
  exact ⟨writtenNamespace_trimmed rustEncoder r.ns, hstrict⟩

/-- Without strict mode nothing is rejected. -/
theorem rustTcp_lenient (r : Request) : rustTcp false r = .ok (trimmed whiteSpace r.ns) := by
  have hnormal := Validators.normalizedNamespace_of_validate
    (Validators.validate_lenient (v := rustValidators) r)
  rw [rustTcp_eq, Validators.resolve, hnormal]
  change (rustValidators.validate false (r.change id fun _ => trimmed whiteSpace r.ns) >>=
    fun _ => Except.ok (r.change id fun _ => trimmed whiteSpace r.ns)) >>= _ = _
  rw [Validators.validate_lenient]
  change Except.ok (rustEncoder.writtenNamespace
    (r.change id fun _ => trimmed whiteSpace r.ns).ns) = _
  rw [change_ns_trimmed]
  exact congrArg Except.ok (writtenNamespace_trimmed rustEncoder r.ns)

/-- A separator is not a letter or a digit. -/
theorem Alphabet.holds_separator (alphabet : Alphabet) {c : Char} (h : separator c = true) :
    alphabet.holds c = false := by
  have hrange := of_decide_eq_true h
  rw [alphabet.ascii c (by omega), Bool.eq_false_iff, ne_eq, isAlphanum_iff]
  omega

theorem isAlphanum_separator {c : Char} (h : separator c = true) : c.isAlphanum = false :=
  Alphabet.holds_separator ⟨Char.isAlphanum, fun _ _ => rfl⟩ h

/-- A token has no separators in it. -/
theorem not_separator_of_token (hv : ∀ c, separator c = true → v.alphanumeric c = false)
    {s : String} (h : v.isStrictToken s = true) : ∀ c ∈ s.toList, separator c = false := by
  intro c hc
  have hchar := List.all_eq_true.mp h c hc
  cases hsep : separator c with
  | false => rfl
  | true =>
      rw [hv c hsep, Bool.false_or, decide_eq_true_iff] at hchar
      have hnot : ∀ d ∈ ['-', '_', '.', ':'], separator d = false :=
        List.forall_iff_forall_mem.mp ⟨rfl, rfl, rfl, rfl⟩
      rw [hnot c hchar] at hsep
      cases hsep

/-- All languages trim a strict namespace to the same text. -/
theorem trimmed_of_strict (hspace : v.space = whiteSpace)
    (hv : ∀ c, separator c = true → v.alphanumeric c = false) {ns : Option String}
    (h : ∀ n ∈ ns, v.StrictNamespace n) : trimmed whiteSpace ns = trimmed pythonSpace ns := by
  cases ns with
  | none => rfl
  | some s =>
      have hs := (h s rfl).token
      rw [hspace] at hs
      rw [trimmed, trimmed, Option.map_some, Option.map_some,
        trim_pythonSpace (not_separator_of_token hv hs)]

end Outcomes

/-- A namespace that is blank or has no spaces around it. -/
def Tidy (ns : Option String) : Prop :=
  ∀ s ∈ ns, blank whiteSpace s = true ∨ trim pythonSpace s = s

section Tidy

variable {alphabet : Alphabet} {strict : Bool} {r : Request} {ns : Option String}

/-- The Python TCP client encodes what is left of a tidy namespace. -/
theorem Tidy.written (h : Tidy ns) :
    pythonEncoder.writtenNamespace ns = trimmed pythonSpace ns := by
  cases ns with
  | none => rfl
  | some s =>
      cases hblank : blank pythonSpace s with
      | true =>
          rw [trimmed_some_of_empty (trim_eq_empty_iff.mpr hblank)]
          exact writtenNamespace_of_blank hblank
      | false =>
          have hself : trim pythonSpace s = s := by
            rcases h s rfl with hwhite | hself
            · rw [blank_of_imp pythonSpace_of_whiteSpace hwhite] at hblank
              cases hblank
            · exact hself
          rw [trimmed_some_of_ne (trim_ne_empty hblank), hself]
          exact writtenNamespace_of_not_blank hblank

/-- All languages trim a tidy namespace to the same text. -/
theorem Tidy.trimmed (h : Tidy ns) : trimmed whiteSpace ns = trimmed pythonSpace ns := by
  cases ns with
  | none => rfl
  | some s =>
      rcases h s rfl with hwhite | hself
      · have hpython := blank_of_imp pythonSpace_of_whiteSpace hwhite
        rw [trimmed_some_of_empty (trim_eq_empty_iff.mpr hwhite),
          trimmed_some_of_empty (trim_eq_empty_iff.mpr hpython)]
      · have hwhite : trim whiteSpace s = trim pythonSpace s := by
          have htrim := trim_of_imp_trim pythonSpace_of_whiteSpace s
          rwa [hself] at htrim ⊢
        rw [Text.trimmed, Text.trimmed, Option.map_some, Option.map_some, hwhite]

/-- A namespace that the Python client takes is tidy if its TCP client encodes what its HTTP
client sends and the Rust client encodes the same. -/
theorem tidy_of_outcomes (hvalid : pythonValidators.validate strict r = .ok ())
    (hwritten : pythonEncoder.writtenNamespace r.ns = trimmed pythonSpace r.ns)
    (hlenient : strict = false → trimmed whiteSpace r.ns = trimmed pythonSpace r.ns) :
    Tidy r.ns := by
  intro s hs
  rw [Option.mem_def.mp hs] at hwritten hlenient
  cases hblank : blank pythonSpace s with
  | false =>
      rw [trimmed_some_of_ne (trim_ne_empty hblank)] at hwritten
      rw [writtenNamespace_of_not_blank hblank] at hwritten
      exact Or.inr (Option.some.inj hwritten).symm
  | true =>
      have hempty := trim_eq_empty_iff.mpr hblank
      cases strict with
      | true =>
          exact absurd hempty (Validators.validate_strictNamespace hvalid s hs).present
      | false =>
          refine Or.inl (trim_eq_empty_iff.mp ?_)
          by_contra hne
          have heq := hlenient rfl
          rw [trimmed_some_of_empty hempty, trimmed_some_of_ne hne] at heq
          cases heq

end Tidy

section Clients

variable {alphabet : Alphabet} {strict : Bool} {r : Request} {m : Option String}

theorem pythonTcp_of_valid (h : pythonValidators.validate strict r = .ok ()) :
    pythonTcp strict r = .ok (pythonEncoder.writtenNamespace r.ns) := by
  rw [pythonTcp, h]
  rfl

theorem pythonTcp_ok (h : pythonTcp strict r = .ok m) :
    pythonValidators.validate strict r = .ok () ∧ m = pythonEncoder.writtenNamespace r.ns := by
  obtain ⟨u, hvalid, h⟩ := Rules.bind_eq_ok.mp h
  exact ⟨hvalid, (Except.ok.inj h).symm⟩

theorem pythonHttp_ok (h : pythonHttp strict r = .ok m) : m = trimmed pythonSpace r.ns := by
  obtain ⟨u, -, h⟩ := Rules.bind_eq_ok.mp h
  rw [← namespaceHeaders_eq]
  exact (Except.ok.inj h).symm

/-- What the clients that trim make of a namespace, if they trim it to the same text. -/
theorem outcome_of_trimmed
    (hwritten : pythonValidators.validate strict r = .ok () →
      pythonEncoder.writtenNamespace r.ns = trimmed pythonSpace r.ns)
    (hgo : ∀ m, goTcp alphabet strict r = .ok m → m = trimmed pythonSpace r.ns)
    (hrust : ∀ m, rustTcp strict r = .ok m → m = trimmed pythonSpace r.ns) :
    OneNamespace alphabet strict r := by
  refine ⟨trimmed pythonSpace r.ns, fun outcome hmem m hm => ?_⟩
  rw [namespaces, List.mem_append] at hmem
  simp only [List.mem_cons, List.not_mem_nil, or_false] at hmem
  rcases hmem with (rfl | rfl | rfl | rfl) | hmem
  · obtain ⟨hvalid, hm⟩ := pythonTcp_ok hm
    exact hm.trans (hwritten hvalid)
  · exact (Validators.normalizedNamespace_eq_ok_iff.mp hm).1
  · exact hgo m hm
  · exact hrust m hm
  · cases hhttp : r.overHttp
    · rw [hhttp, if_neg Bool.false_ne_true] at hmem
      exact absurd hmem List.not_mem_nil
    · rw [hhttp, if_pos rfl, List.mem_singleton] at hmem
      exact pythonHttp_ok (hmem ▸ hm)

end Clients

/-- The clients make the same of the namespace of a request if and only if it is tidy or the
Python client rejects the request. -/
theorem one_namespace (alphabet : Alphabet) (strict : Bool) (r : Request) :
    OneNamespace alphabet strict r ↔
      pythonValidators.validate strict r ≠ .ok () ∨ Tidy r.ns := by
  constructor
  · rintro ⟨n, hn⟩
    by_cases hvalid : pythonValidators.validate strict r = .ok ()
    · have hmem : ∀ x ∈ [pythonTcp strict r, pythonValidators.normalizedNamespace strict r.ns,
          goTcp alphabet strict r, rustTcp strict r], x ∈ namespaces alphabet strict r :=
        fun x hx => List.mem_append_left _ hx
      have hwritten := hn _ (hmem _ (by simp)) _ (pythonTcp_of_valid hvalid)
      have hnormal := hn _ (hmem _ (by simp)) _
        (Validators.normalizedNamespace_of_validate hvalid)
      refine Or.inr (tidy_of_outcomes hvalid (hwritten.trans hnormal.symm) ?_)
      rintro rfl
      exact (hn _ (hmem _ (by simp)) _ (rustTcp_lenient r)).trans hnormal.symm
    · exact Or.inl hvalid
  · rintro (hinvalid | htidy)
    · -- Only the strict mode rejects a request.
      have hstrict : strict = true := by
        cases strict with
        | false => exact absurd (Validators.validate_lenient r) hinvalid
        | true => rfl
      refine outcome_of_trimmed (fun h => absurd h hinvalid) (fun m hm => ?_) fun m hm => ?_
      · obtain ⟨rfl, hns⟩ := goTcp_ok hm
        exact trimmed_of_strict rfl (fun c => alphabet.holds_separator) (hns hstrict)
      · obtain ⟨rfl, hns⟩ := rustTcp_ok hm
        exact trimmed_of_strict rfl (fun c => isAlphanum_separator) (hns hstrict)
    · exact outcome_of_trimmed (fun _ => htidy.written)
        (fun m hm => (goTcp_ok hm).1.trans htidy.trimmed)
        fun m hm => (rustTcp_ok hm).1.trans htidy.trimmed

/-- A namespace with a space before and after it. -/
theorem not_one_namespace : ¬ ∀ alphabet strict r, OneNamespace alphabet strict r := by
  intro h
  obtain ⟨n, hn⟩ := h ⟨Char.isAlphanum, fun _ _ => rfl⟩ false (.get "k" (some " tenant "))
  have htcp := hn (.ok (some " tenant ")) (by decide) _ rfl
  have hhttp := hn (.ok (some "tenant")) (by decide) _ rfl
  rw [← hhttp] at htcp
  exact absurd htcp (by decide)

end Wire

end DittoClient
