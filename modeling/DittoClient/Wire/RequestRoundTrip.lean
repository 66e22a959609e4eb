import DittoClient.Wire.RequestReader
import DittoClient.Wire.RequestVarints

/-!
# The frames of the Python client

The frame that the Python client writes for a request is the length of an envelope and an
envelope that reads as the request, with a lifetime if it is positive, an increment always, and
a namespace if it is not blank.
-/

namespace DittoClient

namespace Wire

open DittoClient.Octets
open DittoClient.Protobuf
open DittoClient.Text

namespace Request

/-- What a frame of the Python client says about a request. -/
def pythonContent : Request → Request
  | .incr key delta ttlSecsOnCreate ns =>
      content pythonSpace (.incr key (some (delta.getD 1)) ttlSecsOnCreate ns)
  | r => r.content pythonSpace

/-- A request with numbers of 64 bits and an envelope that fits in a frame. -/
structure InRange (r : Request) : Prop where
  ttl : ∀ t ∈ r.ttl, 0 ≤ t ∧ t < 2 ^ 64
  delta : ∀ d ∈ r.delta, -2 ^ 63 ≤ d ∧ d < 2 ^ 63
  length : r.pythonContent.envelope.length < 2 ^ 32

end Request

section Content

variable {r : Request}

theorem filter_getD_zero (t : Option ℤ) :
    (some (t.getD 0)).filter (fun t => decide (0 < t)) = t.filter fun t => decide (0 < t) := by
  cases t <;> rfl

/-- The arguments that the Python encoder is called with. -/
theorem python_arguments (r : Request) :
    ∃ args, pythonEncoder.arguments r = .ok args ∧ args.content pythonSpace = r.pythonContent ∧
      (∀ t ∈ args.ttl, t ∈ r.ttl ∨ t = 0) ∧ ∀ d ∈ args.delta, d ∈ r.delta ∨ d = 1 := by
  have hgetD : ∀ {x : Option ℤ} {b : ℤ}, ∀ n ∈ some (x.getD b), n ∈ x ∨ n = b := by
    intro x b n hn
    cases hn
    cases x with
    | none => exact Or.inr rfl
    | some n => exact Or.inl rfl
  have hnone : ∀ {x : Option ℤ} {b : ℤ}, ∀ n ∈ (none : Option ℤ), n ∈ x ∨ n = b :=
    fun n hn => (by cases hn)
  cases r with
  | set key value ttlSecs ns =>
      refine ⟨_, rfl, ?_, hgetD, hnone⟩
      exact congrArg (fun t => Request.set key value t _) (filter_getD_zero ttlSecs)
  | setTtlByPattern pattern ttlSecs ns =>
      refine ⟨_, rfl, ?_, hgetD, hnone⟩
      exact congrArg (fun t => Request.setTtlByPattern pattern t _) (filter_getD_zero ttlSecs)
  | setNx key value ttlSecs ns =>
      refine ⟨_, rfl, ?_, hgetD, hnone⟩
      exact congrArg (fun t => Request.setNx key value t _) (filter_getD_zero ttlSecs)
  | incr key delta ttlSecsOnCreate ns =>
      refine ⟨_, rfl, ?_, hgetD, hgetD⟩
      exact congrArg (fun t => Request.incr key (some (delta.getD 1)) t _)
        (filter_getD_zero ttlSecsOnCreate)
  | _ => exact ⟨_, rfl, rfl, hnone, hnone⟩

/-- The numbers in the content of a request are in range. -/
theorem Request.InRange.content (hr : r.InRange) :
    (∀ t ∈ r.pythonContent.ttl, 0 ≤ t ∧ t < 2 ^ 64) ∧
      ∀ d ∈ r.pythonContent.delta, -2 ^ 63 ≤ d ∧ d < 2 ^ 63 := by
  have httl : ∀ t ∈ r.ttl.filter (fun t => decide (0 < t)), 0 ≤ t ∧ t < 2 ^ 64 :=
    fun t ht => hr.ttl t (Option.filter_eq_some_iff.mp ht).1
  cases r with
  | incr key delta ttlSecsOnCreate ns =>
      refine ⟨httl, fun d hd => ?_⟩
      cases hd
      cases delta with
      | none => decide
      | some d => exact hr.delta d rfl
  | _ => exact ⟨httl, hr.delta⟩

theorem pythonContent_variant (r : Request) : r.pythonContent.variant = r.variant := by
  cases r <;> rfl

/-- The frame of a request in range. -/
theorem python_encode_eq (hr : r.InRange) :
    pythonEncoder.encode r = .ok (framed r.pythonContent.envelope) := by
  obtain ⟨args, hargs, hcontent, httl, hdelta⟩ := python_arguments r
  have httl : ∀ t ∈ args.ttl, t < 2 ^ 64 := by
    intro t ht
    rcases httl t ht with ht | rfl
    · exact (hr.ttl t ht).2
    · decide
  have hdelta : ∀ d ∈ args.delta, -2 ^ 63 ≤ d ∧ d < 2 ^ 63 := by
    intro d hd
    rcases hdelta d hd with hd | rfl
    · exact hr.delta d hd
    · decide
  have hlen : (args.content pythonEncoder.space).envelope.length < 2 ^ 32 :=
    (congrArg (fun c => c.envelope.length) hcontent).trans_lt hr.length
  have hencode := (python_exact (2 ^ 64)).encode (by decide) hargs httl hdelta hlen
  exact hencode.trans (congrArg (fun c => Except.ok (framed c.envelope)) hcontent)

theorem snapshotVariants_eq {k : ℕ} (hk : k ≤ 9) : snapshotVariants k = clientVariants k := by
  match k with
  | 10 => exact absurd hk (by decide)
  | 11 => exact absurd hk (by decide)
  | 0 => rfl
  | 1 => rfl
  | 2 => rfl
  | 3 => rfl
  | 4 => rfl
  | 5 => rfl
  | 6 => rfl
  | 7 => rfl
  | 8 => rfl
  | 9 => rfl
  | k + 12 => omega

end Content

/-- The frame of a request tells its content, so that requests with the same frame have the
same content. -/
theorem python_encode_lossless (r : Request) (hr : r.InRange) :
    ∃ env, pythonEncoder.encode r = .ok (bigEndian 4 env.length ++ env) ∧
      ofBigEndian (bigEndian 4 env.length) = env.length ∧
      readEnvelope clientVariants env = .ok (1, r.pythonContent) ∧
      (r.variant ≤ 9 → readEnvelope snapshotVariants env = .ok (1, r.pythonContent)) ∧
      ∀ r' : Request, r'.InRange → pythonEncoder.encode r' = pythonEncoder.encode r →
        r'.pythonContent = r.pythonContent := by
  have hread : ∀ {variants : Variants} {x : Request}, x.InRange →
      variants x.variant = clientVariants x.variant →
      readEnvelope variants x.pythonContent.envelope = .ok (1, x.pythonContent) := by
    intro variants x hx hknown
    rw [← pythonContent_variant] at hknown
    exact readEnvelope_envelope hknown hx.content.1 hx.content.2 (hx.length.trans (by decide))
  refine ⟨r.pythonContent.envelope, python_encode_eq hr,
    ofBigEndian_bigEndian_of_lt (hr.length.trans_eq (by decide)), hread hr rfl,
    fun hk => hread hr (snapshotVariants_eq hk), fun r' hr' heq => ?_⟩
  rw [python_encode_eq hr, python_encode_eq hr', Except.ok.injEq, framed, framed] at heq
  have henv : r'.pythonContent.envelope = r.pythonContent.envelope :=
    (List.append_inj heq ((length_bigEndian 4 _).trans (length_bigEndian 4 _).symm)).2
  have hsame := (congrArg (readEnvelope clientVariants) henv).symm.trans (hread hr' rfl)
  rw [hread hr rfl] at hsame
  exact (Prod.mk.inj (Except.ok.inj hsame)).2.symm

/-- A request with a blank namespace. -/
theorem python_encode_lossless_set : ∃ env,
    pythonEncoder.encode (.set "k" [1] (some 60) (some " ")) =
        .ok (bigEndian 4 env.length ++ env) ∧
      ofBigEndian (bigEndian 4 env.length) = env.length ∧
      readEnvelope clientVariants env = .ok (1, .set "k" [1] (some 60) none) ∧
      (2 ≤ 9 → readEnvelope snapshotVariants env = .ok (1, .set "k" [1] (some 60) none)) ∧
      ∀ r' : Request, r'.InRange →
        pythonEncoder.encode r' = pythonEncoder.encode (.set "k" [1] (some 60) (some " ")) →
        r'.pythonContent = .set "k" [1] (some 60) none := by
  refine python_encode_lossless (.set "k" [1] (some 60) (some " ")) ⟨?_, ?_, by decide⟩
  · intro t ht
    cases ht
    decide
  · intro d hd
    cases hd

/-- The snapshot has no variant for an increment. -/
theorem python_encode_not_in_snapshot : ∃ env,
    pythonEncoder.encode (.incr "k" (some 5) none none) =
        .ok (bigEndian 4 env.length ++ env) ∧ env.length < 2 ^ 32 ∧
      readEnvelope snapshotVariants env = .error (.malformed "unknown variant") := by
  refine ⟨(Request.pythonContent (.incr "k" (some 5) none none)).envelope, ?_, ?_, ?_⟩
  · rfl
  · decide
  · rfl

end Wire

end DittoClient
