import DittoClient.Wire.RequestVarints

/-!
# Agreement of the request encoders

The encoders write the same frame for a request with an increment that is given, a lifetime
that a double holds exactly, and a namespace that is absent or has visible characters at its
ends.
-/

namespace DittoClient

namespace Wire

open DittoClient.Protobuf
open DittoClient.Text

namespace Request

/-- The requests that can be made through every client, with a namespace that no client takes
for blank. -/
structure Common (r : Request) : Prop where
  ttl : ∀ t ∈ r.ttl, 0 ≤ t ∧ t < 2 ^ 53
  delta : ∀ key delta ttlSecsOnCreate ns, r = .incr key delta ttlSecsOnCreate ns →
    ∃ d, delta = some d ∧ -2 ^ 63 ≤ d ∧ d < 2 ^ 63
  ns : ∀ ns ∈ r.ns, (∃ c ∈ ns.toList.head?, visible c = true) ∧
    ∃ c ∈ ns.toList.getLast?, visible c = true

/-- The frame of a request with a namespace that is not blank. -/
def frame (r : Request) : List UInt8 :=
  framed (r.content fun _ => false).envelope

end Request

/-- What the encoders agree on in their defaults and spaces. -/
structure RequestEncoder.Usual (e : RequestEncoder) : Prop where
  ttl : ∀ t, e.ttl t = t ∨ e.ttl t = some (t.getD 0)
  delta : ∀ d, e.delta (some d) = .ok (some d)
  space : ∀ c, visible c = true → e.space c = false

theorem python_usual : pythonEncoder.Usual :=
  ⟨fun _ => Or.inr rfl, fun _ => rfl, fun _ => pythonSpace_of_visible⟩

theorem go_usual : goEncoder.Usual :=
  ⟨fun _ => Or.inl rfl, fun _ => rfl, fun _ => whiteSpace_of_visible⟩

theorem rust_usual : rustEncoder.Usual :=
  ⟨fun _ => Or.inl rfl, fun _ => rfl, fun _ => whiteSpace_of_visible⟩

theorem java_usual : javaEncoder.Usual :=
  ⟨fun _ => Or.inr rfl, fun _ => rfl, fun _ => javaSpace_of_visible⟩

theorem node_usual : nodeEncoder.Usual :=
  ⟨fun _ => Or.inl rfl, fun _ => rfl, fun _ => nodeSpace_of_visible⟩

section Usual

variable {e : RequestEncoder} {r : Request}

/-- The default of a lifetime is not written. -/
theorem RequestEncoder.Usual.filter_ttl (he : e.Usual) (t : Option ℤ) :
    (e.ttl t).filter (fun t => decide (0 < t)) = t.filter fun t => decide (0 < t) := by
  rcases he.ttl t with h | h
  · rw [h]
  · rw [h]
    cases t <;> rfl

theorem RequestEncoder.Usual.ttl_lt (he : e.Usual) {t : Option ℤ} (ht : ∀ s ∈ t, s < 2 ^ 53) :
    ∀ s ∈ e.ttl t, s < 2 ^ 53 := by
  rcases he.ttl t with h | h
  · rwa [h]
  · rw [h]
    intro s hs
    cases hs
    cases t with
    | none => decide
    | some s => exact ht s rfl

/-- A namespace that begins with a visible character is written. -/
theorem RequestEncoder.Usual.filter_ns (he : e.Usual) {ns : Option String}
    (hns : ∀ s ∈ ns, ∃ c ∈ s.toList.head?, visible c = true) :
    ns.filter (fun ns => !blank e.space ns) = ns.filter fun ns => !blank (fun _ => false) ns := by
  cases ns with
  | none => rfl
  | some s =>
      obtain ⟨c, hc, hvisible⟩ := hns s rfl
      obtain ⟨cs, hs⟩ := List.head?_eq_some_iff.mp hc
      have hblank : blank (fun _ => false) s = false := not_blank_of_head hs rfl
      simp only [Option.filter_some, not_blank_of_head hs (he.space c hvisible), hblank]

/-- The arguments that an encoder is called with have the content of the request. -/
theorem RequestEncoder.Usual.arguments (he : e.Usual) (hr : r.Common) :
    ∃ args, e.arguments r = .ok args ∧ args.content e.space = r.content (fun _ => false) ∧
      (∀ t ∈ args.ttl, t < 2 ^ 53) ∧ ∀ d ∈ args.delta, -2 ^ 63 ≤ d ∧ d < 2 ^ 63 := by
  have hns : r.ns.filter (fun ns => !blank e.space ns) =
      r.ns.filter fun ns => !blank (fun _ => false) ns :=
    he.filter_ns fun s hs => (hr.ns s hs).1
  have httl : ∀ t ∈ e.ttl r.ttl, t < 2 ^ 53 := he.ttl_lt fun t ht => (hr.ttl t ht).2
  have hnone : ∀ t ∈ (none : Option ℤ), t < 2 ^ 53 := fun t ht => (by cases ht)
  have hdelta : ∀ d ∈ (none : Option ℤ), -2 ^ 63 ≤ d ∧ d < 2 ^ 63 := fun d hd => (by cases hd)
  cases r with
  | get key ns => exact ⟨_, rfl, congrArg (Request.get key) hns, hnone, hdelta⟩
  | set key value ttlSecs ns =>
      exact ⟨_, rfl, congrArg₂ (Request.set key value) (he.filter_ttl ttlSecs) hns, httl, hdelta⟩
  | delete key ns => exact ⟨_, rfl, congrArg (Request.delete key) hns, hnone, hdelta⟩
  | ping => exact ⟨_, rfl, rfl, hnone, hdelta⟩
  | auth token => exact ⟨_, rfl, rfl, hnone, hdelta⟩
  | watch key ns => exact ⟨_, rfl, congrArg (Request.watch key) hns, hnone, hdelta⟩
  | unwatch key ns => exact ⟨_, rfl, congrArg (Request.unwatch key) hns, hnone, hdelta⟩
  | deleteByPattern pattern ns =>
      exact ⟨_, rfl, congrArg (Request.deleteByPattern pattern) hns, hnone, hdelta⟩
  | setTtlByPattern pattern ttlSecs ns =>
      exact ⟨_, rfl, congrArg₂ (Request.setTtlByPattern pattern) (he.filter_ttl ttlSecs) hns,
        httl, hdelta⟩
  | setNx key value ttlSecs ns =>
      exact ⟨_, rfl, congrArg₂ (Request.setNx key value) (he.filter_ttl ttlSecs) hns, httl,
        hdelta⟩
  | incr key delta ttlSecsOnCreate ns =>
      obtain ⟨d, rfl, hd⟩ := hr.delta key delta ttlSecsOnCreate ns rfl
      refine ⟨.incr key (some d) (e.ttl ttlSecsOnCreate) ns, ?_, ?_, httl, ?_⟩
      · rw [RequestEncoder.arguments, he.delta]
        rfl
      · exact congrArg₂ (Request.incr key (some d)) (he.filter_ttl ttlSecsOnCreate) hns
      · intro d' hd'
        cases hd'
        exact hd

/-- A request that can be made through every client is written canonically. -/
theorem RequestEncoder.Usual.encode {bound : ℕ} (he : e.Usual) (hexact : e.Exact bound)
    (hbound : 2 ^ 53 ≤ bound) (hr : r.Common) (hlen : r.frame.length < 2 ^ 32) :
    e.encode r = .ok r.frame := by
  obtain ⟨args, hargs, hcontent, httl, hdelta⟩ := he.arguments hr
  have henv : (args.content e.space).envelope.length < 2 ^ 32 := by
    rw [hcontent]
    rw [Request.frame, framed, List.length_append] at hlen
    omega
  have hencode := hexact.encode (by omega) hargs (fun t ht => (httl t ht).trans_le (by omega))
    hdelta henv
  rwa [hcontent] at hencode

end Usual

/-- The request encoders of the five clients. -/
def requestEncoders : List RequestEncoder :=
  [pythonEncoder, goEncoder, rustEncoder, javaEncoder, nodeEncoder]

/-- The encoders write the same frame for a request. -/
theorem encoders_agree (r : Request) (hr : r.Common) (hlen : r.frame.length < 2 ^ 31) :
    ∀ e ∈ requestEncoders, e.encode r = .ok r.frame := by
  have hlen : r.frame.length < 2 ^ 32 := by omega
  simp only [requestEncoders, List.forall_mem_cons]
  exact ⟨python_usual.encode (python_exact (2 ^ 64)) (by decide) hr hlen,
    go_usual.encode go_exact (by decide) hr hlen, rust_usual.encode rust_exact (by decide) hr hlen,
    java_usual.encode java_exact (by decide) hr hlen,
    node_usual.encode (node_exact (2 ^ 64)) (by decide) hr hlen, List.forall_mem_nil _⟩

/-- An increment by -1 with a namespace. -/
theorem encoders_agree_incr :
    (Request.incr "k" (some (-1)) (some 60) (some "n")).frame.length < 2 ^ 31 ∧
      ∀ e ∈ requestEncoders, e.encode (.incr "k" (some (-1)) (some 60) (some "n")) =
        .ok (Request.incr "k" (some (-1)) (some 60) (some "n")).frame := by
  refine ⟨by decide, encoders_agree _ ⟨?_, ?_, ?_⟩ (by decide)⟩
  · intro t ht
    cases ht
    decide
  · intro key delta ttl ns h
    cases h
    exact ⟨-1, rfl, by decide⟩
  · intro ns hns
    cases hns
    exact ⟨⟨'n', rfl, rfl⟩, 'n', rfl, rfl⟩

end Wire

end DittoClient
