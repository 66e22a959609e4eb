import DittoClient.Linear.Log
import DittoClient.Octets.Framing
import DittoClient.Wire.LengthPrefix
import DittoClient.Wire.RequestRoundTrip

/-!
# The service behind the protocol

A server cuts a frame at its length and reads the request in its envelope (`readFrame`). What it
reads of a frame that a client has written is the request with the arguments that the encoder was
called with, less a lifetime that is not positive and a blank namespace (`delivered`). A `Service`
answers a request with a response that fits in a frame and is not a watch event, which is pushed.
-/

namespace DittoClient

namespace Wire

open DittoClient.Linear
open DittoClient.Octets
open DittoClient.Protobuf
open DittoClient.Text

/-- The request in a frame, in an envelope of version 1. -/
def readFrame (bs : List UInt8) : Option Request :=
  if 4 ≤ bs.length ∧ ofBigEndian (bs.take 4) = (bs.drop 4).length then
    match readEnvelope clientVariants (bs.drop 4) with
    | .ok (1, r) => some r
    | _ => none
  else none

namespace RequestEncoder

variable (e : RequestEncoder)

/-- The request that a server reads out of the frame that the encoder writes. -/
def reads (r : Request) : Option Request :=
  match e.encode r with
  | .ok bs => readFrame bs
  | .error _ => none

/-- What is written of the arguments that the encoder is called with. -/
def delivered (r : Request) : Except EncodeError Request :=
  (e.arguments r).map (Request.content e.space)

/-- The defaults of an encoder: a lifetime of 0, and an increment of 1. -/
structure Defaulting (e : RequestEncoder) : Prop where
  ttl : ∀ t, ∀ n ∈ e.ttl t, n ∈ t ∨ n = 0
  delta : ∀ d d', e.delta d = .ok d' → ∀ n ∈ d', n ∈ d ∨ n = 1

end RequestEncoder

/-- A request with a lifetime and an increment of 64 bits with a sign, and an envelope that fits in
a frame of 2^32 bytes. -/
structure Conveys (e : RequestEncoder) (r x : Request) : Prop where
  delivered : e.delivered r = .ok x
  ttl : ∀ t ∈ r.ttl, t < 2 ^ 63
  delta : ∀ d ∈ r.delta, -2 ^ 63 ≤ d ∧ d < 2 ^ 63
  length : x.envelope.length < 2 ^ 32

section Reading

theorem readFrame_framed {x : Request} (hlen : x.envelope.length < 2 ^ 32)
    (hread : readEnvelope clientVariants x.envelope = .ok (1, x)) :
    readFrame (framed x.envelope) = some x := by
  obtain ⟨hfour, hprefix⟩ := (prefixExact_framed_iff x.envelope).mpr hlen
  rw [readFrame, if_pos ⟨hfour, hprefix⟩, drop_framed, hread]
  rfl

/-- The numbers in the arguments are those of the request, or defaults. -/
theorem RequestEncoder.Defaulting.arguments {e : RequestEncoder} (he : e.Defaulting)
    {r args : Request} (hargs : e.arguments r = .ok args) :
    (∀ t ∈ args.ttl, t ∈ r.ttl ∨ t = 0) ∧ ∀ d ∈ args.delta, d ∈ r.delta ∨ d = 1 := by
  have hkeep : ∀ {x : Option ℤ} {b : ℤ}, ∀ n ∈ x, n ∈ x ∨ n = b := fun n hn => Or.inl hn
  cases r with
  | set key value ttlSecs ns =>
      cases hargs
      exact ⟨he.ttl ttlSecs, hkeep⟩
  | setTtlByPattern pattern ttlSecs ns =>
      cases hargs
      exact ⟨he.ttl ttlSecs, hkeep⟩
  | setNx key value ttlSecs ns =>
      cases hargs
      exact ⟨he.ttl ttlSecs, hkeep⟩
  | incr key delta ttlSecsOnCreate ns =>
      rw [RequestEncoder.arguments] at hargs
      cases hd : e.delta delta with
      | error err =>
          rw [hd] at hargs
          cases hargs
      | ok d =>
          rw [hd] at hargs
          cases hargs
          exact ⟨he.ttl ttlSecsOnCreate, he.delta delta d hd⟩
  | _ =>
      cases hargs
      exact ⟨hkeep, hkeep⟩

theorem Request.content_ttl (space : Char → Bool) (r : Request) :
    (r.content space).ttl = r.ttl.filter fun t => decide (0 < t) := by
  cases r <;> rfl

theorem Request.content_delta (space : Char → Bool) (r : Request) :
    (r.content space).delta = r.delta := by
  cases r <;> rfl

variable {e : RequestEncoder} {bound : ℕ} {r x : Request}

/-- The arguments of a request that is conveyed are those that the encoder writes. -/
theorem RequestEncoder.Defaulting.conveys (hdefault : e.Defaulting) (hr : Conveys e r x) :
    ∃ args, e.arguments r = .ok args ∧ args.content e.space = x ∧
      (∀ t ∈ args.ttl, t < 2 ^ 63) ∧ ∀ d ∈ args.delta, -2 ^ 63 ≤ d ∧ d < 2 ^ 63 := by
  obtain ⟨hdelivered, httl, hdelta, -⟩ := hr
  obtain ⟨args, hargs, rfl⟩ : ∃ args, e.arguments r = .ok args ∧ args.content e.space = x := by
    rw [RequestEncoder.delivered] at hdelivered
    cases hargs : e.arguments r with
    | error err =>
        rw [hargs] at hdelivered
        cases hdelivered
    | ok args =>
        rw [hargs] at hdelivered
        exact ⟨args, rfl, Except.ok.inj hdelivered⟩
  obtain ⟨httl', hdelta'⟩ := hdefault.arguments hargs
  refine ⟨args, hargs, rfl, fun t ht => ?_, fun d hd => ?_⟩
  · rcases httl' t ht with ht | rfl
    · exact httl t ht
    · decide
  · rcases hdelta' d hd with hd | rfl
    · exact hdelta d hd
    · decide

/-- The envelope of the request that is delivered is written behind its length. -/
theorem RequestEncoder.Exact.encode_conveys (he : e.Exact bound) (hbound : 2 ^ 63 ≤ bound)
    (hdefault : e.Defaulting) (hr : Conveys e r x) : e.encode r = .ok (framed x.envelope) := by
  obtain ⟨args, hargs, rfl, httl, hdelta⟩ := hdefault.conveys hr
  exact he.encode (by omega) hargs (fun t ht => (httl t ht).trans_le (by exact_mod_cast hbound))
    hdelta hr.length

/-- The server reads the request that is delivered. -/
theorem RequestEncoder.Exact.reads_eq (he : e.Exact bound) (hbound : 2 ^ 63 ≤ bound)
    (hdefault : e.Defaulting) (hr : Conveys e r x) : e.reads r = some x := by
  have hencode := he.encode_conveys hbound hdefault hr
  obtain ⟨args, -, rfl, httl, hdelta⟩ := hdefault.conveys hr
  have hlen := hr.length
  have hread : readEnvelope clientVariants (args.content e.space).envelope =
      .ok (1, args.content e.space) := by
    refine readEnvelope_envelope rfl (fun t ht => ?_) (fun d hd => ?_) (by omega)
    · rw [Request.content_ttl] at ht
      obtain ⟨ht, hpos⟩ := Option.filter_eq_some_iff.mp ht
      have hlt := httl t ht
      have hpos := of_decide_eq_true hpos
      omega
    · rw [Request.content_delta] at hd
      exact hdelta d hd
  rw [RequestEncoder.reads, hencode]
  exact readFrame_framed hlen hread

end Reading

section Encoders

theorem getD_mem {t : Option ℤ} {b : ℤ} : ∀ n ∈ some (t.getD b), n ∈ t ∨ n = b := by
  intro n hn
  cases hn
  cases t with
  | none => exact Or.inr rfl
  | some n => exact Or.inl rfl

theorem python_defaulting : pythonEncoder.Defaulting where
  ttl _ := getD_mem
  delta d d' h := by
    cases h
    exact getD_mem

theorem go_defaulting : goEncoder.Defaulting where
  ttl _ _ := Or.inl
  delta d d' h n hn := by
    cases h
    exact Or.inl hn

theorem rust_defaulting : rustEncoder.Defaulting where
  ttl _ _ := Or.inl
  delta d d' h n hn := by
    cases d with
    | none => cases h
    | some d =>
        cases h
        exact Or.inl hn

theorem java_defaulting : javaEncoder.Defaulting where
  ttl _ := getD_mem
  delta d d' h := by
    cases h
    exact getD_mem

theorem node_defaulting : nodeEncoder.Defaulting where
  ttl _ _ := Or.inl
  delta d d' h n hn := by
    cases h
    exact Or.inl hn

/-- The encoders of the five clients write what they should, with defaults that fit. -/
theorem exact_of_mem {e : RequestEncoder}
    (he : e ∈ [pythonEncoder, goEncoder, rustEncoder, javaEncoder, nodeEncoder]) :
    ∃ bound, 2 ^ 63 ≤ bound ∧ e.Exact bound ∧ e.Defaulting := by
  simp only [List.mem_cons, List.not_mem_nil, or_false] at he
  rcases he with rfl | rfl | rfl | rfl | rfl
  · exact ⟨_, le_rfl, python_exact (2 ^ 63), python_defaulting⟩
  · exact ⟨_, by decide, go_exact, go_defaulting⟩
  · exact ⟨_, by decide, rust_exact, rust_defaulting⟩
  · exact ⟨_, le_rfl, java_exact, java_defaulting⟩
  · exact ⟨_, le_rfl, node_exact (2 ^ 63), node_defaulting⟩

/-- A server reads the frames of all five clients. -/
theorem reads_of_conveys {e : RequestEncoder}
    (he : e ∈ [pythonEncoder, goEncoder, rustEncoder, javaEncoder, nodeEncoder]) {r x : Request}
    (hr : Conveys e r x) : e.reads r = some x := by
  obtain ⟨bound, hbound, hexact, hdefault⟩ := exact_of_mem he
  exact hexact.reads_eq hbound hdefault hr

/-- A server reads the default increment of the Java client, without the blank namespace. -/
theorem reads_of_conveys_incr : javaEncoder.reads (.incr "k" none (some 60) (some " ")) =
    some (.incr "k" (some 1) (some 60) none) :=
  reads_of_conveys (by simp) ⟨rfl, by decide, by decide, by decide⟩

/-- Two frames, of any of the five clients, are the same if and only if they deliver the same
request. -/
theorem frames_eq_iff {e e' : RequestEncoder}
    (he : e ∈ [pythonEncoder, goEncoder, rustEncoder, javaEncoder, nodeEncoder])
    (he' : e' ∈ [pythonEncoder, goEncoder, rustEncoder, javaEncoder, nodeEncoder])
    {r r' x x' : Request} (hr : Conveys e r x) (hr' : Conveys e' r' x') :
    e.encode r = e'.encode r' ↔ x = x' := by
  obtain ⟨bound, hbound, hexact, hdefault⟩ := exact_of_mem he
  obtain ⟨bound', hbound', hexact', hdefault'⟩ := exact_of_mem he'
  constructor
  · intro hframe
    have hreads : e.reads r = e'.reads r' := by
      rw [RequestEncoder.reads, RequestEncoder.reads, hframe]
    rw [hexact.reads_eq hbound hdefault hr, hexact'.reads_eq hbound' hdefault' hr'] at hreads
    exact Option.some.inj hreads
  · rintro rfl
    rw [hexact.encode_conveys hbound hdefault hr, hexact'.encode_conveys hbound' hdefault' hr']

/-- The default increment in Java and an increment by one in Go, with a blank namespace or none. -/
theorem frames_eq_incr : javaEncoder.encode (.incr "k" none (some 60) (some " ")) =
    goEncoder.encode (.incr "k" (some 1) (some 60) none) := by
  have hjava : Conveys javaEncoder (.incr "k" none (some 60) (some " "))
      (.incr "k" (some 1) (some 60) none) := ⟨rfl, by decide, by decide, by decide⟩
  have hgo : Conveys goEncoder (.incr "k" (some 1) (some 60) none)
      (.incr "k" (some 1) (some 60) none) := ⟨rfl, by decide, by decide, by decide⟩
  exact (frames_eq_iff (by simp) (by simp) hjava hgo).mpr rfl

end Encoders

/-- A service that answers requests. -/
structure Service (σ : Type*) extends Machine σ Request ServerResponse where
  answers : ∀ s r key value version, (handle s r).2 ≠ .watchEvent key value version
  fits : ∀ s r, (handle s r).2.encode.length < 2 ^ 31

namespace Service

variable {σ : Type*} (M : Service σ)

/-- The frame with the response to a request. -/
def payload (s : σ) (r : Request) : Payload where
  bytes := (M.handle s r).2.encode
  length_lt := (M.fits s r).trans (by decide)

/-- What a dialect makes of a response that is sent. -/
theorem decode_payload {d : Dialect} {F : Format} {size : ℕ} (h : d.Follows F size)
    (hd : d.Plain) (hF : F.Standard) (hsize : 2 ^ 31 - 1 ≤ size) (s : σ) (r : Request)
    (x : ClientResponse) :
    d.decodeResponse (M.payload s r).bytes = .ok x ↔ d.meaning (M.handle s r).2 = .ok x := by
  have hlt := M.fits s r
  have hencodes := encodes_encode hF (M.handle s r).2 (by omega)
  refine Dialect.decodeResponse_encodes h hd ?_ hencodes x
  omega

end Service

end Wire

end DittoClient
