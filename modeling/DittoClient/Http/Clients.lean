import DittoClient.Http.Fetch
import DittoClient.Wire.Service

/-!
# What the five HTTP clients send

What a client sends over HTTP is read back by the server as the request that it was asked for, in
all five languages, and it is the request that the server reads out of a frame of the TCP client of
the same language.
-/

namespace DittoClient

namespace Http

open DittoClient.Octets
open DittoClient.Protobuf
open DittoClient.Text
open DittoClient.Wire

section Escapings

theorem unreserved_ascii {b : UInt8} (h : unreserved b = true) : b.toNat < 128 :=
  (unreserved_byte h).1

/-- Bytes that are kept besides the unreserved ones. -/
theorem ascii_or {b : UInt8} {marks : List UInt8}
    (hmarks : (marks.all fun b => decide (b.toNat < 128)) = true)
    (h : (unreserved b || decide (b ∈ marks)) = true) : b.toNat < 128 :=
  ((Bool.or_eq_true _ _).mp h).elim unreserved_ascii fun hmem =>
    of_decide_eq_true (List.all_eq_true.mp hmarks b (of_decide_eq_true hmem))

def unreservedEscaping : Escaping where
  plain := unreserved
  ascii _ := unreserved_ascii
  percent := rfl
  slash := rfl
  mark := rfl
  hash := rfl
  dot := rfl

def Go.escaping : Escaping where
  plain := Go.plain
  ascii _ := ascii_or rfl
  percent := rfl
  slash := rfl
  mark := rfl
  hash := rfl
  dot := rfl

def Node.escaping : Escaping where
  plain := Node.plain
  ascii _ := ascii_or rfl
  percent := rfl
  slash := rfl
  mark := rfl
  hash := rfl
  dot := rfl

def Java.escaping : Escaping where
  plain := Java.plain
  ascii b h := by
    rcases (Bool.or_eq_true _ _).mp h with h | h
    · exact unreserved_ascii ((Bool.and_eq_true _ _).mp h).1
    · rw [of_decide_eq_true h]
      decide
  percent := rfl
  slash := rfl
  mark := rfl
  hash := rfl
  dot := rfl

theorem Java.flatMap_eq_self {cs : List Char} (h : '+' ∉ cs) :
    (cs.flatMap fun c => if c = '+' then ['%', '2', '0'] else [c]) = cs := by
  induction cs with
  | nil => rfl
  | cons c cs ih =>
      have hc : c ≠ '+' := fun heq => h (heq ▸ List.mem_cons_self)
      rw [List.flatMap_cons, if_neg hc, ih fun hmem => h (List.mem_cons_of_mem c hmem)]
      rfl

/-- The plus signs that stand for spaces are replaced, and there are no others. -/
theorem Java.urlEncode_eq (s : String) : Java.urlEncode s = Java.escaping.encode s := by
  rw [Java.urlEncode, Java.formEncode, List.flatMap_assoc, Escaping.encode, percentEncode]
  refine List.flatMap_congr fun b _ => ?_
  by_cases hspace : b = 0x20
  · rw [if_pos hspace, hspace]
    rfl
  · rw [if_neg hspace]
    change (if Java.plain b = true then [Char.ofNat b.toNat] else percentByte b).flatMap _ =
      if Java.plain b = true then [Char.ofNat b.toNat] else percentByte b
    refine Java.flatMap_eq_self ?_
    cases hb : Java.plain b with
    | true =>
        have hplus : '+' ≠ Char.ofNat b.toNat := by
          intro heq
          have hbytes := utf8EncodeChar_ofNat (Java.escaping.ascii b hb)
          rw [← heq] at hbytes
          rw [← List.singleton_inj.mp hbytes] at hb
          exact absurd hb (by decide)
        rw [if_pos rfl]
        exact fun hmem => hplus (List.mem_singleton.mp hmem)
    | false =>
        intro hmem
        rw [if_neg Bool.false_ne_true] at hmem
        rcases mem_percentByte hmem with h | h
        · exact absurd h (by decide)
        · exact absurd h (by decide)

end Escapings

section Builders

theorem positive_some (n : ℤ) : positive (some n) = if 0 < n then some n else none := by
  rw [positive, Option.filter_some]
  simp only [decide_eq_true_eq]

theorem positive_getD (t : Option ℤ) : positive (some (t.getD 0)) = positive t := by
  cases t with
  | none => rfl
  | some n => rfl

def Python.faithful : Python.builder.Faithful where
  segment := unreservedEscaping
  urlEncode := by
    funext s
    simp only [Python.builder, Python.urlEncode, toList_encodeSegment]
    rfl
  ttl := positive_getD
  deltaJson := integer?_deltaText

def Go.faithful : Go.builder.Faithful where
  segment := Go.escaping
  urlEncode := rfl
  ttl _ := rfl
  deltaJson := integer?_number

def Rust.faithful : Rust.builder.Faithful where
  segment := unreservedEscaping
  urlEncode := by
    funext s
    simp only [Rust.builder, Rust.urlEncode, toList_encodeSegment]
    rfl
  ttl _ := rfl
  deltaJson := integer?_deltaText

def Java.faithful : Java.builder.Faithful where
  segment := Java.escaping
  urlEncode := funext Java.urlEncode_eq
  ttl := positive_getD
  deltaJson := integer?_deltaText

def Node.faithful : Node.builder.Faithful where
  segment := Node.escaping
  urlEncode := rfl
  ttl _ := rfl
  deltaJson := integer?_deltaText

/-- The path of an operation on a key, if the key is escaped to a text. -/
theorem keyPath_of_toList {b : RequestBuilder} {urlEncode : String → String}
    (h : b.urlEncode = fun s => (urlEncode s).toList) (key : String) :
    b.keyPath key = "/key/" ++ urlEncode key := by
  rw [RequestBuilder.keyPath, h, String.ofList_toList]

/-- The requests of the Python client are those that were written down for it. -/
theorem Python.request_eq (r : Wire.Request) : Python.request r = Python.builder.request r := by
  have hquery : ∀ (mark : String) (t : ℤ), Python.ttlQuery mark t = Http.ttlQuery mark
      (positive (some t)) := by
    intro mark t
    rw [Python.ttlQuery, positive_some]
    split <;> rfl
  have hmember : ∀ (name : String) (t : ℤ), Python.ttlMember name t = member name
      (fun n => .number n) (positive (some t)) := by
    intro name t
    rw [Python.ttlMember, positive_some]
    split <;> rfl
  have hpath : ∀ key, Python.builder.keyPath key = "/key/" ++ Python.urlEncode key :=
    keyPath_of_toList (by rw [Python.builder])
  cases r with
  | set key value ttlSecs ns =>
      rw [Python.request, hquery, RequestBuilder.request, hpath]
      rfl
  | setTtlByPattern pattern ttlSecs ns =>
      rw [Python.request, hmember, RequestBuilder.request]
      rfl
  | setNx key value ttlSecs ns =>
      rw [Python.request, hquery, RequestBuilder.request, hpath]
      rfl
  | incr key delta ttlSecsOnCreate ns =>
      rw [Python.request, hmember]
      change _ = some _
      rw [hpath]
      rfl
  | get key ns =>
      rw [Python.request, RequestBuilder.request, hpath]
      rfl
  | delete key ns =>
      rw [Python.request, RequestBuilder.request, hpath]
      rfl
  | _ => rfl

/-- An operation on a key as a request. -/
def Rust.KeyOperation.toRequest (key : String) (ns : Option String) :
    Rust.KeyOperation → Wire.Request
  | .get => .get key ns
  | .set value ttlSecs => .set key value (ttlSecs.map fun t => (t.toNat : ℤ)) ns
  | .setNx value ttlSecs => .setNx key value (ttlSecs.map fun t => (t.toNat : ℤ)) ns
  | .incr delta ttlSecsOnCreate =>
      .incr key (some delta.toInt) (ttlSecsOnCreate.map fun t => (t.toNat : ℤ)) ns
  | .delete => .delete key ns

theorem Rust.positive_toNat (t : Option UInt64) : positive (t.map fun t => (t.toNat : ℤ)) =
    (t.filter fun t => decide (0 < t)).map fun t => (t.toNat : ℤ) := by
  cases t with
  | none => rfl
  | some t =>
      have hpos : 0 < (t.toNat : ℤ) ↔ 0 < t := by
        rw [Int.natCast_pos, UInt64.lt_iff_toNat_lt]
        rfl
      rw [Option.map_some, positive_some, Option.filter_some]
      by_cases ht : 0 < t
      · rw [if_pos (hpos.mpr ht), decide_eq_true ht, if_pos rfl]
        rfl
      · rw [if_neg fun h => ht (hpos.mp h), decide_eq_false ht, if_neg Bool.false_ne_true]
        rfl

/-- The requests of the Rust client are those that were written down for its operations on a key. -/
theorem Rust.request_eq (op : Rust.KeyOperation) (key : String) (ns : Option String) :
    Rust.builder.request (op.toRequest key ns) =
      some ⟨op.method, op.path key, Rust.namespaceHeaderValue ns, op.body⟩ := by
  have hquery : ∀ (mark : String) (t : Option UInt64), Http.ttlQuery mark
      (Rust.builder.ttl (t.map fun t => (t.toNat : ℤ))) = Rust.KeyOperation.ttlQuery mark t := by
    intro mark t
    change Http.ttlQuery mark (positive _) = _
    rw [Rust.positive_toNat, Rust.KeyOperation.ttlQuery]
    cases t.filter fun t => decide (0 < t) <;> rfl
  have hpath : ∀ key, Rust.builder.keyPath key = "/key/" ++ Rust.urlEncode key :=
    keyPath_of_toList (by rw [Rust.builder])
  cases op with
  | get =>
      rw [Rust.KeyOperation.toRequest, RequestBuilder.request, hpath]
      rfl
  | set value ttlSecs =>
      rw [Rust.KeyOperation.toRequest, RequestBuilder.request, hpath, hquery]
      rfl
  | setNx value ttlSecs =>
      rw [Rust.KeyOperation.toRequest, RequestBuilder.request, hpath, hquery]
      rfl
  | incr delta ttlSecsOnCreate =>
      have hdelta : Rust.builder.delta (some delta.toInt) = some (some delta.toInt) := rfl
      have hbody : member "delta" Rust.builder.deltaJson (some delta.toInt) ++
          member "ttl_secs_on_create" (fun n => .number n)
            (Rust.builder.ttl (ttlSecsOnCreate.map fun t => (t.toNat : ℤ))) =
              Rust.KeyOperation.incrPayload delta ttlSecsOnCreate := by
        change _ ++ member _ _ (positive _) = _
        rw [Rust.positive_toNat, Rust.KeyOperation.incrPayload]
        cases ttlSecsOnCreate.filter fun t => decide (0 < t) <;> rfl
      rw [Rust.KeyOperation.toRequest, RequestBuilder.request, hdelta, Option.bind_eq_bind,
        Option.bind_some, hbody, hpath]
      rfl
  | delete =>
      rw [Rust.KeyOperation.toRequest, RequestBuilder.request, hpath]
      rfl

end Builders

section Sending

/-- The numbers of an argument that are of a type. -/
def within (lo hi : ℤ) (n : Option ℤ) : Bool :=
  n.all fun n => decide (lo ≤ n ∧ n < hi)

/-- The value of a `set` is a text. -/
def textual : Wire.Request → Bool
  | .set _ value _ _ => (utf8? value).isSome
  | _ => true

/-- A lifetime is a `u64` in Go and Rust, a `long` in Java and an integer of a double in JavaScript;
an increment is a signed number of 64 bits but in Python and JavaScript. The clients in Go and Rust
`set` any bytes. -/
def takes : Wire.Sdk → Wire.Request → Bool
  | .python, r => textual r
  | .go, r => within 0 (2 ^ 64) r.ttl && within (-2 ^ 63) (2 ^ 63) r.delta
  | .rust, r => within 0 (2 ^ 64) r.ttl && within (-2 ^ 63) (2 ^ 63) r.delta
  | .java, r => textual r && within (-2 ^ 63) (2 ^ 63) r.ttl && within (-2 ^ 63) (2 ^ 63) r.delta
  | .node, r => textual r && within (-2 ^ 53 + 1) (2 ^ 53) r.ttl

/-- The builder of a client. -/
def builder : Wire.Sdk → RequestBuilder
  | .python => Python.builder
  | .go => Go.builder
  | .rust => Rust.builder
  | .java => Java.builder
  | .node => Node.builder

/-- Whether the URL is parsed before it is sent. -/
def parsesUrl : Wire.Sdk → Bool
  | .rust => true
  | .node => true
  | _ => false

variable (go : Letters) (java : Alphabet) (strict : Bool)

/-- The checks of a request; the clients in Go and Rust normalize the namespace first. -/
def resolve : Wire.Sdk → Wire.Request → Except String Wire.Request
  | .python, r => do
      pythonValidators.validate strict r
      .ok r
  | .go, r => do
      let v := goValidators go.toAlphabet
      let r ← v.resolve v.normalizedNamespace strict r
      v.validateSet strict r
      .ok r
  | .rust, r => rustValidators.resolve rustNormalizedNamespace strict r
  | .java, r => do
      (javaValidators java).validate strict r
      .ok r
  | .node, r => do
      nodeValidate strict r
      .ok r

/-- What a client sends, if it takes the arguments and they pass its checks. -/
def send (sdk : Wire.Sdk) (r : Wire.Request) : Option HttpRequest :=
  if takes sdk r then
    match resolve go java strict sdk r with
    | .ok r => ((builder sdk).request r).map (HttpRequest.fetch (parsesUrl sdk))
    | .error _ => none
  else none

end Sending

section Theorems

variable {go : Letters} {java : Alphabet} {strict : Bool} {sdk : Wire.Sdk} {r r' : Wire.Request}
  {h : HttpRequest}

/-- The builder of each client is faithful. -/
def faithful : (sdk : Wire.Sdk) → (builder sdk).Faithful
  | .python => Python.faithful
  | .go => Go.faithful
  | .rust => Rust.faithful
  | .java => Java.faithful
  | .node => Node.faithful

theorem trimmed_trimmed (space : Char → Bool) (ns : Option String) :
    trimmed space (trimmed space ns) = trimmed space ns := by
  cases ns with
  | none => rfl
  | some s =>
      by_cases hempty : trim space s = ""
      · rw [trimmed_some_of_empty hempty]
        rfl
      · rw [trimmed_some_of_ne hempty, trimmed_some_of_ne (by rw [trim_trim]; exact hempty),
          trim_trim]

theorem Go.namespaceHeader_eq (ns : Option String) :
    Go.builder.namespaceHeader ns = trimmed whiteSpace ns := by
  cases ns with
  | none => rfl
  | some s =>
      simp only [Go.builder, Option.bind_some, Go.namespaceHeaderValue]
      by_cases hempty : trim whiteSpace s = ""
      · rw [trimmed_some_of_empty hempty, if_pos hempty]
      · rw [trimmed_some_of_ne hempty, if_neg hempty]

theorem Rust.namespaceHeader_eq (ns : Option String) :
    Rust.builder.namespaceHeader ns = trimmed whiteSpace ns := by
  cases ns with
  | none => rfl
  | some s =>
      simp only [Rust.builder, Rust.namespaceHeaderValue, Option.filter_some]
      by_cases hempty : trim whiteSpace s = ""
      · rw [trimmed_some_of_empty hempty, decide_eq_false (not_not.mpr hempty),
          if_neg Bool.false_ne_true, Option.map_none]
      · rw [trimmed_some_of_ne hempty, decide_eq_true hempty, if_pos rfl, Option.map_some]

/-- The header of a namespace that is trimmed already. -/
theorem delivered_trimmed {b : RequestBuilder}
    (hb : ∀ ns, b.namespaceHeader ns = trimmed whiteSpace ns) (r : Wire.Request) :
    b.delivered (r.change id (trimmed whiteSpace)) = b.delivered r := by
  have hns : ∀ ns, trimmed headerSpace (b.namespaceHeader (trimmed whiteSpace ns)) =
      trimmed headerSpace (b.namespaceHeader ns) := by
    intro ns
    rw [hb, hb, trimmed_trimmed]
  cases r with
  | incr key delta ttlSecsOnCreate ns =>
      simp only [RequestBuilder.delivered, RequestBuilder.arguments, Request.change, id]
      cases b.delta delta with
      | none => rfl
      | some d => simp only [Option.map_some, Request.change, hns]
  | _ => simp only [RequestBuilder.delivered, RequestBuilder.arguments, Request.change, id,
      Option.map_some, Option.map_none, hns]

theorem resolve_eq {v : Validators} (hr : v.resolve v.normalizedNamespace strict r = .ok r') :
    r' = r.change id (trimmed v.space) := by
  obtain ⟨ns, hns, hr⟩ := Rules.bind_eq_ok.mp hr
  obtain ⟨u, -, hr⟩ := Rules.bind_eq_ok.mp hr
  obtain ⟨rfl, -⟩ := Validators.normalizedNamespace_eq_ok_iff.mp hns
  cases hr
  cases r <;> rfl

/-- The request that is built is the one that was asked for, less the spaces around its namespace in
Go and in Rust. -/
theorem resolve_cases (hr : resolve go java strict sdk r = .ok r') :
    r' = r ∨ r' = r.change id (trimmed whiteSpace) ∧
      ∀ ns, (builder sdk).namespaceHeader ns = trimmed whiteSpace ns := by
  cases sdk with
  | python =>
      obtain ⟨u, -, hr⟩ := Rules.bind_eq_ok.mp hr
      cases hr
      exact Or.inl rfl
  | go =>
      obtain ⟨s, hs, hr⟩ := Rules.bind_eq_ok.mp hr
      obtain ⟨u, -, hr⟩ := Rules.bind_eq_ok.mp hr
      cases hr
      have hsame : r' = r.change id (trimmed (goValidators go.toAlphabet).space) := resolve_eq hs
      exact Or.inr ⟨hsame, fun ns => Go.namespaceHeader_eq ns⟩
  | rust =>
      have hnormal : rustNormalizedNamespace = rustValidators.normalizedNamespace :=
        funext fun strict => funext fun ns => rustNormalizedNamespace_eq strict ns
      change rustValidators.resolve rustNormalizedNamespace strict r = .ok r' at hr
      rw [hnormal] at hr
      have hsame : r' = r.change id (trimmed rustValidators.space) := resolve_eq hr
      exact Or.inr ⟨hsame, fun ns => Rust.namespaceHeader_eq ns⟩
  | java =>
      obtain ⟨u, -, hr⟩ := Rules.bind_eq_ok.mp hr
      cases hr
      exact Or.inl rfl
  | node =>
      obtain ⟨u, -, hr⟩ := Rules.bind_eq_ok.mp hr
      cases hr
      exact Or.inl rfl

/-- What was sent was built for a request with the same key that delivers the same. -/
theorem send_cases (hsend : send go java strict sdk r = some h) :
    ∃ r' h', (builder sdk).request r' = some h' ∧ h'.fetch (parsesUrl sdk) = h ∧
      r'.subject = r.subject ∧ r'.text = r.text ∧
      (builder sdk).delivered r' = (builder sdk).delivered r := by
  rw [send, Option.ite_none_right_eq_some] at hsend
  obtain ⟨-, hsend⟩ := hsend
  cases hresolve : resolve go java strict sdk r with
  | error text =>
      rw [hresolve] at hsend
      cases hsend
  | ok r' =>
      rw [hresolve] at hsend
      obtain ⟨h', hrequest, hfetch⟩ := Option.map_eq_some_iff.mp hsend
      refine ⟨r', h', hrequest, hfetch, ?_⟩
      rcases resolve_cases hresolve with rfl | ⟨rfl, hheader⟩
      · exact ⟨rfl, rfl, rfl⟩
      · have hsame : (r.change id (trimmed whiteSpace)).subject = r.subject ∧
            (r.change id (trimmed whiteSpace)).text = r.text := by
          cases r <;> exact ⟨rfl, rfl⟩
        exact ⟨hsame.1, hsame.2, delivered_trimmed hheader r⟩

end Theorems

end Http

end DittoClient
