import DittoClient.Http.Clients
import DittoClient.Wire.Service

/-!
# One request for both transports

A namespace of printable characters reaches the server in the same way from all clients, although
they differ in what they take for a space. So what a server reads of an operation depends neither
on the language of the client nor on the transport.
-/

namespace DittoClient

namespace Http

open DittoClient.Octets
open DittoClient.Text
open DittoClient.Wire

/-- A text of visible characters of ASCII, spaces and tabs. -/
def Printable (s : String) : Prop :=
  ∀ c ∈ s.toList, visible c = true ∨ headerSpace c = true

instance (s : String) : Decidable (Printable s) :=
  List.decidableBAll (fun c => visible c = true ∨ headerSpace c = true) s.toList

/-- A request as a server should read it: without a lifetime that is not positive, and without the
spaces around its namespace. -/
def canonical : Wire.Request → Wire.Request :=
  Request.change positive (trimmed headerSpace)

/-- The encoder of the TCP client. -/
def encoder : Wire.Sdk → RequestEncoder
  | .python => pythonEncoder
  | .go => goEncoder
  | .rust => rustEncoder
  | .java => javaEncoder
  | .node => nodeEncoder

section Spaces

variable {space space' : Char → Bool} {s : String} {ns : Option String}

/-- What is taken off a text depends on its own characters only. -/
theorem trim_congr (h : ∀ c ∈ s.toList, space c = space' c) : trim space s = trim space' s := by
  have hsub : ∀ {p q : Char → Bool} {cs : List Char}, (∀ c ∈ cs, p c = q c) →
      cs.dropWhile p = cs.dropWhile q := by
    intro p q cs hcs
    induction cs with
    | nil => rfl
    | cons c cs ih =>
        obtain ⟨hc, hcs⟩ := List.forall_mem_cons.mp hcs
        rw [List.dropWhile_cons, List.dropWhile_cons, hc, ih hcs]
  rw [trim, trim, hsub h, List.rdropWhile, List.rdropWhile, hsub]
  intro c hc
  exact h c (List.dropWhile_sublist _ |>.subset (List.mem_reverse.mp hc))

theorem trimmed_congr (h : ∀ n ∈ ns, ∀ c ∈ n.toList, space c = space' c) :
    trimmed space ns = trimmed space' ns := by
  cases ns with
  | none => rfl
  | some n =>
      rw [trimmed, trimmed, Option.map_some, Option.map_some, trim_congr (h n rfl)]

theorem blank_congr (h : ∀ c ∈ s.toList, space c = space' c) : blank space s = blank space' s := by
  rw [blank_eq_decide, blank_eq_decide, trim_congr h]

/-- A space of a language that is one of ASCII. -/
structure Usual (space : Char → Bool) : Prop where
  spaces : ∀ c, headerSpace c = true → space c = true
  visible : ∀ c, visible c = true → space c = false

theorem headerSpace_of_visible {c : Char} (h : visible c = true) : headerSpace c = false := by
  rw [headerSpace, decide_eq_false_iff_not]
  rintro (rfl | rfl)
  · exact absurd h (by decide)
  · exact absurd h (by decide)

theorem usual_of (hspace : space ' ' = true) (htab : space '\t' = true)
    (hvisible : ∀ c, visible c = true → space c = false) : Usual space where
  spaces c hc := by
    rcases of_decide_eq_true hc with rfl | rfl
    · exact hspace
    · exact htab
  visible := hvisible

theorem Usual.eq (h : Usual space) (hs : Printable s) :
    ∀ c ∈ s.toList, space c = headerSpace c := by
  intro c hc
  rcases hs c hc with hv | hv
  · rw [h.visible c hv, headerSpace_of_visible hv]
  · rw [h.spaces c hv, hv]

/-- The spaces of the languages. -/
theorem usual_encoder (sdk : Wire.Sdk) : Usual (encoder sdk).space := by
  cases sdk with
  | python => exact usual_of (by decide) (by decide) fun _ => pythonSpace_of_visible
  | go => exact usual_of (by decide) (by decide) fun _ => whiteSpace_of_visible
  | rust => exact usual_of (by decide) (by decide) fun _ => whiteSpace_of_visible
  | java => exact usual_of (by decide) (by decide) fun _ => javaSpace_of_visible
  | node => exact usual_of (by decide) (by decide) fun _ => nodeSpace_of_visible

/-- The header of each client, less the white space around it, is the namespace less this space. -/
theorem header_printable (sdk : Wire.Sdk) (hns : ∀ n ∈ ns, Printable n) :
    trimmed headerSpace ((builder sdk).namespaceHeader ns) = trimmed headerSpace ns := by
  have hsame : ∀ n ∈ ns, ∀ c ∈ n.toList, (encoder sdk).space c = headerSpace c :=
    fun n hn => (usual_encoder sdk).eq (hns n hn)
  have htrimmed : trimmed (encoder sdk).space ns = trimmed headerSpace ns := trimmed_congr hsame
  have hheader : (builder sdk).namespaceHeader ns = trimmed (encoder sdk).space ns →
      trimmed headerSpace ((builder sdk).namespaceHeader ns) = trimmed headerSpace ns := by
    intro heq
    rw [heq, htrimmed, trimmed_trimmed]
  cases sdk with
  | python => exact hheader (namespaceHeaders_eq ns)
  | go => exact hheader (Go.namespaceHeader_eq ns)
  | rust => exact hheader (Rust.namespaceHeader_eq ns)
  | node => exact hheader rfl
  | java =>
      cases ns with
      | none => rfl
      | some n =>
          have hblank : blank javaSpace n = blank headerSpace n := blank_congr (hsame n rfl)
          change trimmed headerSpace ((some n).filter fun ns => !blank javaSpace ns) = _
          rw [Option.filter_some, hblank]
          cases hb : blank headerSpace n with
          | true =>
              rw [trimmed_some_of_empty (trim_eq_empty_iff.mpr hb)]
              rfl
          | false => rfl

end Spaces

section Requests

variable {go : Letters} {java : Alphabet} {strict : Bool} {sdk : Wire.Sdk} {r x : Wire.Request}
  {h : HttpRequest}

/-- What is delivered over HTTP is the same for all clients. -/
theorem delivered_canonical (sdk : Wire.Sdk) (hns : ∀ n ∈ r.ns, Printable n)
    (hdelta : ∀ key ttl ns, r ≠ .incr key none ttl ns) (hr : (builder sdk).delivered r ≠ none) :
    (builder sdk).delivered r = some (canonical r) := by
  have hheader := header_printable sdk hns
  cases r with
  | incr key delta ttlSecsOnCreate ns =>
      cases delta with
      | none => exact absurd rfl (hdelta key ttlSecsOnCreate ns)
      | some d =>
          have hsent : (builder sdk).delta (some d) = some (some d) := by
            cases sdk <;> rfl
          rw [RequestBuilder.delivered, RequestBuilder.arguments, hsent]
          exact congrArg (fun ns => some (Request.incr key (some d) (positive ttlSecsOnCreate) ns))
            hheader
  | auth token => exact absurd rfl hr
  | watch key ns => exact absurd rfl hr
  | unwatch key ns => exact absurd rfl hr
  | get key ns => exact congrArg (fun ns => some (Request.get key ns)) hheader
  | set key value ttlSecs ns =>
      exact congrArg (fun ns => some (Request.set key value (positive ttlSecs) ns)) hheader
  | delete key ns => exact congrArg (fun ns => some (Request.delete key ns)) hheader
  | ping => rfl
  | deleteByPattern pattern ns =>
      exact congrArg (fun ns => some (Request.deleteByPattern pattern ns)) hheader
  | setTtlByPattern pattern ttlSecs ns =>
      exact congrArg (fun ns => some (Request.setTtlByPattern pattern (positive ttlSecs) ns))
        hheader
  | setNx key value ttlSecs ns =>
      exact congrArg (fun ns => some (Request.setNx key value (positive ttlSecs) ns)) hheader

/-- What is sent was built for a request with the same key, and delivers the canonical form. -/
theorem send_canonical (hsend : send go java strict sdk r = some h)
    (hns : ∀ n ∈ r.ns, Printable n) (hdelta : ∀ key ttl ns, r ≠ .incr key none ttl ns) :
    ∃ r' h', (builder sdk).request r' = some h' ∧ h'.fetch (parsesUrl sdk) = h ∧
      r'.subject = r.subject ∧ r'.text = r.text ∧
      (builder sdk).delivered r' = some (canonical r) := by
  obtain ⟨r', h', hrequest, hfetch, hsubject, htext, hdelivered⟩ := send_cases hsend
  refine ⟨r', h', hrequest, hfetch, hsubject, htext, ?_⟩
  rw [hdelivered]
  refine delivered_canonical sdk hns hdelta ?_
  rw [← hdelivered]
  exact RequestBuilder.delivered_ne_none hrequest

/-- In all five languages, a server reads what is sent over HTTP as the canonical form of the
operation if and only if the key is not empty and, in Rust and JavaScript, neither `.` nor `..`. -/
theorem sent_read_iff (hsend : send go java strict sdk r = some h) (hns : ∀ n ∈ r.ns, Printable n)
    (hdelta : ∀ key ttl ns, r ≠ .incr key none ttl ns) :
    h.read = some (canonical r) ↔ (r.subject = some .key → Reaches (parsesUrl sdk) r.text) := by
  obtain ⟨r', h', hrequest, rfl, hsubject, htext, hdelivered⟩ := send_canonical hsend hns hdelta
  rw [← hdelivered, ← hsubject, ← htext]
  exact (faithful sdk).read_fetch_iff hrequest (parsesUrl sdk)

/-- A get of the key `..` in Rust asks for something else. -/
theorem sent_dots_unread :
    send latin latin.toAlphabet true .rust (.get ".." none) = some ⟨.get, "/", none, none⟩ ∧
      HttpRequest.read ⟨.get, "/", none, none⟩ ≠ some (.get ".." none) := by
  have hsend : send latin latin.toAlphabet true .rust (.get ".." none) =
      some ⟨.get, "/", none, none⟩ := rfl
  refine ⟨hsend, fun hread => ?_⟩
  have hreaches := (sent_read_iff hsend (by simp [Request.ns]) (by simp)).mp hread rfl
  exact (hreaches.2 rfl).2 rfl

/-- What is delivered over TCP, of a request with a namespace without spaces around it. -/
theorem delivered_tcp (hx : (encoder sdk).delivered r = .ok x)
    (hns : ∀ n ∈ r.ns, Printable n ∧ trim headerSpace n = n)
    (hdelta : ∀ key ttl ns, r ≠ .incr key none ttl ns) : x = canonical r := by
  have hfilter : ∀ {ns : Option String}, (∀ n ∈ ns, Printable n ∧ trim headerSpace n = n) →
      (ns.filter fun ns => !blank (encoder sdk).space ns) = trimmed headerSpace ns := by
    intro ns hns
    cases ns with
    | none => rfl
    | some n =>
        obtain ⟨hprintable, htrim⟩ := hns n rfl
        have hblank := blank_congr ((usual_encoder sdk).eq hprintable)
        rw [Option.filter_some, hblank, blank_eq_decide, htrim]
        by_cases hempty : n = ""
        · rw [decide_eq_true hempty, trimmed_some_of_empty (htrim.trans hempty)]
          rfl
        · rw [decide_eq_false hempty, trimmed_some_of_ne (htrim.trans_ne hempty), htrim]
          rfl
  have httl : ∀ t, positive ((encoder sdk).ttl t) = positive t := by
    intro t
    cases sdk with
    | python => exact positive_getD t
    | java => exact positive_getD t
    | go => rfl
    | rust => rfl
    | node => rfl
  have hcanonical := hfilter hns
  cases r with
  | incr key delta ttlSecsOnCreate ns =>
      cases delta with
      | none => exact absurd rfl (hdelta key ttlSecsOnCreate ns)
      | some d =>
          have hsent : (encoder sdk).delta (some d) = .ok (some d) := by
            cases sdk <;> rfl
          rw [RequestEncoder.delivered, RequestEncoder.arguments, hsent] at hx
          obtain rfl := Except.ok.inj hx
          exact congrArg₂ (Request.incr key (some d)) (httl ttlSecsOnCreate) hcanonical
  | auth token => exact (Except.ok.inj hx).symm
  | ping => exact (Except.ok.inj hx).symm
  | watch key ns => exact (Except.ok.inj hx).symm.trans (congrArg (Request.watch key) hcanonical)
  | unwatch key ns =>
      exact (Except.ok.inj hx).symm.trans (congrArg (Request.unwatch key) hcanonical)
  | get key ns => exact (Except.ok.inj hx).symm.trans (congrArg (Request.get key) hcanonical)
  | set key value ttlSecs ns =>
      exact (Except.ok.inj hx).symm.trans
        (congrArg₂ (Request.set key value) (httl ttlSecs) hcanonical)
  | delete key ns => exact (Except.ok.inj hx).symm.trans (congrArg (Request.delete key) hcanonical)
  | deleteByPattern pattern ns =>
      exact (Except.ok.inj hx).symm.trans (congrArg (Request.deleteByPattern pattern) hcanonical)
  | setTtlByPattern pattern ttlSecs ns =>
      exact (Except.ok.inj hx).symm.trans
        (congrArg₂ (Request.setTtlByPattern pattern) (httl ttlSecs) hcanonical)
  | setNx key value ttlSecs ns =>
      exact (Except.ok.inj hx).symm.trans
        (congrArg₂ (Request.setNx key value) (httl ttlSecs) hcanonical)

/-- The frames of the TCP client are read as they are conveyed. -/
theorem encoder_reads (hr : Conveys (encoder sdk) r x) : (encoder sdk).reads r = some x := by
  have hmem : encoder sdk ∈ [pythonEncoder, goEncoder, rustEncoder, javaEncoder, nodeEncoder] := by
    cases sdk <;> simp [encoder]
  obtain ⟨bound, hbound, hexact, hdefault⟩ := exact_of_mem hmem
  exact hexact.reads_eq hbound hdefault hr

/-- An operation whose key reaches the server is read there in its canonical form. -/
theorem read_canonical (hsend : send go java strict sdk r = some h)
    (hns : ∀ n ∈ r.ns, Printable n) (hdelta : ∀ key ttl ns, r ≠ .incr key none ttl ns)
    (hkey : r.subject = some .key → Reaches (parsesUrl sdk) r.text) :
    h.read = some (canonical r) := by
  obtain ⟨r', h', hrequest, rfl, hsubject, htext, hdelivered⟩ := send_canonical hsend hns hdelta
  rw [← hsubject, ← htext] at hkey
  rw [← hdelivered]
  exact ((faithful sdk).read_fetch_iff hrequest (parsesUrl sdk)).mpr hkey

/-- What a server reads of an operation does not depend on the language of the client and the
transport: what one client sends over HTTP is read like the frame of any other. -/
theorem transports_agree {sdk' : Wire.Sdk} (hsend : send go java strict sdk r = some h)
    (hconveys : Conveys (encoder sdk') r x)
    (hns : ∀ n ∈ r.ns, Printable n ∧ trim headerSpace n = n)
    (hdelta : ∀ key ttl ns, r ≠ .incr key none ttl ns)
    (hkey : r.subject = some .key → Reaches (parsesUrl sdk) r.text) :
    h.read = (encoder sdk').reads r := by
  rw [encoder_reads hconveys, delivered_tcp hconveys.delivered hns hdelta]
  exact read_canonical hsend (fun n hn => (hns n hn).1) hdelta hkey

/-- An increment of the Go client over HTTP is read like the one of the Python client over TCP. -/
theorem transports_agree_incr :
    HttpRequest.read ⟨.post, "/key/a%2Fb/incr", some "n", some (.json [("delta", .number 2)])⟩ =
      (encoder .python).reads (.incr "a/b" (some 2) (some 0) (some "n")) := by
  have hsend : send latin latin.toAlphabet false .go (.incr "a/b" (some 2) (some 0) (some "n")) =
      some ⟨.post, "/key/a%2Fb/incr", some "n", some (.json [("delta", .number 2)])⟩ := rfl
  have hconveys : Conveys (encoder .python) (.incr "a/b" (some 2) (some 0) (some "n"))
      (.incr "a/b" (some 2) none (some "n")) :=
    ⟨rfl, by decide, by decide, by decide⟩
  have hns : ∀ n ∈ some "n", Printable n ∧ trim headerSpace n = n := by
    rintro n ⟨⟩
    exact ⟨by decide, by decide⟩
  have hkey : Reaches (parsesUrl .go) "a/b" := ⟨by decide, by decide⟩
  exact transports_agree hsend hconveys hns (by simp) fun _ => hkey

end Requests

end Http

end DittoClient
