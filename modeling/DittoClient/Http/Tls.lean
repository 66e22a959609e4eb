import DittoClient.Http.Credentials
import DittoClient.Text.Lower
import DittoClient.Text.Words

/-!
# The verification of certificates

An HTTP client over TLS verifies the certificate of its server, unless an option turns this off. The
option is refused in Java and Node.js. In Python and Rust it is refused, and in Go it is ignored, as
long as a variable of the environment does not allow it for development (`unverified_iff`). The
three languages read the same out of the variable, but for the separators that are spaces in Python
only (`allowInsecureTlsDev_iff_python`).
-/

namespace DittoClient

namespace Http

open DittoClient.Text

/-- The values of the variables of the environment. -/
abbrev Environment : Type := String → Option String

/-- The options that the connections of a client depend on. A language has some of them. -/
structure TlsOptions where
  tls : Bool
  rejectUnauthorized : Bool
  insecureSkipVerify : Bool
  devInsecureTls : Bool
  trustedCertPath : Option String
  deriving DecidableEq, Repr

/-- The certificates that a client trusts: those of the system, these and the ones in a file, or the
ones in a file only. -/
inductive Roots
  | system
  | extended (path : String)
  | pinned (path : String)
  deriving DecidableEq, Repr

/-- How a client connects to its server. -/
structure Connector where
  scheme : String
  verifies : Bool
  roots : Roots
  deriving DecidableEq, Repr

/-- An option is insecure, or a file with certificates cannot be used. -/
inductive TlsError
  | insecure (message : String)
  | certificate (path : String)
  deriving DecidableEq, Repr

def insecureTlsDevEnvGate : String :=
  "DITTO_CLIENT_ALLOW_INSECURE_TLS_DEV"

def affirmations : List String :=
  ["1", "true", "yes", "on"]

/-- Whether the variable says yes. One that is not set is read as an empty text. -/
def allowInsecureTlsDev (space : Char → Bool) (lower : Char → Char) (env : Environment) : Bool :=
  decide ((trim space ((env insecureTlsDevEnvGate).getD "")).toList.map lower ∈
    affirmations.map String.toList)

/-- The message of an option that the environment does not allow. -/
def notAllowed (option : String) : String :=
  option ++ " is insecure and is no longer supported by default unless " ++
    insecureTlsDevEnvGate ++ "=true is set for development use. " ++
      "Use a trusted certificate configuration instead."

/-- A client whose certificates are given by a file, if there is one. Which files can be used is a
parameter. -/
def Connector.trust (x : Connector) (usable : String → Bool) (roots : String → Roots) :
    Option String → Except TlsError Connector
  | none => .ok x
  | some path =>
      if usable path then .ok { x with roots := roots path } else .error (.certificate path)

/-- A client without TLS. -/
def Connector.plain : Connector where
  scheme := "http"
  verifies := true
  roots := .system

section Constructors

variable (env : Environment) (usable : String → Bool) (o : TlsOptions)

def Python.allowInsecureTlsDev : Bool :=
  Http.allowInsecureTlsDev pythonSpace lowerChar env

def Go.allowInsecureTlsDev : Bool :=
  Http.allowInsecureTlsDev whiteSpace goLowerChar env

def Rust.allowInsecureTlsDev : Bool :=
  Http.allowInsecureTlsDev whiteSpace Char.toLower env

def Python.connector : Except TlsError Connector :=
  if o.tls then
    if o.devInsecureTls && !Python.allowInsecureTlsDev env then
      .error (.insecure (notAllowed "dev_insecure_tls=True"))
    else if !o.rejectUnauthorized && !Python.allowInsecureTlsDev env then
      .error (.insecure (notAllowed "reject_unauthorized=False"))
    else
      Connector.trust ⟨"https", !(o.devInsecureTls || !o.rejectUnauthorized), .system⟩ usable
        .extended (trimmed pythonSpace o.trustedCertPath)
  else .ok Connector.plain

def Go.connector : Except TlsError Connector :=
  if o.tls then
    Connector.trust
      ⟨"https", !(Go.allowInsecureTlsDev env && (o.insecureSkipVerify || o.devInsecureTls)),
        .system⟩
      usable .extended (trimmed whiteSpace o.trustedCertPath)
  else .ok Connector.plain

/-- The file is read without TLS as well. -/
def Rust.connector : Except TlsError Connector :=
  if o.tls && o.devInsecureTls && !Rust.allowInsecureTlsDev env then
    .error (.insecure (notAllowed "dev_insecure_tls=true"))
  else
    Connector.trust
      ⟨if o.tls then "https" else "http",
        !(o.tls && o.devInsecureTls && Rust.allowInsecureTlsDev env), .system⟩
      usable .extended (trimmed whiteSpace o.trustedCertPath)

/-- A path with spaces around it is used as it is. -/
def Java.connector : Except TlsError Connector :=
  if o.tls then
    if o.devInsecureTls then
      .error (.insecure ("devInsecureTls(true) is insecure and is no longer supported. " ++
        "Use trustedCertPath(...) for self-signed or private CA deployments."))
    else if !o.rejectUnauthorized then
      .error (.insecure ("rejectUnauthorized(false) is insecure and is no longer supported. " ++
        "Use trustedCertPath(...) for self-signed or private CA deployments."))
    else
      Connector.trust ⟨"https", true, .system⟩ usable .pinned
        (o.trustedCertPath.filter fun path => !blank javaSpace path)
  else .ok Connector.plain

/-- The option `ca` of an agent replaces the certificates of the system. -/
def Node.connector : Except TlsError Connector :=
  if o.tls then
    if o.devInsecureTls then
      .error (.insecure ("devInsecureTls(true) is insecure and is no longer supported. " ++
        "Use a trusted certificate configuration instead."))
    else if !o.rejectUnauthorized then
      .error (.insecure ("rejectUnauthorized(false) is insecure and is no longer supported. " ++
        "Use a trusted certificate configuration instead."))
    else
      Connector.trust ⟨"https", true, .system⟩ usable .pinned (o.trustedCertPath.filter truthy)
  else .ok Connector.plain

def connector : Wire.Sdk → Except TlsError Connector
  | .python => Python.connector env usable o
  | .go => Go.connector env usable o
  | .rust => Rust.connector env usable o
  | .java => Java.connector usable o
  | .node => Node.connector usable o

end Constructors

section Gate

/-- A text that says yes: one of the words between spaces, up to the case of ASCII. -/
def Affirms (space : Char → Bool) (s : String) : Prop :=
  ∃ t, Between space s t ∧ t.toList.map Char.toLower ∈ affirmations.map String.toList

theorem toLower_of_not_upper {c : Char} (h : c.toNat < 65 ∨ 90 < c.toNat) : c.toLower = c := by
  refine dif_neg fun hc => ?_
  have hlow : 65 ≤ c.toNat := hc.1
  have hhigh : c.toNat ≤ 90 := hc.2
  omega

theorem visible_of_toLower {c : Char} (h : visible c.toLower = true) : visible c = true := by
  by_cases hupper : c.toNat < 65 ∨ 90 < c.toNat
  · rwa [toLower_of_not_upper hupper] at h
  · rw [visible, decide_eq_true_eq]
    omega

theorem separator_of_whiteSpace {c : Char} (h : whiteSpace c = true) : separator c = false := by
  simp only [whiteSpace, separator, decide_eq_true_eq, decide_eq_false_iff_not, List.mem_cons,
    List.not_mem_nil, or_false] at *
  omega

/-- Only the letter k has another capital than that of ASCII. -/
theorem lowerChar_eq_iff {c d : Char} (hd : d.toNat < 128) (hk : d ≠ 'k') :
    lowerChar c = d ↔ c.toLower = d := by
  rw [lowerChar]
  split
  · next hc =>
      rw [toLower_of_not_upper (by omega)]
      refine iff_of_false hk.symm ?_
      rintro rfl
      omega
  · rfl

/-- In Go the letter i has another one as well. -/
theorem goLowerChar_eq_iff {c d : Char} (hd : d.toNat < 128) (hk : d ≠ 'k') (hi : d ≠ 'i') :
    goLowerChar c = d ↔ c.toLower = d := by
  rw [goLowerChar]
  split
  · next hc =>
      rw [toLower_of_not_upper (by omega)]
      refine iff_of_false hi.symm ?_
      rintro rfl
      omega
  · exact lowerChar_eq_iff hd hk

theorem map_eq_iff {lower lower' : Char → Char} {w : List Char}
    (h : ∀ d ∈ w, ∀ c, lower c = d ↔ lower' c = d) (s : List Char) :
    s.map lower = w ↔ s.map lower' = w := by
  induction s generalizing w with
  | nil => rfl
  | cons c s ih =>
      cases w with
      | nil => exact iff_of_false (List.cons_ne_nil _ _) (List.cons_ne_nil _ _)
      | cons d w =>
          rw [List.map_cons, List.map_cons, List.cons.injEq, List.cons.injEq,
            h d List.mem_cons_self c, ih fun d hd => h d (List.mem_cons_of_mem _ hd)]

/-- The words have neither of these letters. -/
theorem letters_of_affirmations : ∀ w ∈ affirmations, ∀ d ∈ w.toList,
    visible d = true ∧ d ≠ 'k' ∧ d ≠ 'i' := by
  have hall : (affirmations.all fun w => w.toList.all fun d =>
      visible d && d != 'k' && d != 'i') = true := by decide
  intro w hw d hd
  have hletter := List.all_eq_true.mp (List.all_eq_true.mp hall w hw) d hd
  simp only [Bool.and_eq_true, bne_iff_ne] at hletter
  exact ⟨hletter.1.1, hletter.1.2, hletter.2⟩

theorem visible_of_affirmation {t : String}
    (h : t.toList.map Char.toLower ∈ affirmations.map String.toList) :
    ∀ c ∈ t.toList, visible c = true := by
  intro c hc
  obtain ⟨w, hw, hwt⟩ := List.mem_map.mp h
  have hlower : c.toLower ∈ w.toList := by
    rw [hwt]
    exact List.mem_map_of_mem hc
  exact visible_of_toLower (letters_of_affirmations w hw _ hlower).1

variable {space : Char → Bool} {lower : Char → Char} {env : Environment}

/-- A variable allows an insecure client if it says yes. -/
theorem allowInsecureTlsDev_iff (hspace : ∀ c, visible c = true → space c = false)
    (hlower : ∀ w ∈ affirmations, ∀ d ∈ w.toList, ∀ c, lower c = d ↔ c.toLower = d) :
    allowInsecureTlsDev space lower env = true ↔
      ∃ s ∈ env insecureTlsDevEnvGate, Affirms space s := by
  have hmem : ∀ s : List Char, s.map lower ∈ affirmations.map String.toList ↔
      s.map Char.toLower ∈ affirmations.map String.toList := by
    intro s
    rw [List.mem_map, List.mem_map]
    refine exists_congr fun w => and_congr_right fun hw => ?_
    rw [eq_comm, map_eq_iff (hlower w hw), eq_comm]
  rw [allowInsecureTlsDev, decide_eq_true_eq, hmem]
  cases env insecureTlsDevEnvGate with
  | none =>
      have hempty : trim space "" = "" := trim_eq_empty_iff.mpr rfl
      refine iff_of_false ?_ nofun
      rw [Option.getD_none, hempty]
      decide
  | some s =>
      rw [Option.getD_some]
      constructor
      · exact fun h => ⟨s, rfl, _, between_trim space s, h⟩
      · rintro ⟨_, ⟨⟩, t, hbetween, ht⟩
        rwa [hbetween.trim_eq fun c hc => hspace c (visible_of_affirmation ht c hc)]

theorem Python.allowInsecureTlsDev_iff : Python.allowInsecureTlsDev env = true ↔
    ∃ s ∈ env insecureTlsDevEnvGate, Affirms pythonSpace s := by
  refine Http.allowInsecureTlsDev_iff (fun _ => pythonSpace_of_visible) fun w hw d hd c => ?_
  obtain ⟨hvisible, hk, -⟩ := letters_of_affirmations w hw d hd
  rw [visible, decide_eq_true_eq] at hvisible
  exact lowerChar_eq_iff (by omega) hk

theorem Go.allowInsecureTlsDev_iff : Go.allowInsecureTlsDev env = true ↔
    ∃ s ∈ env insecureTlsDevEnvGate, Affirms whiteSpace s := by
  refine Http.allowInsecureTlsDev_iff (fun _ => whiteSpace_of_visible) fun w hw d hd c => ?_
  obtain ⟨hvisible, hk, hi⟩ := letters_of_affirmations w hw d hd
  rw [visible, decide_eq_true_eq] at hvisible
  exact goLowerChar_eq_iff (by omega) hk hi

theorem Rust.allowInsecureTlsDev_iff : Rust.allowInsecureTlsDev env = true ↔
    ∃ s ∈ env insecureTlsDevEnvGate, Affirms whiteSpace s :=
  Http.allowInsecureTlsDev_iff (fun _ => whiteSpace_of_visible) fun _ _ _ _ _ => Iff.rfl

/-- What says yes in Python has no separators around it in the other languages. -/
theorem affirms_iff {s : String} : Affirms whiteSpace s ↔
    Affirms pythonSpace s ∧ ∀ c ∈ s.toList, separator c = false := by
  constructor
  · rintro ⟨t, hbetween, ht⟩
    refine ⟨⟨t, hbetween.mono pythonSpace_of_whiteSpace, ht⟩, fun c hc => ?_⟩
    rcases hbetween.mem hc with hmem | hspace
    · exact separator_of_visible (visible_of_affirmation ht c hmem)
    · exact separator_of_whiteSpace hspace
  · rintro ⟨⟨t, ⟨a, b, hs, ha, hb⟩, ht⟩, hnone⟩
    have hwhite : ∀ c ∈ s.toList, pythonSpace c = true → whiteSpace c = true := by
      intro c hc hspace
      rwa [pythonSpace, hnone c hc, Bool.or_false] at hspace
    rw [hs] at hwhite
    refine ⟨t, ⟨a, b, hs, fun c hc => ?_, fun c hc => ?_⟩, ht⟩
    · exact hwhite c (List.mem_append_left _ hc) (ha c hc)
    · exact hwhite c (List.mem_append_right _ (List.mem_append_right _ hc)) (hb c hc)

/-- The languages read the same out of the variable, unless there is a separator in it. -/
theorem allowInsecureTlsDev_iff_python (env : Environment) :
    Go.allowInsecureTlsDev env = Rust.allowInsecureTlsDev env ∧
      (Rust.allowInsecureTlsDev env = true ↔ Python.allowInsecureTlsDev env = true ∧
        ∀ s ∈ env insecureTlsDevEnvGate, ∀ c ∈ s.toList, separator c = false) := by
  refine ⟨Bool.eq_iff_iff.mpr (Go.allowInsecureTlsDev_iff.trans
    Rust.allowInsecureTlsDev_iff.symm), ?_⟩
  rw [Rust.allowInsecureTlsDev_iff, Python.allowInsecureTlsDev_iff]
  constructor
  · rintro ⟨s, hs, haffirms⟩
    obtain ⟨hpython, hnone⟩ := affirms_iff.mp haffirms
    refine ⟨⟨s, hs, hpython⟩, fun s' hs' => ?_⟩
    obtain rfl : s = s' := Option.some.inj (hs.symm.trans hs')
    exact hnone
  · rintro ⟨⟨s, hs, hpython⟩, hnone⟩
    exact ⟨s, hs, affirms_iff.mpr ⟨hpython, hnone s hs⟩⟩

example : Python.allowInsecureTlsDev (fun _ => some "\x1cTrue ") = true ∧
    Rust.allowInsecureTlsDev (fun _ => some "\x1cTrue ") = false := by decide

end Gate

section Policy

/-- The options ask for a client that does not verify certificates. -/
def TlsOptions.asks (o : TlsOptions) : Wire.Sdk → Bool
  | .go => o.insecureSkipVerify || o.devInsecureTls
  | .rust => o.devInsecureTls
  | _ => o.devInsecureTls || !o.rejectUnauthorized

/-- The file that the certificates are read from. -/
def TlsOptions.file (o : TlsOptions) : Wire.Sdk → Option String
  | .python => if o.tls then trimmed pythonSpace o.trustedCertPath else none
  | .go => if o.tls then trimmed whiteSpace o.trustedCertPath else none
  | .rust => trimmed whiteSpace o.trustedCertPath
  | .java => if o.tls then o.trustedCertPath.filter fun path => !blank javaSpace path else none
  | .node => if o.tls then o.trustedCertPath.filter truthy else none

def roots : Wire.Sdk → String → Roots
  | .java | .node => .pinned
  | _ => .extended

/-- The environment allows a client that does not verify certificates. -/
def allows (env : Environment) : Wire.Sdk → Bool
  | .python => Python.allowInsecureTlsDev env
  | .go => Go.allowInsecureTlsDev env
  | .rust => Rust.allowInsecureTlsDev env
  | _ => false

/-- The options are insecure, and not ignored. -/
def TlsOptions.refused (o : TlsOptions) (env : Environment) (sdk : Wire.Sdk) : Bool :=
  o.tls && o.asks sdk && !allows env sdk && !decide (sdk = .go)

variable {env : Environment} {usable : String → Bool} {o : TlsOptions} {sdk : Wire.Sdk}

theorem connector_of_refused (h : o.refused env sdk = true) :
    ∃ message, connector env usable o sdk = .error (.insecure message) := by
  simp only [TlsOptions.refused, Bool.and_eq_true, Bool.not_eq_true',
    decide_eq_false_iff_not] at h
  obtain ⟨⟨⟨htls, hasks⟩, hallows⟩, hgo⟩ := h
  cases sdk with
  | go => exact absurd rfl hgo
  | rust =>
      simp only [TlsOptions.asks, allows] at hasks hallows
      simp [connector, Rust.connector, htls, hasks, hallows]
  | _ =>
      simp only [TlsOptions.asks, allows, Bool.or_eq_true, Bool.not_eq_true'] at hasks hallows
      cases hdev : o.devInsecureTls with
      | true => simp [connector, Python.connector, Java.connector, Node.connector, *]
      | false =>
          have hreject := hasks.resolve_left (by rw [hdev]; exact Bool.false_ne_true)
          simp [connector, Python.connector, Java.connector, Node.connector, *]

/-- A client that is not refused verifies certificates, unless it should not and may not. -/
theorem connector_of_not_refused (h : o.refused env sdk = false) :
    connector env usable o sdk =
      Connector.trust ⟨if o.tls then "https" else "http",
        !(o.tls && o.asks sdk && allows env sdk), .system⟩ usable (roots sdk) (o.file sdk) := by
  cases htls : o.tls with
  | false =>
      cases sdk with
      | rust => simp [connector, Rust.connector, TlsOptions.file, roots, htls]
      | _ =>
          simp [connector, Python.connector, Go.connector, Java.connector, Node.connector,
            TlsOptions.file, Connector.trust, Connector.plain, htls]
  | true =>
      simp only [TlsOptions.refused, htls, Bool.true_and] at h
      cases sdk with
      | python =>
          simp only [TlsOptions.asks, allows] at h ⊢
          cases hallows : Python.allowInsecureTlsDev env with
          | true => simp [connector, Python.connector, TlsOptions.file, roots, htls, hallows]
          | false =>
              simp only [hallows, Bool.not_false, Bool.and_true, Bool.and_eq_false_iff,
                Bool.or_eq_false_iff] at h
              obtain ⟨hdev, hreject⟩ := h.resolve_right (by decide)
              simp [connector, Python.connector, TlsOptions.file, roots, htls, hallows, hdev,
                hreject]
      | go =>
          simp [connector, Go.connector, TlsOptions.file, TlsOptions.asks, allows, roots, htls,
            Bool.and_comm]
      | rust =>
          simp only [TlsOptions.asks, allows] at h ⊢
          rw [connector, Rust.connector, if_neg (by simpa [htls] using h)]
          simp [TlsOptions.file, roots, htls]
      | _ =>
          obtain ⟨hdev, hreject⟩ : o.devInsecureTls = false ∧ o.rejectUnauthorized = true := by
            simpa [TlsOptions.asks, allows] using h
          simp [connector, Java.connector, Node.connector, TlsOptions.file, roots, allows, htls,
            hdev, hreject]

/-- A client can be constructed if the file can be used. -/
theorem trust_eq_ok {t u : Connector} {roots : String → Roots} {file : Option String} :
    t.trust usable roots file = .ok u ↔ (∀ path ∈ file, usable path = true) ∧
      u = { t with roots := file.elim t.roots roots } := by
  cases file with
  | none =>
      rw [Connector.trust]
      constructor
      · rintro ⟨⟩
        exact ⟨nofun, rfl⟩
      · rintro ⟨-, rfl⟩
        rfl
  | some path =>
      rw [Connector.trust]
      cases husable : usable path with
      | true =>
          have hall : ∀ p ∈ some path, usable p = true := by
            rintro p ⟨⟩
            exact husable
          constructor
          · rintro ⟨⟩
            exact ⟨hall, rfl⟩
          · rintro ⟨-, rfl⟩
            rfl
      | false =>
          refine iff_of_false nofun fun h => ?_
          rw [h.1 path rfl] at husable
          cases husable

/-- Whether the environment allows it, by the text of the variable. -/
def Allows (env : Environment) : Wire.Sdk → Prop
  | .python => ∃ s ∈ env insecureTlsDevEnvGate, Affirms pythonSpace s
  | .go => ∃ s ∈ env insecureTlsDevEnvGate, Affirms whiteSpace s
  | .rust => ∃ s ∈ env insecureTlsDevEnvGate, Affirms whiteSpace s
  | _ => False

theorem allows_iff : allows env sdk = true ↔ Allows env sdk := by
  cases sdk with
  | python => exact Python.allowInsecureTlsDev_iff
  | go => exact Go.allowInsecureTlsDev_iff
  | rust => exact Rust.allowInsecureTlsDev_iff
  | _ => exact iff_of_false Bool.false_ne_true id

/-- A client does not verify certificates if and only if it is one over TLS, its options say so, the
environment allows it, and the file of trusted certificates can be used. -/
theorem unverified_iff (env : Environment) (usable : String → Bool) (o : TlsOptions)
    (sdk : Wire.Sdk) :
    (∃ t, connector env usable o sdk = .ok t ∧ t.verifies = false) ↔
      o.tls = true ∧ o.asks sdk = true ∧ Allows env sdk ∧
        ∀ path ∈ o.file sdk, usable path = true := by
  rw [← allows_iff]
  cases hrefused : o.refused env sdk with
  | true =>
      obtain ⟨message, hmessage⟩ : ∃ message, connector env usable o sdk =
          .error (.insecure message) := connector_of_refused hrefused
      refine iff_of_false ?_ ?_
      · rintro ⟨t, ht, -⟩
        rw [hmessage] at ht
        cases ht
      · rintro ⟨-, -, hallows, -⟩
        rw [TlsOptions.refused, hallows, Bool.not_true, Bool.and_false, Bool.false_and] at hrefused
        cases hrefused
  | false =>
      rw [connector_of_not_refused hrefused]
      simp only [trust_eq_ok]
      constructor
      · rintro ⟨t, ⟨hfile, rfl⟩, hverifies⟩
        simp only [Bool.not_eq_false', Bool.and_eq_true] at hverifies
        exact ⟨hverifies.1.1, hverifies.1.2, hverifies.2, hfile⟩
      · rintro ⟨htls, hasks, hallows, hfile⟩
        refine ⟨_, ⟨hfile, rfl⟩, ?_⟩
        simp [htls, hasks, hallows]

/-- The options of a client are refused if and only if they are insecure, the environment does not
allow them, and the language is another one than Go. -/
theorem refused_iff (env : Environment) (usable : String → Bool) (o : TlsOptions)
    (sdk : Wire.Sdk) :
    (∃ message, connector env usable o sdk = .error (.insecure message)) ↔
      o.tls = true ∧ o.asks sdk = true ∧ ¬ Allows env sdk ∧ sdk ≠ .go := by
  have hrefused : o.refused env sdk = true ↔
      o.tls = true ∧ o.asks sdk = true ∧ ¬ Allows env sdk ∧ sdk ≠ .go := by
    rw [← allows_iff]
    simp [TlsOptions.refused, and_assoc]
  rw [← hrefused]
  refine ⟨fun ⟨message, h⟩ => ?_, connector_of_refused⟩
  by_contra hnot
  rw [connector_of_not_refused (eq_false_of_ne_true hnot)] at h
  cases hfile : o.file sdk with
  | none =>
      rw [hfile] at h
      cases h
  | some path =>
      rw [hfile, Connector.trust] at h
      split at h
      · cases h
      · cases h

end Policy

end Http

end DittoClient
