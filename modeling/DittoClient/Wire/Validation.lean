import Mathlib.Data.List.Infix
import DittoClient.Wire.Requests

/-!
# The strict mode

In strict mode the clients check the arguments of a request before they send it: the key or the
pattern and the namespace must not be blank and must consist of certain characters, and no two
colons of a namespace may stand next to each other. The clients make the same checks in the same
order. They differ in what they take for a space, in the characters that they allow and in the
texts of their complaints, which are the fields of `Validators`.
-/

namespace DittoClient

namespace Wire

open DittoClient.Text

/-- What is wrong with an argument. -/
inductive Reason
  | emptyKey
  | unsupportedKey
  | emptyPattern
  | unsupportedPattern
  | blankNamespace
  | doubleColon
  | unsupportedNamespace
  deriving DecidableEq, Repr

/-- What the validators of the clients disagree on. -/
structure Validators where
  space : Char → Bool
  alphanumeric : Char → Bool
  /-- The text of a complaint about an operation. -/
  complaint : String → Reason → String
  /-- The text of a complaint about a namespace alone. -/
  unscoped : Reason → String
  deleteByPattern : String
  setTtlByPattern : String

namespace Validators

variable (v : Validators)

def isStrictToken (s : String) : Bool :=
  s.toList.all fun c => v.alphanumeric c || decide (c ∈ ['-', '_', '.', ':'])

def isStrictPattern (s : String) : Bool :=
  s.toList.all fun c => v.alphanumeric c || decide (c ∈ ['-', '_', '.', ':', '*'])

/-- The checks of a namespace that is trimmed and not blank. -/
def checkNamespace (text : Reason → String) (ns : String) : Except String Unit :=
  if [':', ':'] <:+: ns.toList then .error (text .doubleColon)
  else if v.isStrictToken ns then .ok ()
  else .error (text .unsupportedNamespace)

def validateNamespace (text : Reason → String) (ns : String) : Except String Unit :=
  if trim v.space ns = "" then .error (text .blankNamespace)
  else v.checkNamespace text (trim v.space ns)

/-- The namespace may be left out. -/
def validateOptional (text : Reason → String) : Option String → Except String Unit
  | none => .ok ()
  | some ns => v.validateNamespace text ns

def validateCoreInputs (strict : Bool) (op key : String) (ns : Option String) :
    Except String Unit :=
  if !strict then .ok ()
  else if trim v.space key = "" then .error (v.complaint op .emptyKey)
  else if !v.isStrictToken key then .error (v.complaint op .unsupportedKey)
  else v.validateOptional (v.complaint op) ns

/-- A pattern is trimmed before its characters are looked at, a key is not. -/
def validatePatternInputs (strict : Bool) (op pattern : String) (ns : Option String) :
    Except String Unit :=
  if !strict then .ok ()
  else if trim v.space pattern = "" then .error (v.complaint op .emptyPattern)
  else if !v.isStrictPattern (trim v.space pattern) then
    .error (v.complaint op .unsupportedPattern)
  else v.validateOptional (v.complaint op) ns

/-- A namespace without the spaces around it. -/
def normalizedNamespace (strict : Bool) : Option String → Except String (Option String)
  | none => .ok none
  | some ns =>
      let normalized := trim v.space ns
      if normalized = "" then
        if strict then .error (v.unscoped .blankNamespace) else .ok none
      else if strict then do
        v.checkNamespace v.unscoped normalized
        .ok (some normalized)
      else .ok (some normalized)

/-- The checks of a request, with the name that the validators know its operation by. -/
def validate (strict : Bool) : Request → Except String Unit
  | .get key ns => v.validateCoreInputs strict "get" key ns
  | .set key _ _ ns => v.validateCoreInputs strict "set" key ns
  | .delete key ns => v.validateCoreInputs strict "delete" key ns
  | .ping => .ok ()
  | .auth _ => .ok ()
  | .watch key ns => v.validateCoreInputs strict "watch" key ns
  | .unwatch key ns => v.validateCoreInputs strict "unwatch" key ns
  | .deleteByPattern pattern ns =>
      v.validatePatternInputs strict v.deleteByPattern pattern ns
  | .setTtlByPattern pattern _ ns =>
      v.validatePatternInputs strict v.setTtlByPattern pattern ns
  | .setNx key _ _ ns => v.validateCoreInputs strict "set" key ns
  | .incr key _ _ ns => v.validateCoreInputs strict "set" key ns

end Validators

/-- The middle of a complaint, which the clients share up to the word before the characters that
are allowed. -/
def Reason.text (allowed : String) : Reason → String
  | .emptyKey => "key must not be empty"
  | .unsupportedKey => "key contains unsupported characters" ++ allowed ++ "[A-Za-z0-9._:-]"
  | .emptyPattern => "pattern must not be empty"
  | .unsupportedPattern =>
      "pattern contains unsupported characters" ++ allowed ++ "[A-Za-z0-9._:-*]"
  | .blankNamespace => "namespace must not be blank when provided"
  | .doubleColon => "namespace must not contain '::'"
  | .unsupportedNamespace =>
      "namespace contains unsupported characters" ++ allowed ++ "[A-Za-z0-9._:-]"

/-- A sentence of the Python client ends with a full stop, unless it ends with the characters
that are allowed. -/
def Reason.sentence (reason : Reason) : String :=
  match reason with
  | .unsupportedKey => reason.text ". Allowed: "
  | .unsupportedPattern => reason.text ". Allowed: "
  | .unsupportedNamespace => reason.text ". Allowed: "
  | _ => reason.text ". Allowed: " ++ "."

/-- The validators of the Python client, whose patterns name the letters and digits of ASCII. -/
def pythonValidators : Validators where
  space := pythonSpace
  alphanumeric := Char.isAlphanum
  complaint op reason := "Invalid " ++ op ++ " request: " ++ reason.sentence
  unscoped reason := "Invalid request: " ++ reason.sentence
  deleteByPattern := "delete_by_pattern"
  setTtlByPattern := "set_ttl_by_pattern"

/-- The letters and digits of Unicode, which are the usual ones in ASCII. -/
structure Alphabet where
  holds : Char → Bool
  ascii : ∀ c : Char, c.toNat < 128 → holds c = c.isAlphanum

/-- The validators of the Go client, which allow all letters and digits of Unicode. -/
def goValidators (alphabet : Alphabet) : Validators where
  space := whiteSpace
  alphanumeric := alphabet.holds
  complaint op reason := "invalid " ++ op ++ " request: " ++ reason.text "; allowed: "
  unscoped reason := "invalid request: " ++ reason.text "; allowed: "
  deleteByPattern := "deleteByPattern"
  setTtlByPattern := "setTtlByPattern"

/-- The complaint of the Rust client about a namespace names an operation `request`, unless the
namespace is blank. -/
def rustUnscoped : Reason → String
  | .blankNamespace => Reason.text "; allowed: " .blankNamespace
  | reason => "invalid request request: " ++ reason.text "; allowed: "

/-- The validators of the Rust client. -/
def rustValidators : Validators where
  space := whiteSpace
  alphanumeric := Char.isAlphanum
  complaint op reason := "invalid " ++ op ++ " request: " ++ reason.text "; allowed: "
  unscoped := rustUnscoped
  deleteByPattern := "deleteByPattern"
  setTtlByPattern := "setTtlByPattern"

/-- The validators of the Node.js client, which has no checks of a namespace alone. -/
def nodeValidators : Validators where
  space := nodeSpace
  alphanumeric := Char.isAlphanum
  complaint op reason := "Invalid " ++ op ++ " request: " ++ reason.sentence
  unscoped reason := "Invalid request: " ++ reason.sentence
  deleteByPattern := "deleteByPattern"
  setTtlByPattern := "setTtlByPattern"

/-- The checks of the Node.js client, which has names of its own for the atomic operations. -/
def nodeValidate (strict : Bool) : Request → Except String Unit
  | .setNx key _ _ ns => nodeValidators.validateCoreInputs strict "setNX" key ns
  | .incr key _ _ ns => nodeValidators.validateCoreInputs strict "incr" key ns
  | r => nodeValidators.validate strict r

/-- The Rust client checks the trimmed namespace with the validator of the requests, which trims
it once more. -/
def rustNormalizedNamespace (strict : Bool) : Option String → Except String (Option String)
  | none => .ok none
  | some ns =>
      let trimmed := trim whiteSpace ns
      if trimmed = "" then
        if strict then .error (rustUnscoped .blankNamespace) else .ok none
      else if strict then do
        rustValidators.validateNamespace (rustValidators.complaint "request") trimmed
        .ok (some trimmed)
      else .ok (some trimmed)

namespace Validators

/-- A namespace that is taken in strict mode. -/
structure StrictNamespace (v : Validators) (ns : String) : Prop where
  present : trim v.space ns ≠ ""
  colons : ¬ [':', ':'] <:+: (trim v.space ns).toList
  token : v.isStrictToken (trim v.space ns) = true

variable {v : Validators} {strict : Bool}

theorem checkNamespace_eq_ok_iff {text : Reason → String} {ns : String} :
    v.checkNamespace text ns = .ok () ↔ ¬ [':', ':'] <:+: ns.toList ∧ v.isStrictToken ns = true := by
  rw [checkNamespace]
  by_cases hcolons : [':', ':'] <:+: ns.toList
  · simp [hcolons]
  · cases htoken : v.isStrictToken ns <;> simp [hcolons]

theorem validateNamespace_eq_ok_iff {text : Reason → String} {ns : String} :
    v.validateNamespace text ns = .ok () ↔ v.StrictNamespace ns := by
  rw [validateNamespace]
  by_cases hpresent : trim v.space ns = ""
  · rw [if_pos hpresent]
    exact ⟨fun h => (by cases h), fun h => absurd hpresent h.present⟩
  · rw [if_neg hpresent, checkNamespace_eq_ok_iff]
    exact ⟨fun h => ⟨hpresent, h.1, h.2⟩, fun h => ⟨h.colons, h.token⟩⟩

/-- What the normalized namespace is, and when there is one. -/
theorem normalizedNamespace_eq_ok_iff {ns m : Option String} :
    v.normalizedNamespace strict ns = .ok m ↔
      m = trimmed v.space ns ∧ (strict = true → ∀ n ∈ ns, v.StrictNamespace n) := by
  cases ns with
  | none => simp [normalizedNamespace, trimmed, eq_comm]
  | some ns =>
      simp only [normalizedNamespace, Option.mem_def, Option.some.injEq, forall_eq']
      by_cases hpresent : trim v.space ns = ""
      · rw [if_pos hpresent, trimmed_some_of_empty hpresent]
        have hnot : ¬ v.StrictNamespace ns := fun h => h.present hpresent
        cases strict <;> simp [hnot, eq_comm]
      · rw [if_neg hpresent, trimmed_some_of_ne hpresent]
        cases strict with
        | false => simp [eq_comm]
        | true =>
            rw [if_pos rfl]
            cases hcheck : v.checkNamespace v.unscoped (trim v.space ns) with
            | error text =>
                have hnot : ¬ v.StrictNamespace ns := by
                  intro h
                  have hok : v.checkNamespace v.unscoped (trim v.space ns) = .ok () :=
                    checkNamespace_eq_ok_iff.mpr ⟨h.colons, h.token⟩
                  rw [hcheck] at hok
                  cases hok
                simp [Bind.bind, Except.bind, hnot]
            | ok u =>
                have hok := checkNamespace_eq_ok_iff.mp hcheck
                have hyes : v.StrictNamespace ns := ⟨hpresent, hok.1, hok.2⟩
                simp [Bind.bind, Except.bind, hyes, eq_comm]

/-- A request that passes the checks in strict mode has a strict namespace. -/
theorem validate_strictNamespace {r : Request} (h : v.validate true r = .ok ()) :
    ∀ n ∈ r.ns, v.StrictNamespace n := by
  have hoptional : ∀ {text : Reason → String} {ns : Option String},
      v.validateOptional text ns = .ok () → ∀ n ∈ ns, v.StrictNamespace n := by
    intro text ns h n hn
    cases hn
    exact validateNamespace_eq_ok_iff.mp h
  have hcore : ∀ {op key : String} {ns : Option String},
      v.validateCoreInputs true op key ns = .ok () → ∀ n ∈ ns, v.StrictNamespace n := by
    intro op key ns h
    simp only [validateCoreInputs, Bool.not_true, Bool.false_eq_true, if_false] at h
    split_ifs at h
    exact hoptional h
  have hpattern : ∀ {op pattern : String} {ns : Option String},
      v.validatePatternInputs true op pattern ns = .ok () → ∀ n ∈ ns, v.StrictNamespace n := by
    intro op pattern ns h
    simp only [validatePatternInputs, Bool.not_true, Bool.false_eq_true, if_false] at h
    split_ifs at h
    exact hoptional h
  cases r with
  | ping => exact fun n hn => by cases hn
  | auth token => exact fun n hn => by cases hn
  | deleteByPattern pattern ns => exact hpattern h
  | setTtlByPattern pattern ttlSecs ns => exact hpattern h
  | get key ns => exact hcore h
  | set key value ttlSecs ns => exact hcore h
  | delete key ns => exact hcore h
  | watch key ns => exact hcore h
  | unwatch key ns => exact hcore h
  | setNx key value ttlSecs ns => exact hcore h
  | incr key delta ttlSecsOnCreate ns => exact hcore h

theorem validate_lenient (r : Request) : v.validate false r = .ok () := by
  cases r <;> rfl

/-- The namespace of a request that passes the checks has a normal form. -/
theorem normalizedNamespace_of_validate {r : Request} (h : v.validate strict r = .ok ()) :
    v.normalizedNamespace strict r.ns = .ok (trimmed v.space r.ns) := by
  refine normalizedNamespace_eq_ok_iff.mpr ⟨rfl, fun hstrict => ?_⟩
  rw [hstrict] at h
  exact validate_strictNamespace h

end Validators

/-- The second trim changes nothing. -/
theorem rustNormalizedNamespace_eq (strict : Bool) (ns : Option String) :
    rustNormalizedNamespace strict ns = rustValidators.normalizedNamespace strict ns := by
  cases ns with
  | none => rfl
  | some ns =>
      have hspace : rustValidators.space = whiteSpace := rfl
      simp only [rustNormalizedNamespace, Validators.normalizedNamespace, hspace,
        Validators.validateNamespace, trim_trim]
      split_ifs with hblank
      · rfl
      · rfl
      · rfl
      · rfl

end Wire

end DittoClient
