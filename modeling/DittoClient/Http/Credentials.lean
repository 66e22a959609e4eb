import DittoClient.Octets.Utf8RoundTrip
import DittoClient.Text.Base64
import DittoClient.Text.Query
import DittoClient.Wire.Grammar

/-!
# The credentials of an HTTP client

A client that is given a username and a password sends both in the header `Authorization` of each
request, where they are put together with a colon. A server splits them at the first colon, so it
reads another pair if the username has one. The clients in Python, Go and JavaScript send no header
if one of the two is empty.
-/

namespace DittoClient

namespace Http

open DittoClient.Octets
open DittoClient.Text
open DittoClient.Wire

/-- The value of the header. -/
def basicAuth (username password : String) : String :=
  "Basic " ++ String.ofList (base64Encode (utf8Bytes (username ++ ":" ++ password)))

/-- The header of a client, which writes it with `header` when it takes both texts for given. -/
def authHeader (header : String → String → String) (given : String → Bool)
    (username password : Option String) : Option String := do
  let username ← username.filter given
  let password ← password.filter given
  some (header username password)

/-- A text that is not empty. -/
def truthy (s : String) : Bool :=
  decide (s ≠ "")

def Python.authHeader : Option String → Option String → Option String :=
  Http.authHeader basicAuth truthy

/-- In Go an option that is left out is the empty text. -/
def Go.authHeader : Option String → Option String → Option String :=
  Http.authHeader basicAuth truthy

/-- In Rust the header is written by `basic_auth` of `reqwest`, which is given. -/
def Rust.authHeader (reqwest : String → String → String) :
    Option String → Option String → Option String :=
  Http.authHeader reqwest fun _ => true

def Java.authHeader : Option String → Option String → Option String :=
  Http.authHeader basicAuth fun _ => true

def Node.authHeader : Option String → Option String → Option String :=
  Http.authHeader basicAuth truthy

/-- The header of a client. -/
def authorization (reqwest : String → String → String) :
    Wire.Sdk → Option String → Option String → Option String
  | .python => Python.authHeader
  | .go => Go.authHeader
  | .rust => Rust.authHeader reqwest
  | .java => Java.authHeader
  | .node => Node.authHeader

/-- Whether a client takes empty texts for credentials. -/
def sendsEmpty : Wire.Sdk → Bool
  | .rust => true
  | .java => true
  | _ => false

/-- The username and the password that a server reads. -/
def credentials (header : String) : Option (String × String) :=
  if header.toList.take 6 = "Basic ".toList then do
    let bytes ← base64Decode (header.toList.drop 6)
    let s ← utf8? bytes
    let pair := splitFirst ':' s.toList
    some (String.ofList pair.1, String.ofList pair.2)
  else none

section Credentials

variable {username password : String}

theorem credentials_basicAuth : credentials (basicAuth username password) =
    some (String.ofList (splitFirst ':' (username.toList ++ ':' :: password.toList)).1,
      String.ofList (splitFirst ':' (username.toList ++ ':' :: password.toList)).2) := by
  have htext : (username ++ ":" ++ password).toList =
      username.toList ++ ':' :: password.toList := by
    rw [String.toList_append, String.toList_append, List.append_assoc]
    rfl
  have hlist : (basicAuth username password).toList =
      "Basic ".toList ++ base64Encode (utf8Bytes (username ++ ":" ++ password)) := by
    rw [basicAuth, String.toList_append]
    exact congrArg (fun cs => "Basic ".toList ++ cs) String.toList_ofList
  have hutf8 : utf8? (utf8Bytes (username ++ ":" ++ password)) =
      some (username ++ ":" ++ password) := utf8?_chars _
  have hlen : "Basic ".toList.length = 6 := rfl
  rw [credentials, hlist, List.take_left' hlen, if_pos rfl, List.drop_left' hlen,
    base64Decode_encode, Option.bind_eq_bind, Option.bind_some, hutf8, Option.bind_eq_bind,
    Option.bind_some, htext]

/-- The server reads the credentials back if and only if the username has no colon. -/
theorem credentials_basicAuth_iff :
    credentials (basicAuth username password) = some (username, password) ↔
      ':' ∉ username.toList := by
  have hsame : ∀ pair : List Char × List Char, some (String.ofList pair.1, String.ofList pair.2) =
      some (username, password) ↔ pair = (username.toList, password.toList) := by
    intro pair
    constructor
    · intro h
      obtain ⟨rfl, rfl⟩ := Prod.mk.inj (Option.some.inj h)
      rw [String.toList_ofList, String.toList_ofList]
    · rintro rfl
      rw [String.ofList_toList, String.ofList_toList]
  rw [credentials_basicAuth]
  exact (hsame _).trans splitFirst_append_iff

theorem authHeader_some (header : String → String → String) (given : String → Bool) :
    authHeader header given (some username) (some password) =
      if given username = true ∧ given password = true then some (header username password)
      else none := by
  rw [authHeader, Option.filter_some, Option.filter_some]
  cases given username with
  | false => rfl
  | true =>
      cases given password with
      | false => rfl
      | true => rfl

/-- The server reads the credentials that a client was given if and only if the username has no
colon, and neither is empty or the client sends empty ones, as those in Rust and in Java do. -/
theorem authorization_reads_iff {reqwest : String → String → String}
    (hreqwest : ∀ username password, reqwest username password = basicAuth username password)
    (sdk : Wire.Sdk) (username password : String) :
    (authorization reqwest sdk (some username) (some password)).bind credentials =
        some (username, password) ↔
      ':' ∉ username.toList ∧ (sendsEmpty sdk = true ∨ username ≠ "" ∧ password ≠ "") := by
  obtain rfl : reqwest = basicAuth := funext fun _ => funext fun _ => hreqwest _ _
  have hgiven : ∀ given : String → Bool,
      (Http.authHeader basicAuth given (some username) (some password)).bind credentials =
          some (username, password) ↔
        ':' ∉ username.toList ∧ given username = true ∧ given password = true := by
    intro given
    rw [authHeader_some]
    by_cases h : given username = true ∧ given password = true
    · rw [if_pos h, Option.bind_some, credentials_basicAuth_iff]
      exact (and_iff_left h).symm
    · rw [if_neg h]
      exact iff_of_false (fun hnone => by cases hnone) fun hand => h hand.2
  have hall : (Http.authHeader basicAuth (fun _ => true) (some username) (some password)).bind
      credentials = some (username, password) ↔
        ':' ∉ username.toList ∧ (true = true ∨ username ≠ "" ∧ password ≠ "") :=
    (hgiven _).trans (and_congr_right fun _ => iff_of_true ⟨rfl, rfl⟩ (Or.inl rfl))
  have hfull : (Http.authHeader basicAuth truthy (some username) (some password)).bind
      credentials = some (username, password) ↔
        ':' ∉ username.toList ∧ (false = true ∨ username ≠ "" ∧ password ≠ "") := by
    rw [hgiven, truthy, truthy, decide_eq_true_iff, decide_eq_true_iff,
      or_iff_right Bool.false_ne_true]
  cases sdk with
  | rust => exact hall
  | java => exact hall
  | _ => exact hfull

/-- An empty password is sent in Rust, and is read back. -/
theorem authorization_reads_iff_empty :
    (authorization basicAuth .rust (some "ann") (some "")).bind credentials = some ("ann", "") :=
  (authorization_reads_iff (fun _ _ => rfl) .rust "ann" "").mpr ⟨by decide, Or.inl rfl⟩

end Credentials

end Http

end DittoClient
