import Runscope.Documents
import Runscope.Tags

/-!
Redaction of log records (`logging.py`).

What stands under a sensitive key is replaced as a whole, so nothing about it
shows in the result.
-/

namespace Runscope

/-- The scalars of a JSON value. -/
inductive JsonScalar where
  | null
  | bool (b : Bool)
  | int (n : ℤ)
  | num (q : ℚ)
  | str (s : String)
  deriving DecidableEq

/-- The values `redact` is applied to. -/
abbrev JsonValue := Doc String JsonScalar

/-- `SENSITIVE_KEYS` -/
def sensitiveKeys : List String := ["authorization", "cookie", "password", "secret", "token"]

def isSensitiveKey (rt : Runtime) (key : String) : Bool :=
  let normalized := Python.replaceChar '-' '_' (rt.lower key)
  sensitiveKeys.any fun fragment => Python.isIn fragment normalized

/-- `"[REDACTED]"` -/
def marker : JsonValue := .scalar (.str "[REDACTED]")

def redact (rt : Runtime) : JsonValue → JsonValue
  | .object keys nodup value =>
    .object keys nodup fun key h =>
      if isSensitiveKey rt key then marker else redact rt (value key h)
  | .array length item => .array length fun i => redact rt (item i)
  | .scalar s => .scalar s

section Redact

variable {rt : Runtime} {value value' : JsonValue} {path : List (Doc.Step String)}
  {key : String}

/-- Outside the sensitive keys paths lead to the same places. -/
theorem redact_get? (h : Doc.Visible (isSensitiveKey rt) path) :
    (redact rt value).get? path = (value.get? path).map (redact rt) := by
  induction path generalizing value with
  | nil => rw [Doc.get?_nil, Doc.get?_nil, Option.map_some]
  | cons step path ih =>
      cases value with
      | scalar s => cases step <;> rfl
      | array length item =>
          cases step with
          | key k => rfl
          | index i =>
              rw [redact, Doc.get?, Doc.get?]
              split
              · exact ih h.tail
              · rfl
      | object keys nodup value =>
          cases step with
          | index i => rfl
          | key k =>
              rw [redact, Doc.get?, Doc.get?]
              split
              · rw [if_neg (by rw [h.head]; exact Bool.false_ne_true)]
                exact ih h.tail
              · rfl

/-- Under a sensitive key stands the marker. -/
theorem redact_get?_sensitive (h : Doc.Visible (isSensitiveKey rt) path)
    (hkey : isSensitiveKey rt key) (hvalue : value.get? (path ++ [.key key]) = some value') :
    (redact rt value).get? (path ++ [.key key]) = some marker := by
  rw [Doc.get?_append] at hvalue ⊢
  rw [redact_get? h]
  cases hparent : value.get? path with
  | none =>
      rw [hparent] at hvalue
      cases hvalue
  | some parent =>
      rw [hparent, Option.bind_some] at hvalue
      rw [Option.map_some, Option.bind_some]
      cases parent with
      | scalar s => cases hvalue
      | array length item => cases hvalue
      | object keys nodup value =>
          rw [Doc.get?] at hvalue
          rw [redact, Doc.get?]
          split at hvalue
          · next hmem => rw [dif_pos hmem, if_pos hkey, Doc.get?_nil]
          · cases hvalue

/-- Scalars outside the sensitive keys stay, and no others appear. -/
theorem redact_get?_scalar (h : Doc.Visible (isSensitiveKey rt) path) {s : JsonScalar} :
    (redact rt value).get? path = some (.scalar s) ↔ value.get? path = some (.scalar s) := by
  rw [redact_get? h]
  cases hfound : value.get? path with
  | none => rfl
  | some found => cases found <;> simp [redact]

/-- Values that differ under sensitive keys only are redacted alike. -/
theorem redact_alike {arranged : List String → List String → Prop}
    (h : Doc.Alike (isSensitiveKey rt) arranged value value') :
    Doc.Alike (fun _ => false) arranged (redact rt value) (redact rt value') := by
  induction h with
  | scalar s => exact .scalar s
  | array h ih => exact .array ih
  | object hkeys h ih =>
      refine .object hkeys fun k hk hk' _ => ?_
      by_cases hsensitive : isSensitiveKey rt k
      · rw [if_pos hsensitive, if_pos hsensitive]
        exact .scalar _
      · rw [if_neg hsensitive, if_neg hsensitive]
        exact ih k hk hk' (Bool.eq_false_of_not_eq_true hsensitive)

theorem redact_redact : redact rt (redact rt value) = redact rt value := by
  induction value with
  | scalar s => rfl
  | array length item ih =>
      rw [redact, redact]
      exact congrArg _ (funext ih)
  | object keys nodup value ih =>
      rw [redact, redact]
      apply congrArg (Doc.object keys nodup)
      ext k hk
      by_cases hsensitive : isSensitiveKey rt k
      · rw [if_pos hsensitive, if_pos hsensitive]
      · rw [if_neg hsensitive, if_neg hsensitive]
        exact ih k hk

end Redact

/-- Redaction shows nothing of what stands under sensitive keys: it replaces
that by the marker, keeps the other scalars where they are, and has nothing to
do a second time. -/
theorem redact_noninterfering (rt : Runtime) :
    (∀ value value', Doc.Alike (isSensitiveKey rt) List.Perm value value' →
      (redact rt value).Same (redact rt value')) ∧
    (∀ value value', Doc.Alike (isSensitiveKey rt) Eq value value' →
      redact rt value = redact rt value') ∧
    (∀ value path key, Doc.Visible (isSensitiveKey rt) path → isSensitiveKey rt key →
      ∀ value', value.get? (path ++ [.key key]) = some value' →
        (redact rt value).get? (path ++ [.key key]) = some marker) ∧
    (∀ value path s, Doc.Visible (isSensitiveKey rt) path →
      ((redact rt value).get? path = some (.scalar s) ↔ value.get? path = some (.scalar s))) ∧
    ∀ value, redact rt (redact rt value) = redact rt value :=
  ⟨fun _ _ h => redact_alike h, fun _ _ h => (redact_alike h).eq,
    fun _ _ _ h hkey _ hvalue => redact_get?_sensitive h hkey hvalue,
    fun _ _ _ h => redact_get?_scalar h, fun _ => redact_redact⟩

namespace Demo

/-- A record of a request with a token. -/
def signIn (token : String) : JsonValue :=
  .object ["message", "Access-Token"] (by decide) fun key _ =>
    .scalar (.str (if key = "message" then "Signed in" else token))

/-- The records of two requests, in an array under a key. -/
def requestLog (token : String) : JsonValue :=
  .object ["requests"] (by decide) fun _ _ =>
    .array 2 fun i => if i = 0 then .scalar .null else signIn token

theorem sensitive_token : isSensitiveKey lowercase "Access-Token" = true := by decide +kernel

theorem signIn_alike (token token' : String) :
    Doc.Alike (isSensitiveKey lowercase) Eq (signIn token) (signIn token') := by
  refine .object rfl fun key hkey _ hvisible => ?_
  rcases List.mem_cons.mp hkey with rfl | hkey
  · exact .scalar _
  · obtain rfl := List.mem_singleton.mp hkey
    rw [sensitive_token] at hvisible
    cases hvisible

end Demo

/-- Two tokens look the same, deep in a record, and neither is shown. -/
theorem redact_noninterfering_token :
    redact Demo.lowercase (Demo.requestLog "one") = redact Demo.lowercase (Demo.requestLog "two") ∧
    (redact Demo.lowercase (Demo.requestLog "one")).get?
      [.key "requests", .index 1, .key "Access-Token"] = some marker := by
  constructor
  · refine (redact_noninterfering Demo.lowercase).2.1 _ _
      (.object rfl fun _ _ _ _ => .array fun i => ?_)
    split
    · exact .scalar _
    · exact Demo.signIn_alike "one" "two"
  · have hvisible : isSensitiveKey Demo.lowercase "requests" = false := by decide +kernel
    refine (redact_noninterfering Demo.lowercase).2.2.1 (Demo.requestLog "one")
      [.key "requests", .index 1] "Access-Token" (fun key hkey => ?_) Demo.sensitive_token _ rfl
    obtain rfl : key = "requests" := by simpa using hkey
    exact hvisible

end Runscope
