import Mathlib.Data.Int.Log
import Mathlib.Data.Rat.Floor
import Mathlib.Tactic.NormNum
import Runscope.Database
import Runscope.Python

/-!
The trusted training templates (`templates/`): their parameter models and the
registry.
-/

namespace Runscope

/-- Functions of Python, its packages and the database that the services call. -/
structure Runtime where
  /-- `str.lower` -/
  lower : String → String
  /-- `lower` of the database, which goes by its locale and letter by letter. -/
  sqlLower : String → String
  /-- `hashlib.sha256(data).hexdigest()` -/
  sha256 : ByteArray → String
  /-- Pydantic's conversions to a field's type, `none` where it rejects. -/
  toInt : Value → Option ℤ
  toFloat : Value → Option ℚ
  toBool : Value → Option Bool
  /-- `ValidationError.errors` of a rejected dictionary, as text. -/
  errors : Record → String

/-- `str.strip` -/
def Runtime.strip (_ : Runtime) : String → String := Python.strip

structure IrisClassificationParameters where
  nEstimators : ℤ
  maxDepth : ℤ
  testSize : ℚ
  randomState : ℤ
  nEstimators_bounds : 10 ≤ nEstimators ∧ nEstimators ≤ 500
  maxDepth_bounds : 1 ≤ maxDepth ∧ maxDepth ≤ 30
  testSize_bounds : 1 / 10 ≤ testSize ∧ testSize ≤ 1 / 2
  randomState_bounds : 0 ≤ randomState ∧ randomState ≤ 2147483647

structure SlowDemoParameters where
  durationSeconds : ℚ
  intervalSeconds : ℚ
  failIntentionally : Bool
  durationSeconds_bounds : 2 ≤ durationSeconds ∧ durationSeconds ≤ 30
  intervalSeconds_bounds : 1 / 4 ≤ intervalSeconds ∧ intervalSeconds ≤ 2

/-- `Field(default=…, ge=lo, le=hi)`: an absent field takes its default. -/
def boundedField {α : Type} [LE α] [DecidableLE α] (convert : Value → Option α) (lo hi : α)
    (default : { x : α // lo ≤ x ∧ x ≤ hi }) (values : Record) (name : String) :
    Option { x : α // lo ≤ x ∧ x ≤ hi } :=
  match values.get? name with
  | none => some default
  | some v =>
    match convert v with
    | none => none
    | some x => if h : lo ≤ x ∧ x ≤ hi then some ⟨x, h⟩ else none

/-- `extra="forbid"` -/
def noExtra (values : Record) (names : List String) : Bool := values.all fun x => x.1 ∈ names

def IrisClassificationParameters.modelValidate (rt : Runtime) (values : Record) :
    Option IrisClassificationParameters := do
  let nEstimators ←
    boundedField rt.toInt 10 500 ⟨100, by decide⟩ values "n_estimators"
  let maxDepth ← boundedField rt.toInt 1 30 ⟨6, by decide⟩ values "max_depth"
  let testSize ← boundedField rt.toFloat (1 / 10) (1 / 2) ⟨1 / 5, by norm_num⟩ values "test_size"
  let randomState ←
    boundedField rt.toInt 0 2147483647 ⟨42, by decide⟩ values "random_state"
  if noExtra values ["n_estimators", "max_depth", "test_size", "random_state"] then
    some ⟨nEstimators.1, maxDepth.1, testSize.1, randomState.1, nEstimators.2, maxDepth.2,
      testSize.2, randomState.2⟩
  else none

def SlowDemoParameters.modelValidate (rt : Runtime) (values : Record) :
    Option SlowDemoParameters := do
  let durationSeconds ←
    boundedField rt.toFloat 2 30 ⟨8, by norm_num⟩ values "duration_seconds"
  let intervalSeconds ←
    boundedField rt.toFloat (1 / 4) 2 ⟨1, by norm_num⟩ values "interval_seconds"
  let failIntentionally ←
    match values.get? "fail_intentionally" with
    | none => some false
    | some v => rt.toBool v
  if noExtra values ["duration_seconds", "interval_seconds", "fail_intentionally"] then
    some ⟨durationSeconds.1, intervalSeconds.1, failIntentionally, durationSeconds.2,
      intervalSeconds.2⟩
  else none

/-- An instance of one of the parameter models. -/
inductive Parameters where
  | classification (p : IrisClassificationParameters)
  | slowDemo (p : SlowDemoParameters)

/-- `model_dump(mode="json")` -/
def Parameters.modelDump : Parameters → Record
  | classification p => [("n_estimators", .int p.nEstimators), ("max_depth", .int p.maxDepth),
      ("test_size", .num p.testSize), ("random_state", .int p.randomState)]
  | slowDemo p => [("duration_seconds", .num p.durationSeconds),
      ("interval_seconds", .num p.intervalSeconds),
      ("fail_intentionally", .bool p.failIntentionally)]

theorem Parameters.modelDump_nodup (parameters : Parameters) :
    (parameters.modelDump.map Prod.fst).Nodup := by
  cases parameters <;> simp [modelDump]

inductive ParameterModel where
  | irisClassification | slowDemo
  deriving DecidableEq

structure TemplateDefinition where
  key : String
  version : String
  parameterModel : ParameterModel
  /-- Whether `execute` is set. -/
  executes : Bool
  deriving DecidableEq

def TemplateDefinition.validateParameters (rt : Runtime) (d : TemplateDefinition)
    (values : Record) : Option Parameters :=
  match d.parameterModel with
  | .irisClassification =>
      (IrisClassificationParameters.modelValidate rt values).map .classification
  | .slowDemo => (SlowDemoParameters.modelValidate rt values).map .slowDemo

def registry : List TemplateDefinition :=
  [⟨"sklearn-iris-classification", "1.0.0", .irisClassification, true⟩,
    ⟨"slow-demonstration", "1.0.0", .slowDemo, false⟩]

/-- `registry.get` -/
def registryGet (key version : String) : Except Exc TemplateDefinition :=
  match registry.find? fun d => d.key = key ∧ d.version = version with
  | some d => .ok d
  | none => .error (.key s!"Unregistered template {key}:{version}")

/-- `max(1, math.ceil(duration_seconds / interval_seconds))` -/
def SlowDemoParameters.totalSteps (p : SlowDemoParameters) : ℕ :=
  max 1 ⌈p.durationSeconds / p.intervalSeconds⌉.toNat

/-- The nearest integer, the even one of two. -/
def roundHalfEven (q : ℚ) : ℤ :=
  let n := ⌊q⌋
  let rest := q - n
  if rest < 1 / 2 then n else if 1 / 2 < rest then n + 1 else if n % 2 = 0 then n else n + 1

/-- The double nearest to a number that is neither too large nor too small for
53 significant bits. -/
def toDouble (q : ℚ) : ℚ :=
  let ulp : ℚ := 2 ^ (Int.log 2 q - 52)
  roundHalfEven (q / ulp) * ulp

/-- `f"{q:.0%}"`, which multiplies as doubles do before it rounds. -/
def percent (q : ℚ) : String := s!"{roundHalfEven (toDouble (toDouble q * 100))}%"

example : percent (23 / 40) = "57%" := by decide +kernel

/-- `json.dumps({"completed_steps": n, "progress": 1.0}, indent=2).encode()` -/
def progressJson (n : ℕ) : ByteArray :=
  ("\x7b\n  \"completed_steps\": " ++ toString n ++ ",\n  \"progress\": 1.0\n\x7d").toUTF8

end Runscope
