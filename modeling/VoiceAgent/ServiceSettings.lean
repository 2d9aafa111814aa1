import VoiceAgent.SessionView
import Mathlib.Data.Rat.Defs

/-!
The settings of a service: the schema a profile gives, what becomes of a client's values under
it, and where they are written. Python's floats are texts with a value; the conversions and the
subtraction of floats are parameters.
-/
namespace VoiceAgent.ServiceSettings

open JsonValues SessionView

section Numbers

/-- The exceptions that leave the functions below. -/
inductive Raised
  | typeError | overflowError | keyError | valueError
  deriving DecidableEq

/-- What a number is worth. -/
inductive Worth
  | nan
  | negInf
  | finite (q : ℚ)
  | posInf
  deriving DecidableEq

namespace Worth

/-- `a < b`; nothing is less than a NaN, nor greater. -/
def lt : Worth → Worth → Bool
  | .nan, _ | _, .nan | _, .negInf | .posInf, _ => false
  | .negInf, _ | _, .posInf => true
  | .finite p, .finite q => decide (p < q)

def le (a b : Worth) : Bool := lt a b || (decide (a = b) && decide (a ≠ .nan))

def isFinite : Worth → Bool
  | .finite _ => true
  | _ => false

end Worth

/-- Python's numbers: what a float is worth, the conversions from text, and the subtraction of
floats; `ofInt` is none where `float` overflows. -/
structure Floats where
  worth : String → Worth
  ofInt : ℤ → Option String
  parseInt : String → Option ℤ
  parseFloat : String → Option String
  sub : String → String → String
  lower : String → String

variable (F : Floats)

/-- What a value is worth, where it is a number. -/
def Floats.number? : Json → Option Worth
  | .bool b => some (.finite (if b then 1 else 0))
  | .int n => some (.finite n)
  | .float text => some (F.worth text)
  | _ => none

def compare (rel : Worth → Worth → Bool) (a b : Json) : Except Raised Bool :=
  match F.number? a, F.number? b with
  | some x, some y => .ok (rel x y)
  | _, _ => .error .typeError

/-- `max(value, bound)`. -/
def maxOf (value bound : Json) : Except Raised Json := do
  if ← compare F Worth.lt value bound then return bound else return value

def minOf (value bound : Json) : Except Raised Json := do
  if ← compare F Worth.lt bound value then return bound else return value

/-- `limit - reserve`. -/
def minus (limit : Json) (reserve : ℕ) : Except Raised Json :=
  match limit with
  | .int n => .ok (.int (n - reserve))
  | .bool b => .ok (.int ((if b then 1 else 0) - reserve))
  | .float text =>
    match F.ofInt reserve with
    | some r => .ok (.float (F.sub text r))
    | none => .error .overflowError
  | _ => .error .typeError

/-- `int(value)` or `float(value)` of a value that is no bool: none for a `TypeError` or a
`ValueError`. -/
def toInt (value : Json) : Except Raised (Option ℤ) :=
  match value with
  | .int n => .ok (some n)
  | .float text =>
    match F.worth text with
    | .finite q => .ok (some (q.num.tdiv q.den))
    | .nan => .ok none
    | .negInf | .posInf => .error .overflowError
  | .str text => .ok (F.parseInt text)
  | _ => .ok none

def toFloat (value : Json) : Except Raised (Option String) :=
  match value with
  | .int n =>
    match F.ofInt n with
    | some text => .ok (some text)
    | none => .error .overflowError
  | .float text => .ok (some text)
  | .str text => .ok (F.parseFloat text)
  | _ => .ok none

mutual
/-- `a == b` -/
def pyEqual : Json → Json → Bool
  | .null, .null => true
  | .str s, .str t => decide (s = t)
  | .arr xs, .arr ys => itemsEqual xs ys
  | .obj f, .obj g => decide (f.length = g.length) && fieldsEqual f g
  | a, b =>
    match F.number? a, F.number? b with
    | some x, some y => decide (x = y) && decide (x ≠ .nan)
    | _, _ => false

def itemsEqual : Items → Items → Bool
  | .nil, .nil => true
  | .cons v xs, .cons w ys => pyEqual v w && itemsEqual xs ys
  | _, _ => false

def fieldsEqual : Fields → Fields → Bool
  | .nil, _ => true
  | .cons key value rest, g =>
    (match g.get? key with
      | some w => pyEqual value w
      | none => false) && fieldsEqual rest g
end

/-- `raw in (options or [])`; what Python raises for is caught. -/
def isOption (raw options : Json) : Bool :=
  match options, raw with
  | .arr items, _ => items.toList.any (pyEqual F raw)
  | .obj f, .str key => (f.get? key).isSome
  | .str text, .str part => text.toList.tails.any part.toList.isPrefixOf && decide (text ≠ "")
  | _, _ => false

end Numbers

section Schema

inductive Kind
  | bool | int | float | enum
  deriving DecidableEq

/-- One setting of a schema. A bound may be given as null, and `requires` as any value: null for
none. A `below` that is not null is the name of a setting, and `reserve` a number: the profiles
are checked for that. -/
structure Setting where
  kind : Kind
  default : Json := .null
  min : Option Json := none
  max : Option Json := none
  options : Json := .null
  requires : Json := .null
  below : Option String := none
  reserve : ℕ := 0
  path : String
  deriving DecidableEq

abbrev Schema := List (String × Setting)

variable (F : Floats)

/-- A bound that is not null. -/
def bound (value : Option Json) : Option Json := value.bind fun v => if v = .null then none else v

def clamp (spec : Setting) (value : Json) : Except Raised Json := do
  let value ← match bound spec.min with
    | some low => maxOf F value low
    | none => .ok value
  match bound spec.max with
  | some high => minOf F value high
  | none => .ok value

/-- A text of "true" or "false", in any case. -/
def readBool (text : String) : Option Bool :=
  if F.lower (stripString text) = "true" then some true
  else if F.lower (stripString text) = "false" then some false
  else none

/-- `math.isfinite` raises for an int that no float reaches. -/
def coerceNumber (kind : Kind) (raw : Json) : Except Raised (Option Json) :=
  match kind, raw with
  | _, .bool _ => .ok none
  | .int, raw => do
    match ← toInt F raw with
    | none => .ok none
    | some n => if (F.ofInt n).isSome then .ok (some (.int n)) else .error .overflowError
  | _, raw => do
    match ← toFloat F raw with
    | none => .ok none
    | some text => .ok (if (F.worth text).isFinite then some (.float text) else none)

def coerceSetting (spec : Setting) (raw : Option Json) : Except Raised Json :=
  match raw with
  | none | some .null => .ok spec.default
  | some raw =>
    match spec.kind, raw with
    | .bool, .bool b => .ok (.bool b)
    | .bool, .str text => .ok (((readBool F text).map .bool).getD spec.default)
    | .bool, _ => .ok spec.default
    | .enum, raw => .ok (if isOption F raw spec.options then raw else spec.default)
    | kind, raw => do
      match ← coerceNumber F kind raw with
      | none => .ok spec.default
      | some value => clamp F spec value

/-- The value under its limit; null where that is less than the minimum. -/
def capBelow (spec : Setting) (value limit : Json) : Except Raised Json :=
  if limit = .null then .ok value
  else do
    let cap ← minus F limit spec.reserve
    if ← compare F Worth.le value cap then return value
    else if ← compare F Worth.lt cap (spec.min.getD (.int 0)) then return .null
    else return cap

/-- The settings by name; null for one that is turned off. -/
abbrev Resolved := String → Json

def Resolved.set (resolved : Resolved) (name : String) (value : Json) : Resolved :=
  fun key => if key = name then value else resolved key

/-- `resolved.get(requirement)` is looked up where the setting has a value; a list or a mapping
cannot be. -/
def active (resolved : Resolved) (name : String) (spec : Setting) : Except Raised Bool :=
  if resolved name = .null then .ok false
  else if truthy (some spec.requires) = false then .ok true
  else
    match spec.requires with
    | .str requirement => .ok (truthy (some (resolved requirement)))
    | .arr _ | .obj _ => .error .typeError
    | _ => .ok false

def coerceAll (values : Fields) : Schema → Except Raised Resolved
  | [] => .ok fun _ => .null
  | (name, spec) :: rest => do
    let value ← coerceSetting F spec (values.get? name)
    let resolved ← coerceAll values rest
    .ok (resolved.set name value)

/-- The setting that a setting is kept under; an empty name counts as none. -/
def Setting.limit? (spec : Setting) : Option String := spec.below.filter (· ≠ "")

/-- What a setting under its limit comes to is noted; one that is turned off turns off what it
requires. -/
def Resolved.lower (resolved : Resolved) (name : String) (spec : Setting) (value : Json) :
    Resolved :=
  match spec.requires with
  | .str requirement =>
    if value = .null ∧ requirement ≠ "" then (resolved.set name value).set requirement (.bool false)
    else resolved.set name value
  | _ => resolved.set name value

/-- One round of the loop over the settings with a limit. -/
def capStep (resolved : Resolved) (setting : String × Setting) : Except Raised Resolved :=
  let (name, spec) := setting
  match spec.limit? with
  | none => .ok resolved
  | some below => do
    if ← active resolved name spec then
      let value ← capBelow F spec (resolved name) (resolved below)
      return resolved.lower name spec value
    else return resolved

def resolve (schema : Schema) (values : Fields) : Except Raised Resolved := do
  schema.foldlM (capStep F) (← coerceAll F values schema)

def splitPath (path : String) : List String := (path.toList.splitOn '.').map String.ofList

def setPath (value : Json) : List String → Fields → Fields
  | [], target => target
  | [leaf], target => target.set leaf value
  | part :: rest, target =>
    target.set part (.obj (setPath value rest (objectOr (target.get? part))))

def popPath : List String → Fields → Fields
  | [], target => target
  | [leaf], target => target.filter (· ≠ leaf)
  | part :: rest, target =>
    match target.get? part with
    | some (.obj child) => target.set part (.obj (popPath rest child))
    | _ => target

def getPath : List String → Fields → Option Json
  | [], target => some (.obj target)
  | [leaf], target => target.get? leaf
  | part :: rest, target =>
    match target.get? part with
    | some (.obj child) => getPath rest child
    | _ => none

def writeSetting (resolved : Resolved) (out : Fields) (setting : String × Setting) :
    Except Raised Fields := do
  if ← active resolved setting.1 setting.2 then
    return setPath (resolved setting.1) (splitPath setting.2.path) out
  else return popPath (splitPath setting.2.path) out

def applyServiceSettings (extraParams : Fields) (schema : Schema) (values : Fields) :
    Except Raised Fields := do
  let resolved ← resolve F schema values
  schema.foldlM (writeSetting resolved) extraParams

end Schema

end VoiceAgent.ServiceSettings
