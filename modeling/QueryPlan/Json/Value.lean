import QueryPlan.Number.Numeral

/-!
# JSON values

Objects keep the order of their members, whole numbers are exact, and numbers with a point or an
exponent are doubles. `Json.toInteger` is the integer that a value stands for: a number without its
fraction, a truth value as one or zero, or the integer that a text writes.
-/

namespace QueryPlan

/-- A JSON value. -/
inductive Json
  | null
  | bool (b : Bool)
  | int (n : Int)
  | real (x : Binary64)
  | str (s : String)
  | arr (items : List Json)
  | obj (members : List (String × Json))
  deriving Repr, Inhabited

/-- Why a JSON value stands for no integer. -/
inductive IntegerFault
  | badNumeral (text : String)
  | notANumber
  | infinite
  | wrongKind
  deriving Repr, DecidableEq

namespace Json

/-- The members of an object after one is set: a name that is there keeps its place. -/
def setMember (name : String) (value : Json) : List (String × Json) → List (String × Json)
  | [] => [(name, value)]
  | (n, v) :: members =>
    if n = name then (n, value) :: members else (n, v) :: setMember name value members

/-- The value of a member of an object. -/
def member? (name : String) : List (String × Json) → Option Json
  | [] => none
  | (n, v) :: members => if n = name then some v else member? name members

@[simp] theorem member?_setMember_self (name : String) (value : Json)
    (members : List (String × Json)) :
    member? name (setMember name value members) = some value := by
  induction members with
  | nil => simp [setMember, member?]
  | cons m ms ih =>
    obtain ⟨n, v⟩ := m
    by_cases h : n = name <;> simp [setMember, member?, h, ih]

theorem member?_setMember_of_ne {name other : String} (h : name ≠ other) (value : Json)
    (members : List (String × Json)) :
    member? other (setMember name value members) = member? other members := by
  induction members with
  | nil => simp [setMember, member?, h]
  | cons m ms ih =>
    obtain ⟨n, v⟩ := m
    by_cases hn : n = name
    · simp [setMember, member?, hn, h]
    · rw [setMember, if_neg hn, member?, member?, ih]

/-- The integer that a value stands for. -/
def toInteger : Json → Except IntegerFault Int
  | .int n => .ok n
  | .bool b => .ok (if b then 1 else 0)
  | .real x =>
    match x.truncate with
    | .ok n => .ok n
    | .error .infinite => .error .infinite
    | .error .notNumber => .error .notANumber
  | .str s => (readInteger? s).elim (.error (.badNumeral s)) .ok
  | .null | .arr _ | .obj _ => .error .wrongKind

end Json

end QueryPlan
