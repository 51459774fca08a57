import QueryPlan.Failure
import QueryPlan.Json.Printer

/-!
# Storage settings

The size of a page and the pages of the buffer pool. All three settings are positive.
-/

namespace QueryPlan

/-- Bytes per page, pages in the buffer pool, and pages granted to a join. -/
structure Settings where
  pageSize : Nat := 4096
  numBuffers : Nat := 100
  buffersPerJoin : Nat := 10
  pageSize_pos : 0 < pageSize := by decide
  numBuffers_pos : 0 < numBuffers := by decide
  buffersPerJoin_pos : 0 < buffersPerJoin := by decide
  deriving Repr, DecidableEq

namespace Settings

instance : Inhabited Settings := ⟨{}⟩

/-- The positive number that a value stands for as a setting: a positive integer, or the truth value
that counts as one. -/
def positive? : Json → Option { n : Nat // 0 < n }
  | .int n => if h : 0 < n.toNat then some ⟨n.toNat, h⟩ else none
  | .bool true => some ⟨1, Nat.one_pos⟩
  | _ => none

/-- A setting as a positive number. -/
def check (setting : String) (value : Json) : Except Failure { n : Nat // 0 < n } :=
  (positive? value).elim (.error (.notPositive setting value.shown)) .ok

/-- The settings given by three values; the first one that is no positive integer is reported. -/
def ofValues (pageSize numBuffers buffersPerJoin : Json) : Except Failure Settings := do
  let ⟨p, hp⟩ ← check "page_size" pageSize
  let ⟨n, hn⟩ ← check "num_buffers" numBuffers
  let ⟨b, hb⟩ ← check "buffers_per_join" buffersPerJoin
  return ⟨p, n, b, hp, hn, hb⟩

/-- The settings given by the members of an object; those that are missing have their defaults. -/
def ofMembers (members : List (String × Json)) : Except Failure Settings :=
  let value (setting : String) (standard : Nat) : Json :=
    (Json.member? setting members).getD (.int standard)
  ofValues (value "page_size" 4096) (value "num_buffers" 100) (value "buffers_per_join" 10)

end Settings

end QueryPlan
