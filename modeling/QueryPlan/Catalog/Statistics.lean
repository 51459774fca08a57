import QueryPlan.Failure
import QueryPlan.Number.Numeral
import QueryPlan.Text.Characters

/-!
# Table statistics

The statistics of a table are its number of tuples and, for every column in schema order, its number
of distinct values. They are kept in a text of two lines: the number of tuples alone on the first
line, the distinct counts separated by blanks on the second one.
-/

namespace QueryPlan

/-- The number of tuples of a table and the number of distinct values of each of its columns. -/
structure Statistics where
  tupleCount : Nat
  distinctCounts : List Nat
  deriving Repr, DecidableEq, Inhabited

namespace Statistics

/-- The integers that a list of tokens writes; the first token that writes none is reported. -/
def readCounts : List String → Except CatalogFault (List Int)
  | [] => .ok []
  | token :: tokens =>
    match readInteger? token with
    | none => .error (.badCount token)
    | some n => (readCounts tokens).map (n :: ·)

/-- The statistics of a number of tuples and of distinct counts, none of them negative. -/
def ofCounts (tuples : Int) (distinct : List Int) : Except CatalogFault Statistics :=
  if tuples < 0 || distinct.any (· < 0) then .error .negativeCount
  else .ok ⟨tuples.toNat, distinct.map Int.toNat⟩

/-- Reads statistics from lines, with as many distinct counts as there are columns. -/
def ofLines (columns : Int) : List String → Except CatalogFault Statistics
  | line₁ :: line₂ :: _ =>
    match Text.fields line₁ with
    | [token] =>
      let tokens := Text.fields line₂
      if (tokens.length : Int) ≠ columns then .error (.secondLineTokens tokens.length columns)
      else
        match readCounts [token] with
        | .error f => .error f
        | .ok counts =>
          match readCounts tokens with
          | .error f => .error f
          | .ok distinct => ofCounts (counts.headD 0) distinct
    | tokens => .error (.firstLineTokens tokens.length)
  | _ => .error .tooFewLines

/-- The text that statistics are written as: two lines of words. -/
def write (tuples : String) (distinct : List String) : String :=
  tuples ++ "\n" ++ String.intercalate " " distinct ++ "\n"

end Statistics

end QueryPlan
