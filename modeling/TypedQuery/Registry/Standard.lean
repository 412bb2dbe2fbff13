import TypedQuery.Member.Catalogue
import TypedQuery.Registry.Basic
/-!
The standard functions.

Where two of them share a name and a number of arguments, the first that fits is taken, so
the more specific signatures stand first.
-/
namespace TypedQuery
namespace Registry

open Catalogue

/-- A function without type parameters, or one registered over all of them. -/
def plain (name : String) (order : List Nat) (t : MemberTemplate)
    (order_lt : ∀ i ∈ order, i < order.length := by decide)
    (order_nodup : order.Nodup := by decide)
    (arity : (Member.definition t).arity = order.length := by decide) : Mapping :=
  .ofOrder name order .static (.definition t) order_lt order_nodup arity

/-- The same for a function that reads best behind its first argument. -/
def chained (name : String) (order : List Nat) (t : MemberTemplate)
    (order_lt : ∀ i ∈ order, i < order.length := by decide)
    (order_nodup : order.Nodup := by decide)
    (arity : (Member.definition t).arity = order.length := by decide) : Mapping :=
  .ofOrder name order .chained (.definition t) order_lt order_nodup arity

def stringFunctions : List Mapping := [
  plain "length" [0] stringLength,
  plain "startswith" [0, 1] stringStartsWith,
  plain "endswith" [0, 1] stringEndsWith,
  plain "substringof" [1, 0] stringContains,
  plain "substring" [0, 1] stringSubstringFrom,
  plain "substring" [0, 1, 2] stringSubstringRange,
  plain "replace" [0, 1, 2] stringReplaceString,
  plain "replace" [0, 1, 2] stringReplaceChar,
  plain "tolower" [0] stringToLower,
  plain "toupper" [0] stringToUpper,
  plain "trim" [0] stringTrim,
  plain "indexof" [0, 1] stringIndexOfString,
  plain "indexof" [0, 1] stringIndexOfChar,
  plain "concat" [0, 1] stringConcat]

def dateFunctions : List Mapping := [
  plain "day" [0] (dateTimePart "datetime.day" "Day"),
  plain "hour" [0] (dateTimePart "datetime.hour" "Hour"),
  plain "minute" [0] (dateTimePart "datetime.minute" "Minute"),
  plain "month" [0] (dateTimePart "datetime.month" "Month"),
  plain "second" [0] (dateTimePart "datetime.second" "Second"),
  plain "year" [0] (dateTimePart "datetime.year" "Year")]

def mathFunctions : List Mapping := [
  plain "sqrt" [0] (unary "math.sqrt" "Math" "Sqrt" .double),
  plain "round" [0] (unary "math.round" "Math" "Round" .double),
  plain "round" [0] (unary "decimal.round" "Decimal" "Round" .decimal),
  plain "floor" [0] (unary "math.floor" "Math" "Floor" .double),
  plain "floor" [0] (unary "decimal.floor" "Decimal" "Floor" .decimal),
  plain "ceiling" [0] (unary "math.ceiling" "Math" "Ceiling" .double),
  plain "ceiling" [0] (unary "decimal.ceiling" "Decimal" "Ceiling" .decimal)]

def sequenceFunctions : List Mapping := [
  plain "count" [0] collectionCount,
  plain "count" [0] enumerableCount,
  chained "any" [0, 1] enumerableAny,
  chained "all" [0, 1] enumerableAll,
  chained "select" [0, 1] enumerableSelect,
  chained "where" [0, 1] enumerableWhere,
  plain "sum" [0] (enumerableSum "enumerable.sum(int)" .int32),
  plain "sum" [0] (enumerableSum "enumerable.sum(double)" .double),
  plain "sum" [0] (enumerableSum "enumerable.sum(single)" .single),
  plain "sum" [0] (enumerableSum "enumerable.sum(decimal)" .decimal)]

def dictionaryFunctions : List Mapping := [
  chained "contains" [0, 1] dictionaryContainsKey]

def standard : Registry :=
  { mappings := stringFunctions ++ dateFunctions ++ mathFunctions ++ sequenceFunctions ++
      dictionaryFunctions }

end Registry
end TypedQuery
