import TypedQuery.Member.Basic
/-!
The library members that queries can call: accessors of strings and dates, arithmetic, and
the generic operations on sequences and dictionaries.

Two of them are no functions of the query language. `dictionaryGet` is what an indexer
compiles to, and `enumerableContains` is what `in` compiles to.
-/
namespace TypedQuery
namespace Catalogue

/-- A class that only carries static members. -/
def staticClass (name : String) : Ty := .entity name

def stringMethod (id name : String) (params : List Ty) (result : Ty) : MemberTemplate :=
  { id := id, name := name, kind := .method params, declaring := .string, result := result }

/-! ## Strings -/

def stringLength : MemberTemplate :=
  { id := "string.length", name := "Length", kind := .property, declaring := .string,
    result := .int32 }

def stringStartsWith : MemberTemplate :=
  stringMethod "string.startswith" "StartsWith" [.string] .bool

def stringEndsWith : MemberTemplate :=
  stringMethod "string.endswith" "EndsWith" [.string] .bool

def stringContains : MemberTemplate :=
  stringMethod "string.contains" "Contains" [.string] .bool

def stringSubstringFrom : MemberTemplate :=
  stringMethod "string.substring(int)" "Substring" [.int32] .string

def stringSubstringRange : MemberTemplate :=
  stringMethod "string.substring(int,int)" "Substring" [.int32, .int32] .string

def stringReplaceString : MemberTemplate :=
  stringMethod "string.replace(string,string)" "Replace" [.string, .string] .string

def stringReplaceChar : MemberTemplate :=
  stringMethod "string.replace(char,char)" "Replace" [.char, .char] .string

def stringToLower : MemberTemplate := stringMethod "string.tolower" "ToLower" [] .string

def stringToUpper : MemberTemplate := stringMethod "string.toupper" "ToUpper" [] .string

def stringTrim : MemberTemplate := stringMethod "string.trim" "Trim" [] .string

def stringIndexOfString : MemberTemplate :=
  stringMethod "string.indexof(string)" "IndexOf" [.string] .int32

def stringIndexOfChar : MemberTemplate :=
  stringMethod "string.indexof(char)" "IndexOf" [.char] .int32

def stringConcat : MemberTemplate :=
  { id := "string.concat", name := "Concat", kind := .staticMethod [.string, .string],
    declaring := .string, result := .string }

/-! ## Dates and numbers -/

/-- A whole-number component of a date. -/
def dateTimePart (id name : String) : MemberTemplate :=
  { id := id, name := name, kind := .property, declaring := .dateTime, result := .int32 }

/-- A static function of one argument that stays within its type. -/
def unary (id className name : String) (t : Ty) : MemberTemplate :=
  { id := id, name := name, kind := .staticMethod [t], declaring := staticClass className,
    result := t }

/-! ## Sequences -/

def collectionCount : MemberTemplate :=
  { id := "collection.count", name := "Count", kind := .property,
    declaring := .collection (.ofDeclaring 0), result := .int32 }

/-- A static operation on sequences. -/
def sequenceMethod (id name : String) (params : List Ty) (result : Ty) : MemberTemplate :=
  { id := id, name := name, kind := .staticMethod params,
    declaring := staticClass "Enumerable", result := result }

/-- The type of a condition on the elements of a sequence. -/
def condition : Ty := .function [.ofMethod 0] .bool

def enumerableCount : MemberTemplate :=
  sequenceMethod "enumerable.count" "Count" [.enumerable (.ofMethod 0)] .int32

def enumerableAny : MemberTemplate :=
  sequenceMethod "enumerable.any" "Any" [.enumerable (.ofMethod 0), condition] .bool

def enumerableAll : MemberTemplate :=
  sequenceMethod "enumerable.all" "All" [.enumerable (.ofMethod 0), condition] .bool

def enumerableSelect : MemberTemplate :=
  sequenceMethod "enumerable.select" "Select"
    [.enumerable (.ofMethod 0), .function [.ofMethod 0] (.ofMethod 1)]
    (.enumerable (.ofMethod 1))

def enumerableWhere : MemberTemplate :=
  sequenceMethod "enumerable.where" "Where" [.enumerable (.ofMethod 0), condition]
    (.enumerable (.ofMethod 0))

/-- The sum over a sequence of `t`. -/
def enumerableSum (id : String) (t : Ty) : MemberTemplate :=
  sequenceMethod id "Sum" [.enumerable t] t

def enumerableContains : MemberTemplate :=
  sequenceMethod "enumerable.contains" "Contains" [.enumerable (.ofMethod 0), .ofMethod 0] .bool

/-! ## Dictionaries -/

def dictionaryMethod (id name : String) (params : List Ty) (result : Ty) : MemberTemplate :=
  { id := id, name := name, kind := .method params,
    declaring := .dictionary (.ofDeclaring 0) (.ofDeclaring 1), result := result }

def dictionaryContainsKey : MemberTemplate :=
  dictionaryMethod "dictionary.containskey" "ContainsKey" [.ofDeclaring 0] .bool

def dictionaryGet : MemberTemplate :=
  dictionaryMethod "dictionary.get_item" "get_Item" [.ofDeclaring 0] (.ofDeclaring 1)

end Catalogue
end TypedQuery
