import TypedQuery.Compile.Literal
import TypedQuery.Proofs.Numerals
/-!
Constants that queries have literals for.

Compilation makes no others: numbers are finite, and values of enumerations have been turned
into numbers. Such a constant survives being written and read, but for the sign of a zero.
-/
namespace TypedQuery

open Number

theorem Number.Binary.same_self {f : BinaryFormat} {x : Binary f} (hx : x.isFinite = true) :
    x.same x = true := by
  cases x with
  | nan | infinite => cases hx
  | finite => simp [same]

namespace Value

/-- There is a literal for the constant. -/
inductive Writable : Value → Prop
  | null : Writable .null
  | bool {b : Bool} : Writable (.bool b)
  | integer {k : Integral} {n : Int} {holds : k.Holds n} : Writable (.integer k n holds)
  | single {x : Binary .single} : x.isFinite = true → Writable (.single x)
  | double {x : Binary .double} : x.isFinite = true → Writable (.double x)
  | decimal {x : Decimal} : Writable (.decimal x)
  | string {s : String} : Writable (.string s)
  | guid {g : Guid} : Writable (.guid g)
  | dateTime {d : DateTime} : Writable (.dateTime d)
  | array {element : Ty} {items : List Value} : (∀ v ∈ items, Writable v) →
    Writable (.array element items)

/-- A whole number becomes a constant of the precision, or of the range, of its new type. -/
theorem ofIntAs?_cases {target : Ty} {n : Int} {v : Value} (h : ofIntAs? target n = some v) :
    (target = .single ∧ ∃ x, Binary.ofInt? n = some x ∧ v = .single x) ∨
      (target = .double ∧ ∃ x, Binary.ofInt? n = some x ∧ v = .double x) ∨
      (target = .decimal ∧ ∃ x, Decimal.ofInt? n = some x ∧ v = .decimal x) ∨
      ∃ k, target.integral? = some k ∧ ofInt? k n = some v := by
  unfold ofIntAs? at h
  split at h
  · obtain ⟨x, hx, rfl⟩ := Option.map_eq_some_iff.mp h
    exact .inl ⟨rfl, x, hx, rfl⟩
  · obtain ⟨x, hx, rfl⟩ := Option.map_eq_some_iff.mp h
    exact .inr (.inl ⟨rfl, x, hx, rfl⟩)
  · obtain ⟨x, hx, rfl⟩ := Option.map_eq_some_iff.mp h
    exact .inr (.inr (.inl ⟨rfl, x, hx, rfl⟩))
  · exact .inr (.inr (.inr (Option.bind_eq_some_iff.mp h)))

/-- A constant is of its new type already, or a whole number, or of single precision. -/
theorem convert?_cases {target : Ty} {v w : Value} (h : v.convert? target = some w) :
    (v.type = target ∧ w = v) ∨
      (∃ k n holds, v = .integer k n holds ∧ ofIntAs? target n = some w) ∨
      ∃ x, v = .single x ∧ target = .double ∧ w = .double x.convert := by
  unfold convert? at h
  split at h
  · next ht =>
    cases h
    exact .inl ⟨ht, rfl⟩
  · split at h
    · exact .inr (.inl ⟨_, _, _, rfl, h⟩)
    · split at h <;> cases h
      next ht => exact .inr (.inr ⟨_, rfl, ht, rfl⟩)
    · cases h

theorem writable_ofInt? {k : Integral} {n : Int} {v : Value} (h : ofInt? k n = some v) :
    v.Writable := by
  unfold ofInt? at h
  split at h <;> cases h
  exact .integer

theorem writable_ofIntAs? {target : Ty} {n : Int} {v : Value}
    (h : ofIntAs? target n = some v) : v.Writable := by
  rcases ofIntAs?_cases h with ⟨-, _, hx, rfl⟩ | ⟨-, _, hx, rfl⟩ | ⟨-, _, -, rfl⟩ | ⟨_, -, h⟩
  · exact .single (Binary.isFinite_of_ofInt? hx)
  · exact .double (Binary.isFinite_of_ofInt? hx)
  · exact .decimal
  · exact writable_ofInt? h

theorem Writable.convert? {target : Ty} {v w : Value} (hv : v.Writable)
    (h : v.convert? target = some w) : w.Writable := by
  rcases convert?_cases h with ⟨-, rfl⟩ | ⟨_, _, _, -, h⟩ | ⟨_, rfl, -, rfl⟩
  · exact hv
  · exact writable_ofIntAs? h
  · cases hv with
    | single hx => exact .double (Binary.isFinite_convert hx)

mutual
/-- The constant without signs before zeros, which are not read. -/
def settle : Value → Value
  | .decimal x => .decimal x.settle
  | .array t items => .array t (settles items)
  | v => v

def settles : List Value → List Value
  | [] => []
  | v :: vs => v.settle :: settles vs
end

theorem settles_eq_map (vs : List Value) : settles vs = vs.map settle := by
  induction vs with
  | nil => rfl
  | cons v vs ih => rw [settles, ih, List.map_cons]

@[simp]
theorem type_settle (v : Value) : v.settle.type = v.type := by
  cases v <;> rfl

theorem settle_ofInt? {n : Int} {x : Decimal} (h : Decimal.ofInt? n = some x) :
    x.settle = x := by
  unfold Decimal.ofInt? Decimal.ofParts? at h
  split at h <;> cases h
  simp only [Decimal.settle, Decimal.mk.injEq, and_true]
  by_cases hn : n < 0
  · have : n.natAbs ≠ 0 := by omega
    simp [hn, this]
  · simp [hn]

theorem settle_ofIntAs? {target : Ty} {n : Int} {v : Value} (h : ofIntAs? target n = some v) :
    v.settle = v := by
  rcases ofIntAs?_cases h with ⟨-, _, -, rfl⟩ | ⟨-, _, -, rfl⟩ | ⟨-, _, hx, rfl⟩ | ⟨_, -, h⟩
  · rfl
  · rfl
  · rw [settle, settle_ofInt? hx]
  · unfold ofInt? at h
    split at h <;> cases h
    rfl

/-- A conversion does not look at the sign of a zero. -/
theorem convert?_settle (target : Ty) (v : Value) :
    v.settle.convert? target = (v.convert? target).map settle := by
  unfold convert?
  rw [type_settle]
  by_cases ht : v.type = target
  · rw [if_pos ht, if_pos ht]
    rfl
  rw [if_neg ht, if_neg ht]
  cases v with
  | integer k n holds =>
    simp only [settle]
    cases hw : ofIntAs? target n with
    | none => rfl
    | some w => rw [Option.map_some, settle_ofIntAs? hw]
  | single x =>
    simp only [settle]
    split <;> rfl
  | _ => rfl

mutual
/-- The sign of a zero does not count in a comparison, and no constant with a literal is
different from itself. -/
theorem same_settle : ∀ v : Value, v.Writable → v.settle.same v = true
  | .null, _ | .bool _, _ | .string _, _ | .guid _, _ | .dateTime _, _ | .integer .., _ => by
    simp [settle, same]
  | .char _, h | .enumCase .., h => by cases h
  | .single x, h => by
    cases h with
    | single hx => exact Binary.same_self hx
  | .double x, h => by
    cases h with
    | double hx => exact Binary.same_self hx
  | .decimal x, _ => by
    by_cases hx : x.coefficient = 0 <;> simp [settle, same, Decimal.settle, Decimal.same, hx]
  | .array t items, h => by
    cases h with
    | array hitems => simp [settle, same, sames_settle items hitems]

theorem sames_settle : ∀ vs : List Value, (∀ v ∈ vs, v.Writable) → sames (settles vs) vs = true
  | [], _ => rfl
  | v :: vs, h => by
    obtain ⟨hv, hvs⟩ := List.forall_mem_cons.mp h
    rw [settles, sames, same_settle v hv, sames_settle vs hvs]
    rfl
end

end Value

namespace NumberLiteral

/-- A whole number without a suffix is of one of two types. -/
theorem readWhole?_cases {body : List Char} {v : Value} (h : readWhole? body = some v) :
    ∃ n, Value.ofInt? .int32 n = some v ∨ Value.ofInt? .int64 n = some v := by
  obtain ⟨n, -, h⟩ := Option.bind_eq_some_iff.mp h
  refine ⟨n, ?_⟩
  cases hfits : Value.ofInt? .int32 n with
  | some w =>
    rw [hfits] at h
    exact .inl h
  | none =>
    rw [hfits] at h
    exact .inr h

/-- A literal has its value by its suffix, or else by its form. -/
theorem read?_cases {text : List Char} {literal : NumberLiteral} (h : read? text = some literal) :
    (∃ suffix, readSuffixed? suffix literal.body = some literal.value) ∨
      readPlain? literal.body = some literal.value := by
  unfold read? at h
  dsimp only at h
  split at h
  · cases h
  · obtain ⟨v, hv, rfl⟩ := Option.map_eq_some_iff.mp h
    split at hv
    · next suffix _ => exact .inl ⟨suffix, hv⟩
    · exact .inr hv

/-- What is expected of a literal changes its value only if it is a numeric type. -/
theorem valueFor_cases (literal : NumberLiteral) (expected : Option Ty) :
    literal.valueFor expected = literal.value ∨
      ∃ target, target.isNumeric = true ∧
        literal.as? target = some (literal.valueFor expected) := by
  unfold valueFor
  split
  · next target =>
    split
    · next htarget =>
      cases has : literal.as? target with
      | none => exact .inl rfl
      | some v => exact .inr ⟨target, (Bool.and_eq_true_iff.mp htarget).1, has⟩
    · exact .inl rfl
  · exact .inl rfl

theorem writable_readSuffixed? {suffix : Suffix} {body : List Char} {v : Value}
    (h : readSuffixed? suffix body = some v) : v.Writable := by
  cases suffix with
  | decimal =>
    obtain ⟨_, _, rfl⟩ := Option.map_eq_some_iff.mp h
    exact .decimal
  | single =>
    obtain ⟨x, hx, rfl⟩ := Option.map_eq_some_iff.mp h
    exact .single (Binary.isFinite_of_readFinite? hx)
  | double =>
    obtain ⟨x, hx, rfl⟩ := Option.map_eq_some_iff.mp h
    exact .double (Binary.isFinite_of_readFinite? hx)
  | int64 =>
    obtain ⟨n, _, h⟩ := Option.bind_eq_some_iff.mp h
    exact Value.writable_ofInt? h

theorem writable_readPlain? {body : List Char} {v : Value} (h : readPlain? body = some v) :
    v.Writable := by
  unfold readPlain? at h
  split at h
  · obtain ⟨x, hx, rfl⟩ := Option.map_eq_some_iff.mp h
    exact .double (Binary.isFinite_of_readFinite? hx)
  · obtain ⟨_, h | h⟩ := readWhole?_cases h
    · exact Value.writable_ofInt? h
    · exact Value.writable_ofInt? h

theorem writable_value {text : List Char} {literal : NumberLiteral}
    (h : read? text = some literal) : literal.value.Writable := by
  rcases read?_cases h with ⟨_, hv⟩ | hv
  · exact writable_readSuffixed? hv
  · exact writable_readPlain? hv

theorem writable_as? {literal : NumberLiteral} (hl : literal.value.Writable) {target : Ty}
    {v : Value} (h : literal.as? target = some v) : v.Writable := by
  unfold as? at h
  split at h
  · exact hl.convert? h
  · split at h
    · obtain ⟨x, hx, rfl⟩ := Option.map_eq_some_iff.mp h
      exact .single (Binary.isFinite_of_readFinite? hx)
    · obtain ⟨x, hx, rfl⟩ := Option.map_eq_some_iff.mp h
      exact .double (Binary.isFinite_of_readFinite? hx)
    · obtain ⟨_, _, rfl⟩ := Option.map_eq_some_iff.mp h
      exact .decimal
    · cases h

/-- Whatever a number literal is read as can be written again. -/
theorem writable_valueFor {text : List Char} {literal : NumberLiteral}
    (h : read? text = some literal) (expected : Option Ty) :
    (literal.valueFor expected).Writable := by
  have hvalue := writable_value h
  rcases valueFor_cases literal expected with heq | ⟨_, -, has⟩
  · rwa [heq]
  · exact writable_as? hvalue has

end NumberLiteral
end TypedQuery
