import TypedQuery.Proofs.CallReading
import TypedQuery.Proofs.Inheritance
/-!
Type expressions and the texts of types.

The types that a schema expresses are built from the primitives and from the names it declares,
as far as those can be told from primitives. Reading an expression gives one of these types, and
each of them is read from its own text and from all texts with the same tokens.
-/
namespace TypedQuery

open TypeExpression (IsName Token runTokens Expressed)

/-- A name that an expression can have and that is not one of a primitive. -/
structure IsDeclarable (name : String) : Prop where
  isName : IsName name
  ne_boolean : name ≠ "Boolean"
  ne_primitive : ∀ p : Primitive, p ≠ .null → name ≠ p.name

namespace Primitive

theorem eq_of_ofName? {name : String} {p : Primitive} (h : ofName? name = some p) :
    name = "Boolean" ∨ p ≠ .null ∧ name = p.name := by
  unfold ofName? at h
  split at h <;> cases h <;> simp [Primitive.name]

theorem ofName?_eq_none_iff {name : String} :
    ofName? name = none ↔ name ≠ "Boolean" ∧ ∀ p : Primitive, p ≠ .null → name ≠ p.name := by
  constructor
  · intro h
    refine ⟨?_, fun p hp => ?_⟩
    · rintro rfl
      cases h
    · rintro rfl
      rw [ofName?_name hp] at h
      cases h
  · rintro ⟨hboolean, hprimitive⟩
    cases h : ofName? name with
    | none => rfl
    | some p =>
      rcases eq_of_ofName? h with heq | ⟨hp, heq⟩
      · exact absurd heq hboolean
      · exact absurd heq (hprimitive p hp)

end Primitive

namespace Schema

/-- The types that the expressions of a schema denote. -/
inductive Expressible (s : Schema) : Ty → Prop
  | primitive {p : Primitive} : p ≠ .null → Expressible s (.primitive p)
  | entity {d : EntityDecl} : d ∈ s.entities → IsDeclarable d.name →
    Expressible s (.entity d.name)
  | enum {d : EnumDecl} : d ∈ s.enums → IsDeclarable d.name → Expressible s (.enum d.definition)
  | array {t : Ty} : Expressible s t → Expressible s (.array t)
  | applied {c : Container} {ts : List Ty} : ts.length = c.arity →
    (∀ t ∈ ts, Expressible s t) → Expressible s (.applied c ts)

variable {s : Schema} {m : Model} {t : Ty}

theorem expressible_of_expressed (h : Expressed s.declared t) : s.Expressible t := by
  induction h with
  | primitive hp => exact .primitive hp
  | @declared name t hname hp ht =>
    obtain ⟨hboolean, hprimitive⟩ := Primitive.ofName?_eq_none_iff.mp hp
    have hdeclarable : IsDeclarable name := ⟨hname, hboolean, hprimitive⟩
    rcases declared_eq_some ht with ⟨d, hd, rfl, rfl⟩ | ⟨d, hd, rfl, rfl⟩
    · exact .entity hd hdeclarable
    · exact .enum hd hdeclarable
  | array _ ih => exact ih.array
  | applied harity _ ih => exact .applied harity ih

theorem Expressible.expressed (hs : s.Sound) (h : s.Expressible t) : Expressed s.declared t := by
  induction h with
  | primitive hp => exact .primitive hp
  | entity hd hname =>
    refine .declared hname.isName ?_ (declared_of_mem_entities hd)
    exact Primitive.ofName?_eq_none_iff.mpr ⟨hname.ne_boolean, hname.ne_primitive⟩
  | enum hd hname =>
    refine .declared hname.isName ?_ (declared_of_mem_enums hs.enums_nodup hs.disjoint hd)
    exact Primitive.ofName?_eq_none_iff.mpr ⟨hname.ne_boolean, hname.ne_primitive⟩
  | array _ ih => exact ih.array
  | applied harity _ ih => exact .applied harity ih

end Schema

/-- The tokens of a text: its longest runs of name characters and its other characters that are
no blanks, with one name for `Bool`. -/
def TypeExpression.spelling (text : String) : List Token :=
  (runTokens text.toList).map Token.canonical

open TypeExpression (spelling)

theorem TypeExpression.map_canonical_tokens (text : String) :
    (tokens text).map Token.canonical = spelling text := by
  rw [tokens_eq_runTokens, spelling]

/-- The name of the type that a cast or a type test is about. -/
def Query.typeArgument? : Query → Option String
  | .call _ args => args.getLast?.bind typeName?
  | _ => none

namespace Renderer

variable {r : Renderer} {e : Expr} {t : Ty} {q : Query}

theorem typeArgument?_of_typeOperator {op : String}
    (h : (if r.isReceiver e then .ok (.call op [typeName t])
      else r.query e >>= fun operand => .ok (.call op [operand, typeName t])) = .ok q) :
    q.typeArgument? = some t.text := by
  by_cases hthis : r.isReceiver e = true
  · rw [if_pos hthis] at h
    cases h
    exact Query.typeName?_typeName t
  · rw [if_neg hthis] at h
    obtain ⟨operand, _, h⟩ := except_bind_eq_ok.mp h
    cases h
    exact Query.typeName?_typeName t

/-- A cast and a type test are written with the text of their type. -/
theorem typeArgument?_of_query
    (h : r.query (.convert e t true) = .ok q ∨ r.query (.typeIs e t) = .ok q) :
    q.typeArgument? = some t.text := by
  rcases h with h | h
  · rw [query, if_neg (by decide)] at h
    exact typeArgument?_of_typeOperator h
  · rw [query] at h
    exact typeArgument?_of_typeOperator h

end Renderer

namespace Schema

variable {s : Schema} {m : Model} {t : Ty}

/-- What a text denotes in an accepted schema. -/
theorem resolveType?_eq_some_iff_spelling (h : s.resolve = .ok m) {text : String} :
    m.resolveType? text = some t ↔ s.Expressible t ∧ spelling text = spelling t.text := by
  rw [resolveType?_eq_some_iff h,
    TypeExpression.read_eq_ok_iff (fun _ _ => text_of_declared),
    TypeExpression.map_canonical_tokens, TypeExpression.map_canonical_tokens]
  exact and_congr_left fun _ =>
    ⟨expressible_of_expressed, Expressible.expressed (sound_of_resolve h)⟩

/-- Reading a type expression is the inverse of writing a type. What is read is expressible, each
expressible type is read from the texts that are spelled as its own, and from what a cast or a
type test is written with. -/
theorem resolveType?_inverse_text (h : s.resolve = .ok m) :
    (∀ text t, m.resolveType? text = some t → s.Expressible t) ∧
    ∀ t, s.Expressible t →
      (∀ text, m.resolveType? text = some t ↔ spelling text = spelling t.text) ∧
      m.resolveType? t.text = some t ∧
      ∀ (r : Renderer) (e : Expr) (q : Query),
        r.query (.convert e t true) = .ok q ∨ r.query (.typeIs e t) = .ok q →
          q.typeArgument?.bind m.resolveType? = some t := by
  refine ⟨fun text t ht => ((resolveType?_eq_some_iff_spelling h).mp ht).1, fun t ht => ?_⟩
  have hown : m.resolveType? t.text = some t :=
    (resolveType?_eq_some_iff_spelling h).mpr ⟨ht, rfl⟩
  refine ⟨fun text => ?_, hown, fun r e q hq => ?_⟩
  · rw [resolveType?_eq_some_iff_spelling h, and_iff_right ht]
  · rw [Renderer.typeArgument?_of_query hq, Option.bind_some, hown]

/-- A dictionary from an enumeration to arrays, with other blanks and the other name of `Bool`. -/
theorem resolveType?_inverse_text_dictionary :
    ∃ (s : Schema) (m : Model) (t : Ty), s.resolve = .ok m ∧ s.Expressible t ∧
      t.text = "Dictionary<Size, Bool[]>" ∧
      m.resolveType? " Dictionary < Size,Boolean[ ] >" = some t ∧
      m.resolveType? "Dictionary<Size, Bool>" ≠ some t := by
  let size : EnumDecl := ⟨"Size", some "Byte", [("Small", 0)]⟩
  have h : Schema.resolve ⟨[size], []⟩ = .ok ⟨[size.definition], []⟩ := by decide +kernel
  have hname : IsDeclarable size.name := by
    refine ⟨⟨by decide, List.all_eq_true.mp (by decide +kernel)⟩, by decide, fun p _ => ?_⟩
    cases p <;> decide
  have ht : Schema.Expressible ⟨[size], []⟩
      (.applied .dictionary [.enum size.definition, .array .bool]) := by
    refine .applied rfl (List.forall_mem_cons.mpr ⟨.enum List.mem_cons_self hname, ?_⟩)
    exact List.forall_mem_singleton.mpr (.array (.primitive (by decide)))
  obtain ⟨hiff, -⟩ := (resolveType?_inverse_text h).2 _ ht
  refine ⟨_, _, _, h, ht, by decide +kernel, ?_, ?_⟩
  · exact (hiff _).mpr (by decide +kernel)
  · exact fun hread => absurd ((hiff _).mp hread) (by decide +kernel)

end Schema
end TypedQuery
