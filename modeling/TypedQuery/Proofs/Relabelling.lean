import TypedQuery.Proofs.Constants
import TypedQuery.Proofs.Graph
import TypedQuery.Proofs.Operands
/-!
Graphs that differ in what their types do not show.

The numbers of parameters and the sign of a zero are of no account to the compiler: it only
looks at types, at names, at texts and at whole numbers. So a change of the others commutes with
all that it does to graphs.
-/
namespace TypedQuery

/-- A change of parameters and constants that types do not show. -/
structure Relabelling where
  param : Param → Param
  value : Value → Value
  name_param : ∀ p, (param p).name = p.name
  type_param : ∀ p, (param p).type = p.type
  type_value : ∀ v, (value v).type = v.type
  string?_value : ∀ v, (value v).string? = v.string?
  convert?_value : ∀ t v, (value v).convert? t = (v.convert? t).map value
  value_integer : ∀ k n holds, value (.integer k n holds) = .integer k n holds
  value_bool : ∀ b, value (.bool b) = .bool b
  value_null : value .null = .null
  value_string : ∀ s, value (.string s) = .string s
  value_array : ∀ t vs, value (.array t vs) = .array t (vs.map value)

namespace Expr

mutual
def relabel (ρ : Relabelling) : Expr → Expr
  | .constant v => .constant (ρ.value v)
  | .parameter p => .parameter (ρ.param p)
  | .property e name t => .property (e.relabel ρ) name t
  | .memberAccess e m => .memberAccess (e.relabel ρ) m
  | .call m es => .call m (relabels ρ es)
  | .callOn e m es => .callOn (e.relabel ρ) m (relabels ρ es)
  | .binary op l r t => .binary op (l.relabel ρ) (r.relabel ρ) t
  | .convert e t explicit => .convert (e.relabel ρ) t explicit
  | .typeIs e t => .typeIs (e.relabel ρ) t
  | .newArray t es => .newArray t (relabels ρ es)
  | .lambda ps e => .lambda (ps.map ρ.param) (e.relabel ρ)
  | .quote e => .quote (e.relabel ρ)

def relabels (ρ : Relabelling) : List Expr → List Expr
  | [] => []
  | e :: es => e.relabel ρ :: relabels ρ es
end

variable (ρ : Relabelling)

theorem relabels_eq_map (es : List Expr) : relabels ρ es = es.map (relabel ρ) := by
  induction es with
  | nil => rfl
  | cons e es ih => rw [relabels, ih, List.map_cons]

mutual
@[simp]
theorem type_relabel : ∀ e : Expr, (e.relabel ρ).type = e.type
  | .constant v => ρ.type_value v
  | .parameter p => ρ.type_param p
  | .property .. | .memberAccess .. | .call .. | .callOn .. | .binary .. | .convert ..
  | .typeIs .. | .newArray .. => rfl
  | .lambda ps e => by
    have hps : (ps.map ρ.param).map Param.type = ps.map Param.type := by
      rw [List.map_map]
      exact List.map_congr_left fun p _ => ρ.type_param p
    rw [relabel, type, type, hps, type_relabel e]
  | .quote e => by rw [relabel, type, type, type_relabel e]
end

theorem map_type_relabel (es : List Expr) : (es.map (relabel ρ)).map type = es.map type := by
  rw [List.map_map]
  exact List.map_congr_left fun e _ => type_relabel ρ e

theorem constant?_relabel (e : Expr) : (e.relabel ρ).constant? = e.constant?.map ρ.value := by
  cases e <;> rfl

/-! ## Operators and arrays -/

theorem coerce_relabel (e : Expr) (t : Ty) : (e.relabel ρ).coerce t = (e.coerce t).relabel ρ := by
  unfold coerce
  rw [type_relabel]
  by_cases ht : e.type = t
  · rw [if_pos ht, if_pos ht]
  rw [if_neg ht, if_neg ht, constant?_relabel]
  cases e with
  | constant v =>
    simp only [constant?, Option.map_some, Option.bind_some, ρ.convert?_value]
    cases v.convert? t <;> rfl
  | _ => rfl

theorem promoted?_relabel (l r : Expr) :
    promoted? (l.relabel ρ) (r.relabel ρ) =
      (promoted? l r).map fun (t, l, r) => (t, l.relabel ρ, r.relabel ρ) := by
  unfold promoted?
  rw [type_relabel, type_relabel]
  cases Ty.promote? l.type r.type with
  | none => rfl
  | some t => simp [coerce_relabel]

theorem enumComparison?_relabel (l r : Expr) :
    enumComparison? (l.relabel ρ) (r.relabel ρ) = enumComparison? l r := by
  have hstring : (r.relabel ρ).constant?.bind Value.string? = r.constant?.bind Value.string? := by
    rw [constant?_relabel]
    cases r with
    | constant v => exact ρ.string?_value v
    | _ => rfl
  unfold enumComparison?
  rw [type_relabel, hstring]

theorem relabel_caseConstant {d : EnumDef} {name : String} {c : Expr}
    (h : caseConstant d name = .ok c) : c.relabel ρ = c := by
  unfold caseConstant at h
  split at h
  · cases h
  · split at h
    · cases h
    · next v hv =>
      cases h
      unfold Value.ofInt? at hv
      split at hv <;> cases hv
      rw [relabel, ρ.value_integer]

theorem conflict_relabel (op : BinaryOp) (l r : Expr) :
    conflict op (l.relabel ρ) (r.relabel ρ) = conflict op l r := by
  rw [conflict, conflict, type_relabel, type_relabel]

variable (h : Hierarchy) (op : BinaryOp) (l r : Expr)

theorem compareByNumber_relabel :
    compareByNumber (l.relabel ρ) (r.relabel ρ) =
      (compareByNumber l r).map (Prod.map (relabel ρ) (relabel ρ)) := by
  unfold compareByNumber
  simp only [enumComparison?_relabel]
  split
  · next d name _ =>
    cases hcase : caseConstant d name with
    | error => rfl
    | ok c => exact congrArg (fun c => Except.ok (_, c)) (relabel_caseConstant ρ hcase).symm
  · split
    · next d name _ =>
      cases hcase : caseConstant d name with
      | error => rfl
      | ok c => exact congrArg (fun c => Except.ok (c, _)) (relabel_caseConstant ρ hcase).symm
    · rfl

theorem equated_relabel :
    equated h op (l.relabel ρ) (r.relabel ρ) =
      (equated h op l r).map (Prod.map (relabel ρ) (relabel ρ)) := by
  unfold equated
  rw [promoted?_relabel, conflict_relabel]
  simp only [type_relabel]
  by_cases ht : l.type = r.type
  · rw [if_pos ht, if_pos ht]
    rfl
  rw [if_neg ht, if_neg ht]
  cases promoted? l r with
  | some p => rfl
  | none =>
    dsimp only [Option.map_none]
    split <;> rfl

theorem ordered_relabel :
    ordered op (l.relabel ρ) (r.relabel ρ) =
      (ordered op l r).map (Prod.map (relabel ρ) (relabel ρ)) := by
  unfold ordered
  rw [promoted?_relabel, conflict_relabel]
  simp only [type_relabel]
  cases promoted? l r with
  | some p => rfl
  | none =>
    dsimp only [Option.map_none]
    split <;> rfl

/-- Operators do not see the change, whether they fit their operands or not. -/
theorem combine_relabel :
    combine h op (l.relabel ρ) (r.relabel ρ) = (combine h op l r).map (relabel ρ) := by
  unfold combine
  rw [promoted?_relabel, conflict_relabel, compareByNumber_relabel, ordered_relabel]
  simp only [type_relabel]
  split
  · split <;> rfl
  split
  · cases promoted? l r <;> rfl
  split
  · cases compareByNumber l r with
    | error => rfl
    | ok operands =>
      obtain ⟨l, r⟩ := operands
      simp only [Except.map, Prod.map, bind, Except.bind, equated_relabel]
      cases equated h op l r <;> rfl
  · cases ordered op l r <;> rfl

theorem search_relabel :
    search (l.relabel ρ) (r.relabel ρ) = (search l r).map (relabel ρ) := by
  unfold search
  simp only [type_relabel]
  split
  · split <;> rfl
  · rfl

theorem mapM_constant?_relabel (items : List Expr) :
    (items.map (relabel ρ)).mapM constant? = (items.mapM constant?).map (List.map ρ.value) := by
  rw [← mapM_map_option]
  induction items with
  | nil => rfl
  | cons e items ih => simp only [List.map_cons, List.mapM_cons, constant?_relabel, ih]

theorem arrayOf_relabel (expected : Option Ty) (items : List Expr) :
    arrayOf expected (items.map (relabel ρ)) = (arrayOf expected items).map (relabel ρ) := by
  unfold arrayOf elementType?
  rw [map_type_relabel, mapM_constant?_relabel]
  split
  · rfl
  · split
    · rfl
    · cases items.mapM constant? with
      | some values => simp [Except.map, relabel, ρ.value_array]
      | none => simp [Except.map, relabel, relabels_eq_map]

end Expr

/-! ## Numbers -/

/-- Parameters take other numbers. -/
def Relabelling.renumbering (f : Nat → Nat) : Relabelling where
  param := Param.renumber f
  value := id
  name_param _ := rfl
  type_param _ := rfl
  type_value _ := rfl
  string?_value _ := rfl
  convert?_value t v := by simp
  value_integer _ _ _ := rfl
  value_bool _ := rfl
  value_null := rfl
  value_string _ := rfl
  value_array t vs := by simp

namespace Expr

variable (f : Nat → Nat)

mutual
theorem renumber_eq_relabel : ∀ e : Expr, e.renumber f = e.relabel (.renumbering f)
  | .constant _ | .parameter _ => rfl
  | .property e _ _ | .memberAccess e _ | .convert e _ _ | .typeIs e _ | .quote e => by
    rw [renumber, relabel, renumber_eq_relabel e]
  | .lambda ps e => by
    rw [renumber, relabel, renumber_eq_relabel e]
    rfl
  | .call _ es | .newArray _ es => by rw [renumber, relabel, renumberEach_eq_relabels es]
  | .callOn e _ es => by
    rw [renumber, relabel, renumber_eq_relabel e, renumberEach_eq_relabels es]
  | .binary _ l r _ => by rw [renumber, relabel, renumber_eq_relabel l, renumber_eq_relabel r]

theorem renumberEach_eq_relabels : ∀ es : List Expr,
    renumberEach f es = relabels (.renumbering f) es
  | [] => rfl
  | e :: es => by
    rw [renumberEach, relabels, renumber_eq_relabel e, renumberEach_eq_relabels es]
end

theorem renumberEach_eq_map (es : List Expr) : renumberEach f es = es.map (renumber f) := by
  rw [renumberEach_eq_relabels, relabels_eq_map, funext (renumber_eq_relabel f)]

@[simp]
theorem type_renumber (e : Expr) : (e.renumber f).type = e.type := by
  rw [renumber_eq_relabel, type_relabel]

theorem children_renumber (e : Expr) : (e.renumber f).children = e.children.map (renumber f) := by
  cases e <;> simp [renumber, children, renumberEach_eq_map]

theorem exists_of_within_renumber {x e : Expr} (h : Within x (e.renumber f)) :
    ∃ y, Within y e ∧ y.renumber f = x := by
  generalize he : e.renumber f = e' at h
  induction h generalizing e with
  | root => exact ⟨e, .root, he⟩
  | child hc _ ih =>
    rw [← he, children_renumber] at hc
    obtain ⟨child, hchild, rfl⟩ := List.mem_map.mp hc
    obtain ⟨y, hy, rfl⟩ := ih rfl
    exact ⟨y, .child hchild hy, rfl⟩

/-- A law that does not look at numbers holds for other numbers too. -/
theorem Everywhere.renumber {law : Expr → Prop} {e : Expr}
    (hlaw : ∀ x : Expr, law x → law (x.renumber f)) (h : e.Everywhere law) :
    (e.renumber f).Everywhere law := by
  intro x hx
  obtain ⟨y, hy, rfl⟩ := exists_of_within_renumber f hx
  exact hlaw y (h y hy)

end Expr

/-! ## Signs of zeros -/

/-- Signs before zeros are dropped. -/
def Relabelling.settling : Relabelling where
  param := id
  value := Value.settle
  name_param _ := rfl
  type_param _ := rfl
  type_value := Value.type_settle
  string?_value v := by cases v <;> rfl
  convert?_value := Value.convert?_settle
  value_integer _ _ _ := rfl
  value_bool _ := rfl
  value_null := rfl
  value_string _ := rfl
  value_array t vs := by rw [Value.settle, Value.settles_eq_map]

namespace Expr

/-- The graph without signs before zeros, which are not read. -/
def settle (e : Expr) : Expr := e.relabel .settling

/-- There is a literal for a node that is a constant. -/
def LiteralRule : Expr → Prop
  | .constant v => v.Writable
  | _ => True

theorem sameMember_self (m : Member) : sameMember m m = true := by
  simp [sameMember, Member.same_self]

mutual
/-- A sign before a zero does not count where graphs are compared. -/
theorem same_settle : ∀ e : Expr, e.Everywhere LiteralRule → e.settle.same e = true
  | .constant v, h => Value.same_settle v h.root
  | .parameter p, _ => by simp [settle, relabel, Relabelling.settling, same]
  | .property e name t, h => by
    have he := (everywhere_iff.mp h).2 e (by simp [children])
    simpa [settle, relabel, same] using same_settle e he
  | .memberAccess e m, h => by
    have he := (everywhere_iff.mp h).2 e (by simp [children])
    simpa [settle, relabel, same, sameMember_self] using same_settle e he
  | .call m es, h => by
    have hes := (everywhere_iff.mp h).2
    simpa [settle, relabel, same, sameMember_self] using sames_settle es hes
  | .callOn e m es, h => by
    obtain ⟨he, hes⟩ := List.forall_mem_cons.mp (everywhere_iff.mp h).2
    simpa [settle, relabel, same, sameMember_self] using
      ⟨same_settle e he, sames_settle es hes⟩
  | .binary op l r t, h => by
    obtain ⟨hl, hr⟩ := List.forall_mem_cons.mp (everywhere_iff.mp h).2
    simpa [settle, relabel, same] using
      ⟨same_settle l hl, same_settle r (hr r List.mem_cons_self)⟩
  | .convert e t explicit, h => by
    have he := (everywhere_iff.mp h).2 e (by simp [children])
    simpa [settle, relabel, same] using same_settle e he
  | .typeIs e t, h => by
    have he := (everywhere_iff.mp h).2 e (by simp [children])
    simpa [settle, relabel, same] using same_settle e he
  | .newArray t es, h => by
    have hes := (everywhere_iff.mp h).2
    simpa [settle, relabel, same] using sames_settle es hes
  | .lambda ps e, h => by
    have he := (everywhere_iff.mp h).2 e (by simp [children])
    simpa [settle, relabel, Relabelling.settling, same] using same_settle e he
  | .quote e, h => by
    have he := (everywhere_iff.mp h).2 e (by simp [children])
    simpa [settle, relabel, same] using same_settle e he

theorem sames_settle : ∀ es : List Expr, (∀ e ∈ es, e.Everywhere LiteralRule) →
    sames (relabels .settling es) es = true
  | [], _ => rfl
  | e :: es, h => by
    obtain ⟨he, hes⟩ := List.forall_mem_cons.mp h
    simpa [settle, relabels, sames] using ⟨same_settle e he, sames_settle es hes⟩
end

end Expr
end TypedQuery
