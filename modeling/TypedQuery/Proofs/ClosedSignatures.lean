import TypedQuery.Proofs.GroundTypes
/-!
Members that leave nothing open.

While a call is compiled its member is made anew again and again: type arguments are given to it,
taken from bindings, or taken back because they were wildcards. Whether anything is still open is
asked of the type arguments alone, never of the signature. That is enough, because every
placeholder of the declaration keeps an argument, whatever the member went through.

It may be more than is needed. Where the placeholders of a declaration are numbered with gaps,
nothing in the signature is about the arguments in the gaps, and these may stay open. Without gaps
a member has open arguments exactly if its signature is open.
-/
namespace TypedQuery

theorem Ty.hasPlaceholderOf_of_closed {t : Ty} (h : t.hasPlaceholder = false) (origin : Origin) :
    t.hasPlaceholderOf origin = false := by
  refine anyPart_mono (fun u hu => ?_) t h
  cases u with
  | placeholder => rfl
  | _ => cases hu

/-- Every slot is that of a placeholder in the declaration. -/
def MemberTemplate.Gapless (t : MemberTemplate) : Prop :=
  ∀ origin, ∀ i < t.slots origin, ∃ u ∈ t.signature, u.Mentions ⟨origin, i⟩

namespace Member

/-! ## Members of one declaration -/

/-- The members that are made of a template. Each of these ways has to keep the numbers of type
arguments, since anything else is no member. -/
inductive MadeOf (template : MemberTemplate) : Member → Prop
  | definition : MadeOf template (definition template)
  | instantiate (declaringArgs methodArgs : List Ty) :
    MadeOf template (instantiate template declaringArgs methodArgs)
  | withDeclaringArgs {m : Member} (new : List Ty) : MadeOf template m →
    MadeOf template (m.withDeclaringArgs new)
  | withMethodArgs {m : Member} (new : List Ty) : MadeOf template m →
    MadeOf template (m.withMethodArgs new)
  | overWildcards {m : Member} : MadeOf template m → MadeOf template m.overWildcards
  | bound {m : Member} (b : Bindings) : MadeOf template m → MadeOf template (b.instantiate m)

variable {template : MemberTemplate} {m : Member}

theorem MadeOf.template_eq (hm : MadeOf template m) : m.template = template := by
  induction hm with
  | definition => rfl
  | instantiate => rfl
  | withDeclaringArgs _ _ ih => exact ih
  | withMethodArgs _ _ ih => exact ih
  | overWildcards _ ih => exact (template_overWildcards _).trans ih
  | bound b _ ih => exact (Bindings.template_instantiate b _).trans ih

/-- A member is its template with its own arguments. -/
theorem instantiate_template (m : Member) :
    instantiate m.template m.declaringArgs m.methodArgs = m := by
  have hdeclaring : overwrite (definition m.template).declaringArgs m.declaringArgs =
      m.declaringArgs :=
    overwrite_of_length_eq (by rw [m.length_declaringArgs, length_declaringArgs]; rfl)
  have hmethod : overwrite (definition m.template).methodArgs m.methodArgs = m.methodArgs :=
    overwrite_of_length_eq (by rw [m.length_methodArgs, length_methodArgs]; rfl)
  obtain ⟨t, ds, ms, hds, hms⟩ := m
  simp only [instantiate, withDeclaringArgs, withMethodArgs, mk.injEq]
  exact ⟨rfl, hdeclaring, hmethod⟩

/-- The ways to make a member lead to all members of the template, and to no others. -/
theorem madeOf_iff : MadeOf template m ↔ m.template = template := by
  refine ⟨MadeOf.template_eq, ?_⟩
  rintro rfl
  have hm : MadeOf m.template (instantiate m.template m.declaringArgs m.methodArgs) :=
    .instantiate _ _
  rwa [instantiate_template] at hm

/-! ## Open arguments and open signatures -/

/-- However a member was made of its template, every placeholder of the declaration has an
argument. So without open arguments no placeholder of either origin is left in the signature: not
in the declaring type, in a parameter or in the result. -/
theorem closed_signature_of_madeOf (hm : MadeOf template m)
    (hdeclaring : m.hasOpenDeclaring = false) (hmethod : m.hasOpenMethod = false) :
    (∀ p, (∃ t ∈ template.signature, t.Mentions p) → ∃ a, m.arg? p = some a) ∧
      ∀ origin, m.declaringType.hasPlaceholderOf origin = false ∧
        (∀ t ∈ m.params, t.hasPlaceholderOf origin = false) ∧
        m.result.hasPlaceholderOf origin = false := by
  obtain rfl := madeOf_iff.mp hm
  refine ⟨fun p hp => exists_arg? hp, fun origin => ?_⟩
  have happly : ∀ t ∈ m.template.signature, (m.apply t).hasPlaceholderOf origin = false := by
    intro t ht
    have hclosed : (m.apply t).hasPlaceholder = false :=
      closed_apply (closed_args hdeclaring hmethod) ht
    exact Ty.hasPlaceholderOf_of_closed hclosed origin
  refine ⟨happly _ List.mem_cons_self, List.forall_mem_map.mpr fun t ht => ?_,
    happly _ (List.mem_cons_of_mem _ List.mem_cons_self)⟩
  exact happly t (MemberTemplate.mem_signature ht)

/-- Placeholders of both origins inside other types and with gaps between them, and a member that
went back to the generic definition before its arguments were decided. -/
theorem closed_signature_of_madeOf_gaps :
    ∃ m, MadeOf
        { id := "maps.join", name := "Join",
          kind := .method [.function [.array (.ofMethod 1)] (.ofDeclaring 2)],
          declaring := .dictionary (.ofDeclaring 0) (.ofDeclaring 2),
          result := .list (.ofMethod 1) } m ∧
      m.declaringArgs = [.string, .bool, .int32] ∧ m.methodArgs = [.char, .guid] ∧
      ∀ origin, m.declaringType.hasPlaceholderOf origin = false ∧
        (∀ t ∈ m.params, t.hasPlaceholderOf origin = false) ∧
        m.result.hasPlaceholderOf origin = false := by
  have hm : MadeOf
      { id := "maps.join", name := "Join",
        kind := .method [.function [.array (.ofMethod 1)] (.ofDeclaring 2)],
        declaring := .dictionary (.ofDeclaring 0) (.ofDeclaring 2),
        result := .list (.ofMethod 1) }
      (Bindings.instantiate ⟨[none, some .bool, some .int32], [some .char, some .guid]⟩ _) :=
    .bound _ (.withDeclaringArgs [.string] (.overWildcards (.instantiate [.wildcard] [])))
  exact ⟨_, hm, rfl, rfl, (closed_signature_of_madeOf hm rfl rfl).2⟩

/-- Without gaps in the declaration, open arguments show in the signature. -/
theorem closed_signature_iff (hgapless : m.template.Gapless) :
    (∀ t ∈ m.template.signature, (m.apply t).hasPlaceholder = false) ↔
      m.hasOpenDeclaring = false ∧ m.hasOpenMethod = false := by
  constructor
  · intro happly
    have hargs : ∀ origin, ∀ a ∈ m.args origin, a.hasPlaceholder = false := by
      intro origin a ha
      obtain ⟨i, hi, rfl⟩ := List.getElem_of_mem ha
      obtain ⟨t, ht, hp⟩ := hgapless origin i (m.length_args origin ▸ hi)
      exact (closed_apply_iff ht).mp (happly t ht) _ hp _ (List.getElem?_eq_getElem hi)
    constructor
    · exact List.any_eq_false.mpr fun a ha => by simp [hargs .declaring a ha]
    · exact List.any_eq_false.mpr fun a ha => by simp [hargs .method a ha]
  · rintro ⟨hdeclaring, hmethod⟩ t ht
    exact closed_apply (closed_args hdeclaring hmethod) ht

-- The argument for the index that is left out stays open, and nothing of it shows.
example :
    let m := Bindings.instantiate ⟨[none, some .int32], []⟩ (definition
      { id := "boxes.item", name := "Item", kind := .property,
        declaring := .list (.ofDeclaring 1), result := .ofDeclaring 1 })
    m.hasOpenDeclaring = true ∧
      ∀ t ∈ m.template.signature, (m.apply t).hasPlaceholder = false := by
  decide

end Member

namespace Query

/-- Whatever function a call is of, it is completed with a member of the same declaration that
has a closed signature. -/
theorem closed_of_complete {s : Setting} {member completed : Member} {args : List Operand}
    {scope : List Param} {es : List Expr} {n k : Nat}
    (h : s.complete member args scope n = .ok (some (completed, es), k)) :
    Member.MadeOf member.template completed ∧
      ∀ t ∈ member.template.signature, (completed.apply t).hasPlaceholder = false := by
  obtain ⟨b, -, rfl, hdeclaring, hmethod⟩ := complete_eq_ok_iff.mp h
  have hmade : Member.MadeOf member.template (b.instantiate member) :=
    .bound b (Member.madeOf_iff.mpr rfl)
  refine ⟨hmade, fun t ht => ?_⟩
  exact Member.closed_apply (Member.closed_args hdeclaring hmethod) (hmade.template_eq ▸ ht)

end Query
end TypedQuery
