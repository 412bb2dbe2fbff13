import TypedQuery.Proofs.InstanceMatching
import TypedQuery.Proofs.Signatures
/-!
Binding a member of a library container to a receiver.

The member belongs to its container for any arguments, and takes those of the receiver: of the one
application of the container that is the receiver's type or above it. If there is none the
receiver has no such member.
-/
namespace TypedQuery

/-! ## Types of receivers -/

namespace Ty

/-- What keeps a type from being all known: `null`, a placeholder, and a container that is not
applied to as many arguments as it takes. -/
def isIncomplete : Ty → Bool
  | .null | .placeholder _ => true
  | .applied c ts => ts.length != c.arity
  | _ => false

/-- No part is incomplete. -/
def Complete (t : Ty) : Prop := t.anyPart isIncomplete = false

instance (t : Ty) : Decidable t.Complete := inferInstanceAs (Decidable (_ = false))

theorem complete_applied {c : Container} {ts : List Ty} :
    (Ty.applied c ts).Complete ↔ ts.length = c.arity ∧ ∀ t ∈ ts, t.Complete := by
  simp [Complete, anyPart, isIncomplete, anyPartOf_eq_any]

theorem complete_array {t : Ty} : (Ty.array t).Complete ↔ t.Complete := by
  simp [Complete, anyPart, isIncomplete]

namespace Complete

variable {t : Ty}

theorem ne_null (h : t.Complete) : t ≠ .null := by
  rintro rfl
  cases h

theorem closed (h : t.Complete) : t.hasPlaceholder = false := by
  refine anyPart_mono (fun u hu => ?_) t h
  cases u with
  | placeholder => rfl
  | _ => cases hu

end Complete

end Ty

theorem Model.complete_of_mem_closure {model : Model} {t : Ty} (ht : t.Complete) :
    ∀ u ∈ model.hierarchy.closure t, u.Complete := by
  refine forall_mem_closure ht (fun _ => rfl) fun u v hu hv => ?_
  obtain ⟨c, item, rfl, hc, hitem⟩ := Ty.exists_item_of_mem_libraryParents hv
  have hcomplete : item.Complete := by
    rcases hitem with ⟨_, _, rfl⟩ | rfl | ⟨_, rfl⟩
    · exact (Ty.complete_applied.mp hu).2 _ List.mem_cons_self
    · exact Ty.complete_array.mp hu
    · rfl
  exact Ty.complete_applied.mpr ⟨hc.symm, by simpa using hcomplete⟩

/-! ## Binding a definition -/

/-- A type is matched like the application of the container that it is an instance of. -/
theorem Bindings.matchType_instance {h : Hierarchy} {place : Place} {c : Container}
    {ws as : List Ty} {a : Ty} {b : Bindings} (hopen : (Ty.applied c ws).hasPlaceholder = true)
    (hi : h.instance? c a = some as) : matchType h place (.applied c ws) a b =
      matchType h place (.applied c ws) (.applied c as) b := by
  rw [matchType_applied hopen hi, matchType_applied hopen (h.instance?_applied c as)]

namespace Member

variable {h : Hierarchy} {template : MemberTemplate} {c : Container} {receiver : Ty}

/-- The slots of a definition are all empty. -/
theorem slot?_definition {p : Slot} (hp : ∃ t ∈ template.signature, t.Mentions p) :
    (Bindings.ofMember (definition template)).slot? p = some none := by
  have hlt : p.index < template.slots p.origin := Ty.index_lt_slotCounts hp
  have hargs : (definition template).args p.origin = template.identityArgs p.origin := by
    cases p.origin <;> rfl
  rw [← template.length_identityArgs] at hlt
  obtain ⟨i, _, harg⟩ := List.mem_pmap.mp (List.getElem_mem hlt)
  rw [Bindings.slot?, Bindings.slots_ofMember, List.getElem?_map, hargs,
    List.getElem?_eq_getElem hlt, ← harg]
  rfl

/-- The declaring type of a member of every application of a container. -/
def ofEach (c : Container) : Ty :=
  .applied c ((List.range c.arity).pmap (fun i hi => .ofDeclaring i hi) fun _ hi =>
    Nat.lt_trans (List.mem_range.mp hi) c.arity_lt)

theorem hasPlaceholder_ofEach (c : Container) : (ofEach c).hasPlaceholder = true := by
  cases c <;> rfl

/-- The arguments of an application in the places of the placeholders. -/
theorem substitute_ofEach {as : List Ty} (has : as.length = c.arity)
    {lookup : Slot → Option Ty} (hlookup : ∀ i < c.arity, lookup ⟨.declaring, i⟩ = as[i]?) :
    (ofEach c).substitute lookup = .applied c as := by
  rw [ofEach, Ty.substitute, Ty.substituteEach_eq_map]
  congr 1
  refine List.ext_getElem (by simp [has]) fun i hi hi' => ?_
  have hlt : i < c.arity := has ▸ hi'
  simp [Ty.substitute, hlookup i hlt, hi']

theorem exists_of_mentions_ofEach {p : Slot} (hp : (ofEach c).Mentions p) :
    p.origin = .declaring ∧ p.index < c.arity := by
  obtain ⟨t, ht, hp⟩ := Ty.mentions_applied.mp hp
  obtain ⟨i, hi, rfl⟩ := List.mem_pmap.mp ht
  obtain rfl := Ty.mentions_placeholder.mp hp
  exact ⟨rfl, List.mem_range.mp hi⟩

/-- A definition takes the arguments that the receiver has for its container. -/
theorem exists_bindDeclaring {as : List Ty} (hdeclaring : template.declaring = ofEach c)
    (hi : h.instance? c receiver = some as) (hlen : as.length = c.arity)
    (hnull : ∀ a ∈ as, a ≠ .null) :
    ∃ bound, (definition template).bindDeclaring h receiver = .ok bound ∧
      bound.declaringType = .applied c as := by
  let s : Slot → Option Ty := fun p => as[p.index]?
  have hinstance : (ofEach c).substitute s = .applied c as :=
    substitute_ofEach hlen fun _ _ => rfl
  have hawaits : (Bindings.ofMember (definition template)).Awaits s
      fun p => (ofEach c).Mentions p := by
    intro p hp
    obtain ⟨_, hlt⟩ := exists_of_mentions_ofEach hp
    rw [← hlen] at hlt
    refine ⟨as[p.index], List.getElem?_eq_getElem hlt, hnull _ (List.getElem_mem hlt), .inl ?_⟩
    exact slot?_definition ⟨_, List.mem_cons_self, hdeclaring ▸ hp⟩
  obtain ⟨b, hm, hfilled⟩ := Bindings.filled_of_matchType (h := h) (ofEach c) .topLevel hawaits
  rw [hinstance, ofEach, ← Bindings.matchType_instance (hasPlaceholder_ofEach c) hi] at hm
  have hextends : (Bindings.ofMember (definition template)).Extends b :=
    (Bindings.extends_matchType _ _ _ _ _).of_eq_fit hm
  refine ⟨b.instantiate (definition template), ?_, ?_⟩
  · have hinfer : (Bindings.ofMember (definition template)).infer h
        (definition template).template.declaring receiver = .fit b := by
      rw [show (definition template).template.declaring = ofEach c from hdeclaring]
      exact hm
    rw [bindDeclaring, hinfer]
    rfl
  · refine Eq.trans (congrArg (apply _) hdeclaring) (Eq.trans ?_ hinstance)
    refine Ty.substitute_congr (ofEach c) fun p hp => ?_
    obtain ⟨_, hlt⟩ := exists_of_mentions_ofEach hp
    have hsome : s p = some as[p.index] := List.getElem?_eq_getElem (hlen ▸ hlt)
    rw [hsome]
    refine Bindings.arg?_instantiate (Bindings.length_slots_of_extends hextends) ?_
    rw [Bindings.get?_eq_some_iff, hfilled.inside hp, hsome]

/-- A receiver that is no instance of the container has no such member. -/
theorem exists_instance?_of_bindDeclaring {m bound : Member}
    (hdeclaring : m.template.declaring = ofEach c) (hb : m.bindDeclaring h receiver = .ok bound) :
    ∃ as, h.instance? c receiver = some as := by
  obtain ⟨b, rfl, hm⟩ := bindDeclaring_eq_ok hb
  have hfits := Bindings.fits_of_matchType hm
  rw [hdeclaring, ofEach] at hfits
  cases hfits with
  | closed hclosed =>
    rw [← ofEach, hasPlaceholder_ofEach] at hclosed
    cases hclosed
  | applied _ hi => exact ⟨_, hi⟩

/-- A member of a container binds to a receiver exactly if an application of the container is
above the receiver's type. There is no other application of it then, and it is what the member
belongs to: it leaves nothing open and accepts the receiver. -/
theorem bindDeclaring_container {model : Model} {template : MemberTemplate} {c : Container}
    {receiver : Ty} (hdeclaring : template.declaring = ofEach c) (hreceiver : receiver.Complete) :
    ((∃ bound, (definition template).bindDeclaring model.hierarchy receiver = .ok bound) ↔
        ∃ as, .applied c as ∈ model.hierarchy.closure receiver) ∧
      (∀ as bs, .applied c as ∈ model.hierarchy.closure receiver →
        .applied c bs ∈ model.hierarchy.closure receiver → as = bs) ∧
      ∀ bound, (definition template).bindDeclaring model.hierarchy receiver = .ok bound →
        (∃ as, bound.declaringType = .applied c as) ∧
        bound.declaringType ∈ model.hierarchy.closure receiver ∧
        bound.declaringType.hasPlaceholder = false ∧
        bound.declaringType.accepts model.hierarchy receiver = true := by
  have hbinds : ∀ as, .applied c as ∈ model.hierarchy.closure receiver →
      ∃ bound, (definition template).bindDeclaring model.hierarchy receiver = .ok bound ∧
        bound.declaringType = .applied c as := by
    intro as has
    obtain ⟨hlen, hargs⟩ :=
      Ty.complete_applied.mp (Model.complete_of_mem_closure hreceiver _ has)
    exact exists_bindDeclaring hdeclaring (Model.instance?_eq_some_iff.mpr has) hlen
      fun a ha => (hargs a ha).ne_null
  have hinstance : ∀ {m bound : Member}, m.template.declaring = ofEach c →
      m.bindDeclaring model.hierarchy receiver = .ok bound →
      ∃ as, .applied c as ∈ model.hierarchy.closure receiver := by
    intro m bound hm hb
    obtain ⟨as, hi⟩ := exists_instance?_of_bindDeclaring hm hb
    exact ⟨as, Model.instance?_eq_some_iff.mp hi⟩
  refine ⟨⟨fun ⟨bound, hb⟩ => hinstance hdeclaring hb, fun ⟨as, has⟩ => ?_⟩,
    fun as bs has hbs => ?_, fun bound hb => ?_⟩
  · obtain ⟨bound, hb, _⟩ := hbinds as has
    exact ⟨bound, hb⟩
  · rw [← Model.instance?_eq_some_iff] at has hbs
    exact Option.some.inj (has.symm.trans hbs)
  · obtain ⟨as, has⟩ := hinstance hdeclaring hb
    obtain ⟨bound', hb', htype⟩ := hbinds as has
    obtain rfl : bound = bound' := Except.ok.inj (hb.symm.trans hb')
    rw [htype]
    refine ⟨⟨as, rfl⟩, has, (Model.complete_of_mem_closure hreceiver _ has).closed, ?_⟩
    exact (Ty.accepts_applied (Model.instance?_eq_some_iff.mpr has)).mpr (.inl rfl)

/-- The number of items is declared for collections, and a list of arrays is one. -/
theorem bindDeclaring_container_list :
    ∃ bound, (definition Catalogue.collectionCount).bindDeclaring
        (Model.mk [] [⟨"Dog", none, []⟩]).hierarchy (.list (.array (.entity "Dog"))) = .ok bound ∧
      bound.declaringType.hasPlaceholder = false ∧
      bound.declaringType.accepts (Model.mk [] [⟨"Dog", none, []⟩]).hierarchy
        (.list (.array (.entity "Dog"))) = true := by
  obtain ⟨hiff, _, hbound⟩ := @bindDeclaring_container (Model.mk [] [⟨"Dog", none, []⟩])
    Catalogue.collectionCount .collection (.list (.array (.entity "Dog"))) rfl (by decide)
  obtain ⟨bound, hb⟩ := hiff.mpr ⟨[.array (.entity "Dog")], by decide⟩
  exact ⟨bound, hb, (hbound bound hb).2.2⟩

end Member
end TypedQuery
