import TypedQuery.Proofs.Matching
import TypedQuery.Proofs.NodeLaws
import TypedQuery.Proofs.Typing
/-!
Calls and the signatures of their members.

A call keeps its member with all type arguments decided, and no check of the arguments against
the final parameter types is ever made. What the matches on the way promise is enough for
assignability everywhere but in the two places where a match falls short of it.
-/
namespace TypedQuery

/-! ## Bindings and the arguments of a member -/

theorem Member.overwrite_of_length_eq {args new : List Ty} (h : new.length = args.length) :
    overwrite args new = new := by
  rw [overwrite, ← h, List.take_length, h, List.drop_length, List.append_nil]

namespace Bindings

variable {b : Bindings} {m : Member} {p : Slot} {t : Ty}

theorem length_pick (slots : List (Option Ty)) (current : List Ty) :
    (pick slots current).length = current.length := by
  fun_induction pick slots current <;> simp_all

theorem getElem?_pick {slots : List (Option Ty)} {current : List Ty} {i : Nat}
    (hi : slots[i]? = some (some t)) (hlen : slots.length = current.length) :
    (pick slots current)[i]? = some t := by
  induction slots generalizing current i with
  | nil => simp at hi
  | cons slot slots ih =>
    cases current with
    | nil => simp at hlen
    | cons c current =>
      cases i with
      | zero => cases hi; rfl
      | succ i =>
        have := ih hi (by simpa using hlen)
        cases slot <;> exact this

theorem args_instantiate (origin : Origin) :
    (b.instantiate m).args origin = pick (b.slots origin) (m.args origin) := by
  cases origin <;> exact Member.overwrite_of_length_eq (length_pick _ _)

/-- What is bound ends up as an argument of the member. -/
theorem arg?_instantiate (hlen : ∀ origin, (b.slots origin).length = (m.args origin).length)
    (hp : b.get? p = some t) : (b.instantiate m).arg? p = some t := by
  rw [Member.arg?, args_instantiate]
  exact getElem?_pick (Option.join_eq_some_iff.mp hp) (hlen _)

theorem slots_ofMember (m : Member) (origin : Origin) :
    (ofMember m).slots origin =
      (m.args origin).map fun t => if t.hasPlaceholder then none else some t := by
  cases origin <;> rfl

theorem get?_ofMember :
    (ofMember m).get? p = some t ↔ m.arg? p = some t ∧ t.hasPlaceholder = false := by
  rw [get?, slot?, slots_ofMember, List.getElem?_map, Member.arg?]
  cases (m.args p.origin)[p.index]? with
  | none => simp
  | some u =>
    cases hu : u.hasPlaceholder <;> simp [hu] <;> rintro rfl <;> exact hu

theorem closed_ofMember (m : Member) : (ofMember m).Free Ty.isPlaceholder :=
  fun _ _ hp => (get?_ofMember.mp hp).2

/-- The slots of a member are as many as its arguments, whatever has been bound. -/
theorem length_slots_of_extends {b : Bindings} (h : (ofMember m).Extends b) (origin : Origin) :
    (b.slots origin).length = (m.args origin).length := by
  rw [h.length_slots, slots_ofMember, List.length_map]

end Bindings

/-! ## The rule of a call -/

namespace Expr

/-- Arguments are assignable to the parameters of the final member exactly where nothing
slipped through the match. -/
def ArgumentRule (h : Hierarchy) (m : Member) (es : List Expr) : Prop :=
  es.length = m.params.length ∧ ∀ pair ∈ m.template.params.zip es,
    (m.apply pair.1).accepts h pair.2.type = true ↔
      Assigned h m.arg? False pair.1 pair.2.type

/-- The rule of calls and member accesses. The receiver of a call is looked at before the type
arguments are final; where its own type is open, what it was bound to may be lost again. -/
def SignatureRule (h : Hierarchy) : Expr → Prop
  | .memberAccess e m => m.declaringType.accepts h e.type = true ↔
      Assigned h m.arg? False m.template.declaring e.type
  | .callOn e m es => (m.declaringType.accepts h e.type = true ↔
      Assigned h m.arg? (e.type.hasPlaceholder = true) m.template.declaring e.type) ∧
      ArgumentRule h m es
  | .call m es => ArgumentRule h m es
  | _ => True

variable {h : Hierarchy} {e e' : Expr}

theorem argumentRule_of_fits {model : Model} {m : Member} {es : List Expr}
    (hlen : es.length = m.template.params.length)
    (hes : ∀ pair ∈ m.template.params.zip es,
      Fits model.hierarchy m.arg? False pair.1 pair.2.type) :
    ArgumentRule model.hierarchy m es :=
  ⟨by rw [hlen, Member.length_params], fun pair hp => (hes pair hp).accepts_iff⟩

theorem ArgumentRule.renumber (f : Nat → Nat) {m : Member} {es : List Expr}
    (hm : ArgumentRule h m es) : ArgumentRule h m (renumberEach f es) := by
  obtain ⟨hlen, hes⟩ := hm
  rw [renumberEach_eq_map]
  refine ⟨by rw [List.length_map, hlen], fun pair hp => ?_⟩
  rw [List.zip_map_right] at hp
  obtain ⟨taken, htaken, rfl⟩ := List.mem_map.mp hp
  simpa using hes taken htaken

theorem SignatureRule.renumber (f : Nat → Nat) (he : e.SignatureRule h) :
    (e.renumber f).SignatureRule h := by
  cases e with
  | memberAccess => simpa [SignatureRule, Expr.renumber] using he
  | callOn => exact ⟨by simpa using he.1, he.2.renumber f⟩
  | call => exact ArgumentRule.renumber f he
  | _ => trivial

end Expr

/-- Arguments that were matched one by one fit with what is bound in the end. -/
theorem Fitted.fits {model : Model} {signature : List Ty} {us : List Part} {b b' : Bindings}
    (hf : Fitted model.hierarchy signature us b b') :
    b.Extends b' ∧ ∀ pair ∈ signature.zip (us.map Part.graph),
      Fits model.hierarchy b'.get? False pair.1 pair.2.type := by
  induction hf with
  | nil => exact ⟨.refl _, by simp⟩
  | cons _ hm _ ih =>
    obtain ⟨hext, hus⟩ := ih
    have hu := Bindings.matched_of_matchType _ hm
    refine ⟨hu.bindings.trans hext, ?_⟩
    rw [List.map_cons, List.zip_cons_cons, List.forall_mem_cons]
    exact ⟨hu.fits.mono (fun hp => .inl (hext.get?_eq hp)) False.elim, hus⟩

/-- The arguments of a finished call fit its member. -/
theorem Fitted.argumentRule {model : Model} {m : Member} {us : List Part} {b : Bindings}
    (hf : Fitted model.hierarchy m.template.params us (.ofMember m) b) :
    Expr.ArgumentRule model.hierarchy (b.instantiate m) (us.map Part.graph) := by
  obtain ⟨hext, hus⟩ := hf.fits
  refine Expr.argumentRule_of_fits (by simp [hf.length_eq]) fun pair hp => ?_
  refine (hus pair hp).mono (fun hp => .inl ?_) False.elim
  exact Bindings.arg?_instantiate (Bindings.length_slots_of_extends hext) hp

/-- A receiver is matched with the declaring type, and the member takes what that binds. -/
theorem Member.bindDeclaring_eq_ok {h : Hierarchy} {m bound : Member} {receiver : Ty}
    (hb : m.bindDeclaring h receiver = .ok bound) :
    ∃ b, bound = b.instantiate m ∧
      (Bindings.ofMember m).infer h m.template.declaring receiver = .fit b := by
  unfold bindDeclaring at hb
  dsimp only at hb
  split at hb
  · next herror =>
    cases hb
    exact ⟨_, rfl, MatchOutcome.eq_fit herror⟩
  · cases hb

theorem Member.matched_of_bindDeclaring {model : Model} {m bound : Member} {receiver : Ty}
    (hb : m.bindDeclaring model.hierarchy receiver = .ok bound) :
    ∃ b, bound = b.instantiate m ∧
      Bindings.Matched model.hierarchy m.template.declaring receiver (.ofMember m) b := by
  obtain ⟨b, rfl, hm⟩ := bindDeclaring_eq_ok hb
  exact ⟨b, rfl, Bindings.matched_of_matchType _ hm⟩

/-- The receiver of a property access fits the type that declares the property. -/
theorem Member.fits_of_bindDeclaring {model : Model} {m bound : Member} {receiver : Ty}
    (hb : m.bindDeclaring model.hierarchy receiver = .ok bound) :
    Fits model.hierarchy bound.arg? False bound.template.declaring receiver := by
  obtain ⟨b, rfl, hm⟩ := matched_of_bindDeclaring hb
  refine hm.fits.mono (fun hp => .inl ?_) False.elim
  exact Bindings.arg?_instantiate (Bindings.length_slots_of_extends hm.bindings) hp

/-- The receiver of a call fits as well, but what an open type was bound to is forgotten
between the receiver and the arguments. -/
theorem Member.fits_of_bindDeclaring_of_extends {model : Model} {m bound : Member}
    {receiver : Ty} {b : Bindings}
    (hb : m.bindDeclaring model.hierarchy receiver = .ok bound)
    (hext : (Bindings.ofMember bound).Extends b) :
    Fits model.hierarchy (b.instantiate bound).arg? (receiver.hasPlaceholder = true)
      bound.template.declaring receiver := by
  obtain ⟨b₀, rfl, hm⟩ := matched_of_bindDeclaring hb
  refine hm.fits.mono (fun {p t} hp => ?_) False.elim
  cases hr : receiver.hasPlaceholder with
  | true => exact .inr rfl
  | false =>
    left
    have ht := hm.free Ty.isMark_isPlaceholder hr (Bindings.closed_ofMember m) hp
    have harg := Bindings.arg?_instantiate (Bindings.length_slots_of_extends hm.bindings) hp
    have hb := hext.get?_eq (Bindings.get?_ofMember.mpr ⟨harg, ht⟩)
    exact Bindings.arg?_instantiate (Bindings.length_slots_of_extends hext) hb

namespace Query

variable {s : Setting} {q : Query} {scope : List Param} {receiver : Option Expr}
  {expected : Option Ty} {n m : Nat} {e : Expr}

/-- The call that an indexer stands for. -/
theorem signatureRule_indexer {dictionary key : Expr} {value : Ty}
    (hd : s.hierarchy.instance? .dictionary dictionary.type = some [.string, value])
    (hk : key.type = .string) :
    Expr.SignatureRule s.hierarchy
      (.callOn dictionary (.instantiate Catalogue.dictionaryGet [.string, value] []) [key]) := by
  refine ⟨Fits.accepts_iff (.applied rfl hd ?_), Expr.argumentRule_of_fits rfl ?_⟩
  · refine List.forall_mem_cons.mpr ⟨.bound rfl (Ty.accepts_self _ _), ?_⟩
    exact List.forall_mem_cons.mpr ⟨.bound rfl (Ty.accepts_self _ _), by simp⟩
  · refine List.forall_mem_cons.mpr ⟨.bound rfl ?_, by simp⟩
    rw [hk]
    exact Ty.accepts_self _ _

/-- The call that `in` stands for. -/
theorem signatureRule_search {value array : Expr} (ha : array.type = .array value.type) :
    Expr.SignatureRule s.hierarchy
      (.call (.instantiate Catalogue.enumerableContains [] [value.type]) [array, value]) := by
  have hi : s.hierarchy.instance? .enumerable array.type = some [value.type] := by
    rw [ha]
    exact Model.instance?_enumerable_array _
  refine Expr.argumentRule_of_fits rfl (List.forall_mem_cons.mpr ⟨?_, ?_⟩)
  · refine .applied rfl hi (List.forall_mem_cons.mpr ⟨?_, by simp⟩)
    exact .bound rfl (Ty.accepts_self _ _)
  · exact List.forall_mem_cons.mpr ⟨.bound rfl (Ty.accepts_self _ _), by simp⟩

theorem keeps_signatureRule : s.Keeps (Expr.SignatureRule s.hierarchy) where
  plain e he := by
    cases e with
    | memberAccess | call | callOn => cases he
    | _ => trivial
  constant _ _ := trivial
  changed _ _ _ _ := trivial
  items _ _ _ := trivial
  property _ _ _ _ := trivial
  lookup _ _ _ _ _ hd hkey := signatureRule_indexer hd hkey
  search _ _ htype := signatureRule_search htype
  access _ _ _ _ _ hb := (Member.fits_of_bindDeclaring hb).accepts_iff
  callOn _ _ _ _ _ _ _ hb hf :=
    ⟨(Member.fits_of_bindDeclaring_of_extends hb hf.fits.1).accepts_iff, hf.argumentRule⟩
  call _ _ _ _ _ hf := hf.argumentRule

theorem Elaborates.signatures (hel : Elaborates s q scope receiver expected n e m)
    (hreceiver : ∀ base ∈ receiver, base.Everywhere (Expr.SignatureRule s.hierarchy)) :
    e.Everywhere (Expr.SignatureRule s.hierarchy) :=
  hel.everywhere keeps_signatureRule hreceiver

/-- A call fits its signature, but for what the matches let through: see `Assigned`. -/
theorem signatures_of_compile {registry : Registry} {model : Model} {this : Param}
    {params outer : List Param} {graph : Expr}
    (h : q.compile registry model this params outer = .ok graph) :
    graph.Everywhere (Expr.SignatureRule model.hierarchy) :=
  everywhere_of_compile (fun _ _ => trivial) (fun f _ => .renumber f)
    (fun hel => hel.signatures (by simp)) h

/-- A receiver that is an instance of a generic type, and a lambda as an argument. -/
theorem signatures_of_compile_lambda :
    ∃ graph, compile .standard ⟨[], [⟨"Dog", none, [("Names", .list .string)]⟩]⟩
        (.call "any" [.symbol "Names", .lambda ["n"] (.call "startswith" [.symbol "n",
          .string "R"])]) (receiverParam (.entity "Dog")) [] [] = .ok graph ∧
      graph.Everywhere (Expr.SignatureRule
        (Model.mk [] [⟨"Dog", none, [("Names", .list .string)]⟩]).hierarchy) :=
  Exists.imp (fun _ h => ⟨h, signatures_of_compile h⟩) ⟨_, rfl⟩

/-- `null` as the key of a dictionary with numbers for keys: the call compiles, though its
parameter is of a type that `null` cannot be assigned to. -/
theorem signature_not_fit_by_null :
    ∃ receiver member,
      compile .standard ⟨[], [⟨"Box", none, [("Names", .dictionary .int32 .string)]⟩]⟩
        (.call "contains" [.symbol "Names", .symbol "null"]) (receiverParam (.entity "Box")) [] [] =
          .ok (.lambda [] (.callOn receiver member [.constant .null])) ∧
      member.params = [.int32] ∧
      Ty.int32.accepts (Model.mk [] [⟨"Box", none,
        [("Names", .dictionary .int32 .string)]⟩]).hierarchy .null = false :=
  ⟨_, _, rfl, rfl, rfl⟩

end Query
end TypedQuery
