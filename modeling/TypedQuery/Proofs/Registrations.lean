import TypedQuery.Proofs.CallStyles
import TypedQuery.Proofs.Overloads
/-!
Functions that are registered later.

New functions are tried after those that were there before. A query that compiles takes, for each
of its calls, the first function that fits, so it never gets to the new ones: whatever is
registered later, it compiles to the same graph. That is not so for a query that fails, since a
call that nothing fitted may find a function then.
-/
namespace TypedQuery

namespace Registry

/-- What a function is registered with: its member, its call format and its style. -/
abbrev Registration := Member × String × CallStyle

/-- The registry after one more registration, which changes nothing if it fails. -/
def registerNext (r : Registry) (new : Registration) : Registry :=
  match r.register new.1 new.2.1 new.2.2 with
  | .ok r => r
  | .error _ => r

/-- The registry after registrations one after the other. -/
def registerEach (r : Registry) (news : List Registration) : Registry :=
  news.foldl registerNext r

/-- A registration adds a function at the end, if it adds any. -/
theorem exists_mappings_registerNext (r : Registry) (new : Registration) :
    ∃ added, (r.registerNext new).mappings = r.mappings ++ added := by
  unfold registerNext register
  cases Mapping.parse new.1 new.2.1 new.2.2 with
  | error => exact ⟨[], (List.append_nil _).symm⟩
  | ok mapping => exact ⟨[mapping], rfl⟩

theorem exists_mappings_registerEach (r : Registry) (news : List Registration) :
    ∃ added, (r.registerEach news).mappings = r.mappings ++ added := by
  induction news generalizing r with
  | nil => exact ⟨[], (List.append_nil _).symm⟩
  | cons new news ih =>
    obtain ⟨added, hadded⟩ := exists_mappings_registerNext r new
    obtain ⟨later, hlater⟩ := ih (r.registerNext new)
    exact ⟨added ++ later, by rw [registerEach, List.foldl_cons, ← registerEach, hlater, hadded,
      List.append_assoc]⟩

/-- The functions that a call may mean stay in front. -/
theorem exists_candidates_registerEach (r : Registry) (news : List Registration) (name : String)
    (arity : Nat) :
    ∃ added, (r.registerEach news).candidates name arity = r.candidates name arity ++ added := by
  obtain ⟨added, hadded⟩ := exists_mappings_registerEach r news
  exact ⟨_, by rw [candidates, hadded, List.filter_append, ← candidates]⟩

end Registry

namespace Setting

variable {s : Setting} {args : List Operand} {scope : List Param} {mappings : List Mapping}
  {n m : Nat} {e : Expr}

/-- Where some function fits, those behind are not tried. -/
theorem firstFit_append_of_some (h : s.firstFit args scope mappings n = .ok (some e, m))
    (added : List Mapping) : s.firstFit args scope (mappings ++ added) n = .ok (some e, m) := by
  obtain ⟨front, mapping, back, k, rfl, hfront, hfit⟩ := firstFit_eq_some h
  rw [List.append_assoc, firstFit_append hfront]
  exact firstFit_cons_of_some hfit

/-- A call that compiles does so with more functions behind those it may mean. -/
theorem relatedCalls_of_candidates {r : Registry}
    (hr : ∀ name arity, ∃ added,
      r.candidates name arity = s.registry.candidates name arity ++ added) :
    Query.RelatedCalls Compiler.Refines s r := by
  intro name pairs scope hpairs n v h
  cases hname : TypeOperator.ofName? name with
  | some op =>
    rw [call, hname] at h ⊢
    exact related_typeCall Compiler.congruence_refines hpairs op n v h
  | none =>
    rw [call, hname, List.length_map] at h ⊢
    obtain ⟨found, k, hfound, h⟩ := Compiler.bind_eq_ok.mp h
    cases found with
    | none => exact absurd h Compiler.throw_ne_ok
    | some e =>
      obtain ⟨added, hadded⟩ := hr name pairs.length
      have hagain := related_firstFit (r := r) Compiler.congruence_refines hpairs _ n _ hfound
      refine Compiler.bind_eq_ok.mpr ⟨some e, k, ?_, h⟩
      change (s.withRegistry r).firstFit _ scope (r.candidates name pairs.length) n = _
      rw [hadded]
      exact firstFit_append_of_some hagain added

end Setting

namespace Query

variable {registry : Registry} {model : Model} {q : Query} {this : Param}
  {params outer : List Param} {e : Expr}

/-- A query that compiles does so to the same graph, the numbers of its parameters among it, with
whatever is registered later, successfully or not. -/
theorem compile_registerEach (h : q.compile registry model this params outer = .ok e)
    (news : List Registry.Registration) :
    q.compile (registry.registerEach news) model this params outer = .ok e := by
  let s : Setting := { registry := registry, model := model, this := this }
  have hcalls : RelatedCalls Compiler.Refines s (registry.registerEach news) :=
    Setting.relatedCalls_of_candidates (registry.exists_candidates_registerEach news)
  have hbody := relatedChained Compiler.congruence_refines hcalls q (fun _ => false)
    (params.filter (fun p => p.id ≠ this.id) ++ outer) none none
  rw [chained_none] at hbody
  obtain ⟨body, hfrom, he⟩ := compile_eq_ok.mp h
  obtain ⟨k, hmeaning⟩ := bodyFrom_eq_ok.mp hfrom
  exact compile_eq_ok.mpr ⟨body, bodyFrom_eq_ok.mpr ⟨k, hbody _ _ hmeaning⟩, he⟩

/-- The registration of a function `joined` of arrays of texts. -/
def joinedRegistration (format : String) : Registry.Registration :=
  (.definition ⟨"lists.join", "Join", .staticMethod [.array .string], .entity "Lists", .bool⟩,
    format, .static)

/-- A second function `joined` for the same arguments is not tried where the first one fits. A
format without its closing parenthesis is not registered at all. -/
theorem compile_registerEach_joined :
    ∃ (registry : Registry) (model : Model) (this : Param) (e : Expr)
      (news : List Registry.Registration),
      news = [joinedRegistration "joined({0}", joinedRegistration "joined({0})"] ∧
      (registry.candidates "joined" 1).length = 1 ∧
      ((registry.registerEach news).candidates "joined" 1).length = 2 ∧
      (Query.call "joined" [.array [.string "a"]]).compile registry model this [this] [] = .ok e ∧
      (Query.call "joined" [.array [.string "a"]]).compile (registry.registerEach news) model this
        [this] [] = .ok e := by
  have hcompiles : ∃ e, (Query.call "joined" [.array [.string "a"]]).compile
      ⟨[joinedOver "lists.join(string)" .string]⟩ ⟨[], []⟩ (receiverParam .object)
      [receiverParam .object] [] = .ok e := ⟨_, rfl⟩
  obtain ⟨e, he⟩ := hcompiles
  exact ⟨_, _, _, e, _, rfl, by decide, by decide, he, compile_registerEach he _⟩

end Query
end TypedQuery
