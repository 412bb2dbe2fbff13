import TypedQuery.Proofs.Renumbering
import TypedQuery.Proofs.Signatures
import TypedQuery.Proofs.StandardFunctions
/-!
What it matters that a type is expected.

Only literals, arrays and lambdas look at the type that is expected of them. Most types leave
literals and arrays as they are. Where a number is expected, an argument that fits is of the
type that was expected.
-/
namespace TypedQuery

/-! ## Types that were met -/

/-- An argument of the type `a` meets the expected type if that is no number, or the same. The
body of a lambda has to meet what is expected of it. -/
def Ty.Meets : Ty → Ty → Prop
  | .function _ r, a => ∀ ps s, a = .function ps s → r.Meets s
  | .quoted t, a => ∀ u, a = .quoted u → t.Meets u
  | t, a => t.isNumeric = true → a = t ∨ a = .null

namespace Ty

theorem meets_of_not_numeric {t a : Ty} (ht : t.isNumeric = false) (hf : ∀ ps r, t ≠ .function ps r)
    (hq : ∀ u, t ≠ .quoted u) : t.Meets a := by
  cases t with
  | function ps r => exact absurd rfl (hf ps r)
  | quoted u => exact absurd rfl (hq u)
  | _ =>
    rw [Meets]
    · exact fun h => absurd h (by simp [ht])
    · exact hf
    · exact hq

theorem meets_self : ∀ t : Ty, t.Meets t
  | .function ps r => by
    rintro _ _ ⟨⟩
    exact meets_self r
  | .quoted t => by
    rintro _ ⟨⟩
    exact meets_self t
  | .primitive _ | .enum _ | .entity _ | .array _ | .applied .. | .placeholder _ | .wildcard =>
    fun _ => .inl rfl

theorem meets_null (t : Ty) : t.Meets .null := by
  cases t with
  | function => exact fun _ _ h => nomatch h
  | quoted => exact fun _ h => nomatch h
  | _ => exact fun _ => .inr rfl

theorem meets_of_accepts {h : Hierarchy} :
    ∀ (t : Ty) {a : Ty}, t.accepts h a = true → t.Meets a
  | .function ps r, a, ha => by
    rintro qs s rfl
    exact meets_of_accepts r (accepts_function.mp ha).2
  | .quoted t, a, ha => by
    rintro u rfl
    exact meets_of_accepts t (accepts_quoted.mp ha)
  | .primitive p, a, ha => by
    intro hnumeric
    have heq : Ty.primitive p = a := by
      cases p <;> first | exact absurd hnumeric (by decide) |
        simpa [accepts, isReference] using ha
    exact .inl heq.symm
  | .enum _, _, _ | .entity _, _, _ | .array _, _, _ | .applied .., _, _ | .placeholder _, _, _
  | .wildcard, _, _ => meets_of_not_numeric rfl (by simp) (by simp)

theorem meets_of_fitsArray {t a : Ty} (h : Expr.fitsArray t a = true) : t.Meets a := by
  simp only [Expr.fitsArray, Bool.or_eq_true, Bool.and_eq_true, decide_eq_true_eq] at h
  rcases h with rfl | ⟨rfl, _⟩
  · exact meets_self a
  · exact meets_null t

end Ty

/-- What fits a signature meets it, also as far as it was known before. -/
theorem Fits.meets {h : Hierarchy} {before after : Slot → Option Ty} {w a : Ty}
    (hf : Fits h after False w a) (hext : ∀ p t, before p = some t → after p = some t) :
    (w.substitute before).Meets a := by
  induction hf with
  | closed hw ha =>
    rw [Ty.substitute_of_closed before _ hw]
    exact Ty.meets_of_accepts _ ha
  | null => exact Ty.meets_null _
  | unsure hu => exact hu.elim
  | @bound p _ t hp ha =>
    rw [Ty.substitute]
    cases hb : before p.toSlot with
    | none => exact Ty.meets_of_not_numeric rfl (by simp) (by simp)
    | some u =>
      obtain rfl := Option.some.inj ((hext p.toSlot u hb).symm.trans hp)
      exact Ty.meets_of_accepts _ ha
  | applied | array =>
    rw [Ty.substitute]
    exact Ty.meets_of_not_numeric rfl (by simp) (by simp)
  | function _ _ _ _ _ ih =>
    rw [Ty.substitute]
    rintro _ _ ⟨⟩
    exact ih
  | quoted _ _ ih =>
    rw [Ty.substitute]
    rintro _ ⟨⟩
    exact ih

/-- Arguments that fit one by one meet what was expected of them. -/
theorem Fitted.meets {model : Model} {signature : List Ty} {us : List Part} {b b' : Bindings}
    (hf : Fitted model.hierarchy signature us b b') :
    ∀ u ∈ us, ∀ t ∈ u.expected, t.Meets u.graph.type := by
  induction hf with
  | nil => simp
  | cons hexpected hm _ ih =>
    refine List.forall_mem_cons.mpr ⟨?_, ih⟩
    rw [hexpected]
    rintro t ⟨⟩
    have hmatched := Bindings.matched_of_matchType _ hm
    exact hmatched.fits.meets fun p t => hmatched.bindings.get?_eq

/-- What is expected of arguments are types of the signature, as far as they are known. -/
theorem Fitted.wanted {h : Hierarchy} {signature : List Ty} {us : List Part} {b b' : Bindings}
    (hf : Fitted h signature us b b') {Wanted : Option Ty → Prop}
    (hwanted : ∀ w ∈ signature, ∀ b : Bindings, Wanted (some (b.resolve w))) :
    ∀ u ∈ us, Wanted u.expected := by
  induction hf with
  | nil => simp
  | @cons w _ u us b _ _ hexpected _ _ ih =>
    obtain ⟨hw, hsignature⟩ := List.forall_mem_cons.mp hwanted
    exact List.forall_mem_cons.mpr ⟨hexpected ▸ hw b, ih hsignature⟩

/-- A receiver meets the type that declares the member. -/
theorem Member.meets_of_bindDeclaring {model : Model} {m bound : Member} {receiver : Ty}
    (hb : m.bindDeclaring model.hierarchy receiver = .ok bound) :
    ∀ t ∈ Setting.known m.template.declaring, t.Meets receiver := by
  intro t ht
  unfold Setting.known at ht
  split at ht
  · cases ht
  · next hopen =>
    cases ht
    obtain ⟨b, _, hm⟩ := Member.matched_of_bindDeclaring hb
    have hmeets : (m.template.declaring.substitute fun _ => none).Meets receiver :=
      hm.fits.meets (by simp)
    rwa [Ty.substitute_of_closed _ _ (by simpa using hopen)] at hmeets

/-! ## Types that change nothing -/

namespace Query

variable {s : Setting} {scope : List Param} {expected : Option Ty} {n m : Nat} {e : Expr}

/-- It makes no difference to the query that this type is expected of it. -/
def Ignores (q : Query) (expected : Option Ty) : Prop :=
  ∀ t ∈ expected, t.isQuiet = true ∨ (∃ p, t = .primitive p) ∧ ∀ text, q ≠ .number text

theorem valueFor_of_not_numeric (literal : NumberLiteral) {t : Ty} (ht : t.isNumeric = false) :
    literal.valueFor (some t) = literal.valueFor none := by
  simp [NumberLiteral.valueFor, ht]

theorem isNumeric_of_isQuiet {t : Ty} (h : t.isQuiet = true) : t.isNumeric = false := by
  cases t with
  | primitive p => simpa [Ty.isQuiet] using h
  | function | quoted | array | placeholder | wildcard => cases h
  | enum | entity | applied => rfl

/-- Behind a dot nothing is ever expected. -/
theorem meaning_eq_of_receiver (q : Query) (base : Expr) (expected expected' : Option Ty) :
    q.meaning s scope (some base) expected = q.meaning s scope (some base) expected' := by
  cases q with
  | binary op left right =>
    cases op with
    | dot =>
      by_cases hcall : ∃ name args, right = .call name args
      · obtain ⟨name, args, rfl⟩ := hcall
        simp only [meaning]
      · simp only [meaning_path fun name args hr => hcall ⟨name, args, hr⟩]
    | _ => simp only [meaning, Setting.standalone]
  | _ => simp only [meaning, Setting.standalone]

/-- Other queries than lambdas and numbers do not look at what is expected of them, but for the
elements of arrays. -/
theorem meaning_eq_of_expected {q : Query} {expected expected' : Option Ty}
    (hlambda : q.kind ≠ .lambda) (hnumber : q.kind ≠ .numberLiteral)
    (harray : q.kind = .arrayLiteral → expectedElement expected = expectedElement expected') :
    q.meaning s scope none expected = q.meaning s scope none expected' := by
  cases q with
  | lambda => exact absurd rfl hlambda
  | number => exact absurd rfl hnumber
  | array items => simp only [meaning, Setting.standalone, harray rfl]
  | binary op left right =>
    cases op with
    | dot =>
      by_cases hcall : ∃ name args, right = .call name args
      · obtain ⟨name, args, rfl⟩ := hcall
        simp only [meaning]
      · simp only [meaning_path fun name args hr => hcall ⟨name, args, hr⟩]
    | _ => simp only [meaning, Setting.standalone]
  | _ => simp only [meaning, Setting.standalone]

theorem meaning_iff_of_ignores {q : Query} (h : q.Ignores expected) :
    q.meaning s scope none expected n = .ok (e, m) ↔
      q.meaning s scope none none n = .ok (e, m) := by
  cases expected with
  | none => exact Iff.rfl
  | some t =>
    have ht := h t rfl
    have hother (hlambda : q.kind ≠ .lambda) (hnumber : q.kind ≠ .numberLiteral)
        (harray : q.kind = .arrayLiteral → expectedElement (some t) = expectedElement none) :
        q.meaning s scope none (some t) n = .ok (e, m) ↔
          q.meaning s scope none none n = .ok (e, m) := by
      rw [meaning_eq_of_expected hlambda hnumber harray]
    cases q with
    | lambda names body =>
      have hlambda : ∀ t : Ty, (t.isQuiet = true ∨ ∃ p, t = .primitive p) →
          Setting.lambda names (body.meaning s) scope t n ≠ .ok (e, m) := by
        intro t ht
        cases t with
        | function | quoted => simp [Ty.isQuiet] at ht
        | _ => simp [Setting.lambda]
      simp only [meaning, Setting.standalone]
      exact iff_of_false (hlambda t (ht.imp_right And.left)) (by simp)
    | number text =>
      have hnumeric := isNumeric_of_isQuiet (ht.resolve_right fun h => h.2 text rfl)
      simp only [meaning, Setting.standalone, numberConstant,
        valueFor_of_not_numeric _ hnumeric]
    | array items =>
      refine hother (by simp [kind]) (by simp [kind]) fun _ => ?_
      cases t with
      | array => simp [Ty.isQuiet] at ht
      | _ => rfl
    | _ => exact hother (by simp [kind]) (by simp [kind]) (by simp [kind])

end Query

theorem Ty.isQuiet_resolve {w : Ty} (h : w.isQuiet = true) (b : Bindings) :
    (b.resolve w).isQuiet = true := by
  cases w with
  | primitive => exact h
  | enum | entity | applied => rfl
  | function | quoted | array | placeholder | wildcard => cases h

/-- Quiet functions expect nothing that makes a difference. -/
theorem Mapping.expects_of_isQuiet {mapping : Mapping} (h : mapping.isQuiet = true) :
    Setting.Expects (fun expected => ∀ t ∈ expected, t.isQuiet = true) mapping := by
  obtain ⟨hdeclaring, hparams⟩ := List.forall_mem_cons.mp (List.all_eq_true.mp h)
  refine ⟨fun _ => Setting.forall_mem_known hdeclaring, fun w hw b => ?_⟩
  rintro t ⟨⟩
  exact Ty.isQuiet_resolve (hparams w hw) b

theorem Mapping.expects_of_kind {mapping : Mapping} {p : Primitive}
    (h : mapping.member.kind = .staticMethod [.primitive p]) :
    Setting.Expects (fun expected => expected = some (.primitive p)) mapping := by
  rw [Setting.Expects, Member.hasReceiver, MemberTemplate.params, ← Member.kind, h]
  refine ⟨by simp [MemberKind.hasReceiver], fun w hw b => ?_⟩
  rw [List.mem_singleton.mp hw]
  rfl

end TypedQuery
