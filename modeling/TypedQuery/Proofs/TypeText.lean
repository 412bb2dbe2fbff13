import TypedQuery.Proofs.Compiler
/-!
The text of a type is an expression for it.

A cast keeps the type it names and not the expression that named it. What is written in its
place has other blanks and may have another name, but it denotes the same type.
-/
namespace TypedQuery
namespace TypeExpression

/-! ## Tokens -/

/-- A text of name characters only, with at least one of them. -/
def IsName (name : String) : Prop := name ≠ "" ∧ ∀ c ∈ name.toList, isNameChar c = true

/-- Whatever is no name character ends a run of them. -/
theorem tokensAfter_append {run cs rest : List Char}
    (hrest : ∀ c ∈ rest.head?, isNameChar c = false) :
    tokensAfter run (cs ++ rest) = tokensAfter run cs ++ tokensAfter [] rest := by
  induction cs generalizing run with
  | nil =>
    cases rest with
    | nil => simp [tokensAfter, nameToken]
    | cons c rest =>
      have hc := hrest c rfl
      by_cases hblank : Text.isBlank c = true <;> simp [tokensAfter, hc, hblank, nameToken]
  | cons c cs ih =>
    by_cases hc : isNameChar c = true
    · simp [tokensAfter, hc, ih]
    · by_cases hblank : Text.isBlank c = true <;> simp [tokensAfter, hc, hblank, ih]

theorem tokensAfter_of_isNameChar {run cs : List Char} (hcs : ∀ c ∈ cs, isNameChar c = true) :
    tokensAfter run cs = nameToken (cs.reverse ++ run) := by
  induction cs generalizing run with
  | nil => rfl
  | cons c cs ih =>
    obtain ⟨hc, hcs⟩ := List.forall_mem_cons.mp hcs
    rw [tokensAfter, if_pos hc, ih hcs, List.reverse_cons, List.append_assoc]
    rfl

theorem tokens_of_isName {name : String} (h : IsName name) : tokens name = [.name name] := by
  rw [tokens, tokensAfter_of_isNameChar h.2, List.append_nil]
  have hne : name.toList.reverse ≠ [] := by simpa using h.1
  rw [nameToken.eq_def]
  split
  · next heq => exact absurd heq hne
  · rw [List.reverse_reverse, String.ofList_toList]

/-- Names among tokens are names. -/
def Legible (ts : List Token) : Prop := ∀ name, .name name ∈ ts → IsName name

theorem Legible.tail {t : Token} {ts : List Token} (h : Legible (t :: ts)) : Legible ts :=
  fun name hn => h name (List.mem_cons_of_mem _ hn)

theorem Legible.append {ts us : List Token} (ht : Legible ts) (hu : Legible us) :
    Legible (ts ++ us) :=
  fun name h => (List.mem_append.mp h).elim (ht name) (hu name)

theorem legible_nameToken {run : List Char} (hrun : ∀ c ∈ run, isNameChar c = true) :
    Legible (nameToken run) := by
  intro name h
  cases run with
  | nil => cases h
  | cons c run =>
    obtain rfl : name = String.ofList (c :: run).reverse := by simpa [nameToken] using h
    refine ⟨by simp, fun d hd => hrun d ?_⟩
    rwa [String.toList_ofList, List.mem_reverse] at hd

theorem legible_tokensAfter {run cs : List Char} (hrun : ∀ c ∈ run, isNameChar c = true) :
    Legible (tokensAfter run cs) := by
  induction cs generalizing run with
  | nil => exact legible_nameToken hrun
  | cons c cs ih =>
    rw [tokensAfter]
    split
    · next hc => exact ih (List.forall_mem_cons.mpr ⟨hc, hrun⟩)
    split
    · exact (legible_nameToken hrun).append (ih (by simp))
    · refine (legible_nameToken hrun).append fun name h => ?_
      rcases List.mem_cons.mp h with h | h
      · cases h
      · exact ih (by simp) name h

theorem legible_tokens (text : String) : Legible (tokens text) := legible_tokensAfter (by simp)

/-! ## Types that have an expression -/

/-- The types that expressions denote. -/
inductive Expressed (named : String → Option Ty) : Ty → Prop
  | primitive {p : Primitive} : p ≠ .null → Expressed named (.primitive p)
  | declared {name : String} {t : Ty} : IsName name → Primitive.ofName? name = none →
    named name = some t → Expressed named t
  | array {t : Ty} : Expressed named t → Expressed named (.array t)
  | applied {c : Container} {ts : List Ty} : ts.length = c.arity →
    (∀ t ∈ ts, Expressed named t) → Expressed named (.applied c ts)

variable {named : String → Option Ty}

theorem ne_null_of_ofName? {name : String} {p : Primitive} (h : Primitive.ofName? name = some p) :
    p ≠ .null := by
  rintro rfl
  unfold Primitive.ofName? at h
  split at h <;> cases h

/-! ## What is read -/

theorem resolveName_eq_ok {name : String} {t : Ty} : resolveName named name = .ok t ↔
    (∃ p, Primitive.ofName? name = some p ∧ t = .primitive p) ∨
      Primitive.ofName? name = none ∧ named name = some t := by
  unfold resolveName
  cases Primitive.ofName? name with
  | some p => simp [eq_comm]
  | none => cases named name <;> simp

/-- A type starts with a generic name and arguments or with another name, and goes on with
brackets. -/
theorem readType_cases {fuel : Nat} {ts rest : List Token} {t : Ty}
    (h : readType named (fuel + 1) ts = .ok (t, rest)) :
    (∃ c us behind closed, ts = .name c.name :: .mark '<' :: behind ∧
        readArgs named fuel behind = .ok (us, .mark '>' :: closed) ∧ us.length = c.arity ∧
        readBrackets (.applied c us) closed = .ok (t, rest)) ∨
      ∃ name u behind, ts = .name name :: behind ∧ resolveName named name = .ok u ∧
        readBrackets u behind = .ok (t, rest) := by
  rw [readType.eq_def] at h
  dsimp only at h
  split at h
  · next ts name _ =>
    split at h
    · cases h
    · next c hc =>
      obtain rfl : c.name = name :=
        eq_of_beq (List.find?_some (p := fun c : Container => c.name == name) hc)
      obtain ⟨⟨us, ts'⟩, hargs, h⟩ := except_bind_eq_ok.mp h
      dsimp only at h
      split at h
      · split at h
        · next harity => exact .inl ⟨c, us, _, _, rfl, hargs, harity, h⟩
        · cases h
      · cases h
  · obtain ⟨u, hu, h⟩ := except_bind_eq_ok.mp h
    exact .inr ⟨_, u, _, rfl, hu, h⟩
  · cases h

/-- Arguments are one type, or one and a comma and further arguments. -/
theorem readArgs_cases {fuel : Nat} {ts rest : List Token} {us : List Ty}
    (h : readArgs named (fuel + 1) ts = .ok (us, rest)) :
    ∃ u behind, readType named fuel ts = .ok (u, behind) ∧
      (us = [u] ∧ rest = behind ∨
        ∃ us' more, behind = .mark ',' :: more ∧ readArgs named fuel more = .ok (us', rest) ∧
          us = u :: us') := by
  rw [readArgs.eq_def] at h
  obtain ⟨⟨u, behind⟩, hu, h⟩ := except_bind_eq_ok.mp h
  refine ⟨u, behind, hu, ?_⟩
  dsimp only at h
  split at h
  · obtain ⟨⟨us', _⟩, hus, h⟩ := except_bind_eq_ok.mp h
    cases h
    exact .inr ⟨us', _, rfl, hus, rfl⟩
  · cases h
    exact .inl ⟨rfl, rfl⟩

theorem expressed_of_resolveName {name : String} {t : Ty} (hname : IsName name)
    (h : resolveName named name = .ok t) : Expressed named t := by
  rcases resolveName_eq_ok.mp h with ⟨p, hp, rfl⟩ | ⟨hp, ht⟩
  · exact .primitive (ne_null_of_ofName? hp)
  · exact .declared hname hp ht

theorem expressed_of_readBrackets {t u : Ty} {ts rest : List Token} (ht : Expressed named t)
    (hts : Legible ts) (h : readBrackets t ts = .ok (u, rest)) :
    Expressed named u ∧ Legible rest := by
  fun_induction readBrackets t ts with
  | case1 t ts ih => exact ih ht.array hts.tail.tail h
  | case2 => cases h
  | case3 =>
    cases h
    exact ⟨ht, hts⟩

mutual
theorem expressed_of_readType : ∀ (fuel : Nat) {ts rest : List Token} {t : Ty}, Legible ts →
    readType named fuel ts = .ok (t, rest) → Expressed named t ∧ Legible rest
  | 0, _, _, _, _, h => by cases h
  | fuel + 1, ts, rest, t, hts, h => by
    rcases readType_cases h with ⟨c, us, _, _, rfl, hargs, harity, h⟩ | ⟨name, u, _, rfl, hu, h⟩
    · obtain ⟨hus, hclosed⟩ := expressed_of_readArgs fuel hts.tail.tail hargs
      exact expressed_of_readBrackets (.applied harity hus) hclosed.tail h
    · have hu := expressed_of_resolveName (hts name List.mem_cons_self) hu
      exact expressed_of_readBrackets hu hts.tail h

theorem expressed_of_readArgs : ∀ (fuel : Nat) {ts rest : List Token} {us : List Ty}, Legible ts →
    readArgs named fuel ts = .ok (us, rest) → (∀ u ∈ us, Expressed named u) ∧ Legible rest
  | 0, _, _, _, _, h => by cases h
  | fuel + 1, ts, rest, us, hts, h => by
    obtain ⟨u, behind, hread, hmore⟩ := readArgs_cases h
    obtain ⟨hu, hbehind⟩ := expressed_of_readType fuel hts hread
    rcases hmore with ⟨rfl, rfl⟩ | ⟨us', more, rfl, hus, rfl⟩
    · exact ⟨by simpa using hu, hbehind⟩
    · obtain ⟨hus, hrest⟩ := expressed_of_readArgs fuel hbehind.tail hus
      exact ⟨List.forall_mem_cons.mpr ⟨hu, hus⟩, hrest⟩
end

theorem expressed_of_read {text : String} {t : Ty} (h : read named text = .ok t) :
    Expressed named t := by
  obtain ⟨⟨u, rest⟩, hu, h⟩ := except_bind_eq_ok.mp h
  dsimp only at h
  split at h
  · cases h
    exact (expressed_of_readType _ (legible_tokens text) hu).1
  · cases h

/-! ## The text of a type -/

theorem tokens_primitive (p : Primitive) : tokens (Ty.primitive p).text = [.name p.name] := by
  cases p <;> decide

theorem tokens_array (t : Ty) :
    tokens (Ty.array t).text = tokens t.text ++ [.mark '[', .mark ']'] := by
  have htext : (Ty.array t).text.toList = t.text.toList ++ ['[', ']'] := by
    rw [Ty.text, String.toList_append]
    rfl
  have hmark : ∀ c ∈ ['[', ']'].head?, isNameChar c = false := by
    rintro _ ⟨⟩
    decide
  rw [tokens, htext, tokensAfter_append hmark]
  rfl

theorem tokensAfter_append_mark {run cs rest : List Char} {c : Char}
    (hname : isNameChar c = false) (hblank : Text.isBlank c = false) :
    tokensAfter run (cs ++ c :: rest) = tokensAfter run cs ++ .mark c :: tokensAfter [] rest := by
  rw [tokensAfter_append (by simpa using hname)]
  simp [tokensAfter, hname, hblank, nameToken]

theorem tokens_container (c : Container) : tokensAfter [] c.name.toList = [.name c.name] := by
  cases c <;> decide

theorem tokens_applied_one (c : Container) (t : Ty) :
    tokens (Ty.applied c [t]).text =
      .name c.name :: .mark '<' :: (tokens t.text ++ [.mark '>']) := by
  have htext : (Ty.applied c [t]).text.toList =
      c.name.toList ++ '<' :: (t.text.toList ++ ['>']) := by
    simp [Ty.text, Ty.texts, String.toList_append]
  rw [tokens, htext, tokensAfter_append_mark (by decide) (by decide), tokens_container,
    tokensAfter_append_mark (by decide) (by decide)]
  rfl

theorem tokens_applied_two (c : Container) (t u : Ty) :
    tokens (Ty.applied c [t, u]).text =
      .name c.name :: .mark '<' :: (tokens t.text ++ .mark ',' :: (tokens u.text ++
        [.mark '>'])) := by
  have htext : (Ty.applied c [t, u]).text.toList =
      c.name.toList ++ '<' :: (t.text.toList ++ ',' :: ' ' :: (u.text.toList ++ ['>'])) := by
    simp [Ty.text, Ty.texts, String.toList_append]
  have hblank : ∀ cs, tokensAfter [] (' ' :: cs) = tokensAfter [] cs := by
    intro cs
    rw [tokensAfter.eq_def]
    rfl
  rw [tokens, htext, tokensAfter_append_mark (by decide) (by decide), tokens_container,
    tokensAfter_append_mark (by decide) (by decide), hblank,
    tokensAfter_append_mark (by decide) (by decide)]
  rfl

/-! ## Two names for one type -/

/-- `Boolean` is a second name for `Bool`. -/
def canonicalName (name : String) : String := if name = "Boolean" then "Bool" else name

/-- A token with the name of `Bool` in the place of its second name. -/
def Token.canonical : Token → Token
  | .name text => .name (canonicalName text)
  | .mark c => .mark c

theorem ofName?_canonicalName (name : String) :
    Primitive.ofName? (canonicalName name) = Primitive.ofName? name := by
  unfold canonicalName
  split
  · next h =>
    subst h
    rfl
  · rfl

/-- A name that is not primitive has no second spelling. -/
theorem eq_of_canonicalName {name name' : String} (hname : Primitive.ofName? name = none)
    (h : canonicalName name' = canonicalName name) : name' = name := by
  have hcanonical : canonicalName name = name := by
    refine if_neg fun heq => ?_
    rw [heq] at hname
    cases hname
  rw [hcanonical] at h
  by_cases hb : name' = "Boolean"
  · rw [← h, ofName?_canonicalName, hb] at hname
    cases hname
  · rwa [canonicalName, if_neg hb] at h

theorem ofName?_container (c : Container) : Primitive.ofName? c.name = none := by
  cases c <;> rfl

theorem eq_name_of_canonical {ts : List Token} {name : String}
    (h : ts.map Token.canonical = [Token.name name].map Token.canonical) :
    ∃ name', ts = [.name name'] ∧ canonicalName name' = canonicalName name := by
  match ts, h with
  | [.name name'], h => exact ⟨name', rfl, by simpa [Token.canonical] using h⟩
  | [.mark c], h => simp [Token.canonical] at h
  | [], h => simp at h
  | _ :: _ :: _, h => simp at h

theorem eq_cons_of_canonical_mark {ts us : List Token} {c : Char}
    (h : ts.map Token.canonical = (Token.mark c :: us).map Token.canonical) :
    ∃ ts', ts = .mark c :: ts' ∧ ts'.map Token.canonical = us.map Token.canonical := by
  match ts, h with
  | .mark d :: ts', h =>
    obtain ⟨hd, h⟩ := List.cons.inj h
    exact ⟨ts', by rw [Token.mark.inj hd], h⟩
  | .name _ :: _, h => simp [Token.canonical] at h
  | [], h => simp at h

theorem eq_cons_of_canonical_name {ts us : List Token} {name : String}
    (hname : Primitive.ofName? name = none)
    (h : ts.map Token.canonical = (Token.name name :: us).map Token.canonical) :
    ∃ ts', ts = .name name :: ts' ∧ ts'.map Token.canonical = us.map Token.canonical := by
  match ts, h with
  | .name name' :: ts', h =>
    obtain ⟨hn, h⟩ := List.cons.inj h
    exact ⟨ts', by rw [eq_of_canonicalName hname (Token.name.inj hn)], h⟩
  | .mark _ :: _, h => simp [Token.canonical] at h
  | [], h => simp at h

/-! ## Reading a type's own text -/

/-- A name that no arguments follow. -/
theorem readType_name {name : String} {t : Ty} (h : resolveName named name = .ok t)
    {fuel : Nat} {rest : List Token} (hrest : rest.head? ≠ some (.mark '<')) :
    readType named (fuel + 1) (.name name :: rest) = readBrackets t rest := by
  rw [readType.eq_def]
  dsimp only
  split
  · next heq =>
    obtain ⟨-, rfl⟩ := List.cons.inj heq
    exact absurd rfl hrest
  · next heq =>
    obtain ⟨hname, rfl⟩ := List.cons.inj heq
    cases hname
    rw [h]
    rfl
  · next hne => exact absurd rfl (hne name rest)

theorem readBrackets_of_mark {t : Ty} {c : Char} {rest : List Token} (hc : c ≠ '[') :
    readBrackets t (.mark c :: rest) = .ok (t, .mark c :: rest) := by
  rw [readBrackets.eq_def]
  split
  · next heq => exact absurd (Token.mark.inj (List.cons.inj heq).1) hc
  · next heq => exact absurd (Token.mark.inj (List.cons.inj heq).1) hc
  · rfl

theorem readType_applied {c : Container} {us : List Ty} {fuel : Nat} {ts rest : List Token}
    (harity : us.length = c.arity)
    (h : readArgs named fuel ts = .ok (us, .mark '>' :: rest)) :
    readType named (fuel + 1) (.name c.name :: .mark '<' :: ts) =
      readBrackets (.applied c us) rest := by
  rw [readType.eq_def]
  simp only [Container.ofName?_name, h]
  exact if_pos harity

theorem readArgs_last {t : Ty} {fuel : Nat} {ts rest : List Token}
    (h : readType named fuel ts = readBrackets t (.mark '>' :: rest)) :
    readArgs named (fuel + 1) ts = .ok ([t], .mark '>' :: rest) := by
  rw [readArgs.eq_def]
  dsimp only
  rw [h, readBrackets_of_mark (by decide)]
  rfl

theorem readArgs_more {t : Ty} {us : List Ty} {fuel : Nat} {ts ts' rest : List Token}
    (h : readType named fuel ts = readBrackets t (.mark ',' :: ts'))
    (hrest : readArgs named fuel ts' = .ok (us, rest)) :
    readArgs named (fuel + 1) ts = .ok (t :: us, rest) := by
  rw [readArgs.eq_def]
  dsimp only
  rw [h, readBrackets_of_mark (by decide)]
  show (readArgs named fuel ts' >>= fun x => _) = _
  rw [hrest]
  rfl

section Reading

variable (hnamed : ∀ name t, named name = some t → t.text = name)
include hnamed

/-- Tokens that differ from those of a type's text in the names of `Bool` alone read as that
type. -/
theorem readType_of_canonical {t : Ty} (ht : Expressed named t) :
    ∀ {fuel : Nat} {ts rest : List Token},
      ts.map Token.canonical = (tokens t.text).map Token.canonical → 2 * ts.length ≤ fuel →
      rest.head? ≠ some (.mark '<') → readType named fuel (ts ++ rest) = readBrackets t rest := by
  induction ht with
  | @primitive p hp =>
    intro fuel ts rest hts hfuel hrest
    rw [tokens_primitive] at hts
    obtain ⟨name, rfl, hname⟩ := eq_name_of_canonical hts
    obtain ⟨fuel, rfl⟩ := Nat.exists_eq_add_of_lt hfuel
    have hread : Primitive.ofName? name = some p := by
      rw [← ofName?_canonicalName, hname, ofName?_canonicalName, Primitive.ofName?_name hp]
    exact readType_name (by rw [resolveName, hread]) hrest
  | @declared name t hname hp ht =>
    intro fuel ts rest hts hfuel hrest
    rw [hnamed name t ht, tokens_of_isName hname] at hts
    obtain ⟨name', rfl, hname'⟩ := eq_name_of_canonical hts
    obtain rfl := eq_of_canonicalName hp hname'
    obtain ⟨fuel, rfl⟩ := Nat.exists_eq_add_of_lt hfuel
    exact readType_name (by rw [resolveName, hp, ht]) hrest
  | @array t _ ih =>
    intro fuel ts rest hts hfuel hrest
    rw [tokens_array, List.map_append] at hts
    obtain ⟨element, brackets, rfl, helement, hbrackets⟩ := List.map_eq_append_iff.mp hts
    obtain ⟨closing, rfl, hclosing⟩ := eq_cons_of_canonical_mark hbrackets
    obtain ⟨nothing, rfl, hnothing⟩ := eq_cons_of_canonical_mark hclosing
    obtain rfl := List.map_eq_nil_iff.mp hnothing
    rw [List.length_append] at hfuel
    rw [List.append_assoc, ih helement (by omega) (by simp)]
    rfl
  | @applied c us harity _ ih =>
    intro fuel ts rest hts hfuel hrest
    match us, harity, ih with
    | [t], harity, ih =>
      rw [tokens_applied_one] at hts
      obtain ⟨behindName, rfl, hname⟩ := eq_cons_of_canonical_name (ofName?_container c) hts
      obtain ⟨behindAngle, rfl, hangle⟩ := eq_cons_of_canonical_mark hname
      rw [List.map_append] at hangle
      obtain ⟨arg, closing, rfl, harg, hclosing⟩ := List.map_eq_append_iff.mp hangle
      obtain ⟨nothing, rfl, hnothing⟩ := eq_cons_of_canonical_mark hclosing
      obtain rfl := List.map_eq_nil_iff.mp hnothing
      simp only [List.length_cons, List.length_append, List.length_nil] at hfuel
      obtain ⟨fuel, rfl⟩ := Nat.exists_eq_add_of_le (show 2 ≤ fuel by omega)
      rw [Nat.add_comm 2, List.cons_append, List.cons_append, List.append_assoc]
      refine readType_applied harity (readArgs_last ?_)
      exact ih t (by simp) harg (by omega) (by simp)
    | [t, u], harity, ih =>
      rw [tokens_applied_two] at hts
      obtain ⟨behindName, rfl, hname⟩ := eq_cons_of_canonical_name (ofName?_container c) hts
      obtain ⟨behindAngle, rfl, hangle⟩ := eq_cons_of_canonical_mark hname
      rw [List.map_append] at hangle
      obtain ⟨first, more, rfl, hfirst, hmore⟩ := List.map_eq_append_iff.mp hangle
      obtain ⟨behindComma, rfl, hcomma⟩ := eq_cons_of_canonical_mark hmore
      rw [List.map_append] at hcomma
      obtain ⟨second, closing, rfl, hsecond, hclosing⟩ := List.map_eq_append_iff.mp hcomma
      obtain ⟨nothing, rfl, hnothing⟩ := eq_cons_of_canonical_mark hclosing
      obtain rfl := List.map_eq_nil_iff.mp hnothing
      simp only [List.length_cons, List.length_append, List.length_nil] at hfuel
      obtain ⟨fuel, rfl⟩ := Nat.exists_eq_add_of_le (show 3 ≤ fuel by omega)
      rw [Nat.add_comm 3, List.cons_append, List.cons_append, List.append_assoc,
        List.cons_append, List.append_assoc]
      have ht := @ih t (by simp) (fuel + 1) first (.mark ',' :: (second ++ .mark '>' :: rest))
        hfirst (by omega) (by simp)
      have hu := @ih u (by simp) fuel second (.mark '>' :: rest) hsecond (by omega) (by simp)
      exact readType_applied harity (readArgs_more ht (readArgs_last hu))
    | [], harity, _ => cases c <;> cases harity
    | _ :: _ :: _ :: _, harity, _ => cases c <;> cases harity

/-- A text with the tokens of a type's own text denotes that type. -/
theorem read_of_canonical {text : String} {t : Ty} (ht : Expressed named t)
    (htext : (tokens text).map Token.canonical = (tokens t.text).map Token.canonical) :
    read named text = .ok t := by
  have hread := @readType_of_canonical named hnamed t ht (2 * (tokens text).length + 1) _ [] htext
    (by omega) (by simp)
  rw [List.append_nil] at hread
  rw [read, hread]
  rfl

theorem read_text {t : Ty} (ht : Expressed named t) : read named t.text = .ok t :=
  read_of_canonical hnamed ht rfl

end Reading

end TypeExpression

namespace Model

variable {model : Model}

/-- The text of a declared type is its name. -/
theorem text_of_named (name : String) (t : Ty) (h : model.named name = some t) : t.text = name := by
  unfold named at h
  split at h
  · next e he =>
    cases h
    exact eq_of_beq (List.find?_some (p := fun e : Entity => e.name == name) he)
  · obtain ⟨d, hd, rfl⟩ := Option.map_eq_some_iff.mp h
    exact eq_of_beq (List.find?_some (p := fun d : EnumDef => d.name == name) hd)

/-- The text of a type that an expression denotes is an expression for it. -/
theorem resolveType?_text {text : String} {t : Ty} (h : model.resolveType? text = some t) :
    model.resolveType? t.text = some t := by
  unfold resolveType? at h ⊢
  cases hread : TypeExpression.read model.named text with
  | error _ => simp [hread, Except.toOption] at h
  | ok u =>
    obtain rfl : u = t := by simpa [hread, Except.toOption] using h
    rw [TypeExpression.read_text text_of_named (TypeExpression.expressed_of_read hread)]
    rfl

end Model
end TypedQuery
