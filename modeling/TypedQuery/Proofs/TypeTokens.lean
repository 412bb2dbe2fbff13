import Mathlib.Data.List.SplitBy
import TypedQuery.Proofs.TypeText
/-!
The texts that denote a type.

What a text denotes is settled by its tokens: the longest runs of name characters in it and its
other characters that are no blanks. A type is denoted by the texts with the tokens of its own
text, apart from the two names of `Bool`, and by no others.
-/
namespace TypedQuery
namespace TypeExpression

/-! ## Tokens are runs -/

/-- Two characters of one run. -/
def inRun (c d : Char) : Bool := isNameChar c && isNameChar d

/-- The token of a run of name characters, or of another character unless it is a blank. -/
def tokenOfRun? : List Char → Option Token
  | [] => none
  | c :: rest =>
    if isNameChar c then some (.name (String.ofList (c :: rest)))
    else if Text.isBlank c then none
    else some (.mark c)

/-- The tokens of some characters, cut into the longest runs of name characters and single
characters between them. -/
def runTokens (cs : List Char) : List Token := (cs.splitBy inRun).filterMap tokenOfRun?

theorem runTokens_append {cs ds : List Char}
    (h : ∀ c ∈ cs.getLast?, ∀ d ∈ ds.head?, inRun c d = false) :
    runTokens (cs ++ ds) = runTokens cs ++ runTokens ds := by
  rw [runTokens, List.splitBy_append h, List.filterMap_append]
  rfl

theorem runTokens_of_isNameChar {run : List Char} (hrun : ∀ c ∈ run, isNameChar c = true) :
    runTokens run = nameToken run.reverse := by
  cases run with
  | nil => rfl
  | cons c run =>
    have hchain : (c :: run).IsChain fun c d => inRun c d = true := by
      refine List.Pairwise.isChain (List.pairwise_of_forall_mem_list fun a ha b hb => ?_)
      simp [inRun, hrun a ha, hrun b hb]
    have hc : isNameChar c = true := hrun c List.mem_cons_self
    rw [runTokens, List.splitBy_of_isChain (List.cons_ne_nil c run) hchain, nameToken.eq_def]
    split
    · next heq => simp at heq
    · simp [tokenOfRun?, hc]

theorem tokensAfter_eq_runTokens {run cs : List Char} (hrun : ∀ c ∈ run, isNameChar c = true) :
    tokensAfter run cs = runTokens (run.reverse ++ cs) := by
  induction cs generalizing run with
  | nil =>
    rw [List.append_nil, runTokens_of_isNameChar (by simpa using hrun), List.reverse_reverse]
    rfl
  | cons c cs ih =>
    by_cases hc : isNameChar c = true
    · rw [tokensAfter, if_pos hc, ih (List.forall_mem_cons.mpr ⟨hc, hrun⟩), List.reverse_cons,
        List.append_assoc, List.singleton_append]
    · have hbefore : runTokens (run.reverse ++ c :: cs) =
          nameToken run ++ runTokens (c :: cs) := by
        rw [runTokens_append (by simp [inRun, hc]), runTokens_of_isNameChar (by simpa using hrun),
          List.reverse_reverse]
      have hbehind : runTokens (c :: cs) = runTokens [c] ++ runTokens cs :=
        @runTokens_append [c] cs (by simp [inRun, hc])
      have hrest : tokensAfter [] cs = runTokens cs := ih (by simp)
      have hsingle : runTokens [c] = if Text.isBlank c then [] else [.mark c] := by
        show [[c]].filterMap tokenOfRun? = _
        by_cases hblank : Text.isBlank c = true <;> simp [tokenOfRun?, hc, hblank]
      rw [tokensAfter, if_neg hc, hbefore, hbehind, hrest, hsingle]
      by_cases hblank : Text.isBlank c = true <;> simp [hblank]

/-- The tokens of a text are its longest runs of name characters and its other characters that
are no blanks. -/
theorem tokens_eq_runTokens (text : String) : tokens text = runTokens text.toList :=
  @tokensAfter_eq_runTokens [] text.toList (by simp)

/-! ## What is read was written -/

variable {named : String → Option Ty}

/-- The tokens between the angles of a container. -/
def argTokens : List Ty → List Token
  | [] => []
  | [t] => tokens t.text
  | t :: u :: us => tokens t.text ++ .mark ',' :: argTokens (u :: us)

theorem tokens_applied {c : Container} {us : List Ty} (harity : us.length = c.arity) :
    tokens (Ty.applied c us).text =
      .name c.name :: .mark '<' :: (argTokens us ++ [.mark '>']) := by
  match us, harity with
  | [t], _ => exact tokens_applied_one c t
  | [t, u], _ => simpa [argTokens] using tokens_applied_two c t u
  | [], harity => cases c <;> cases harity
  | _ :: _ :: _ :: _, harity => cases c <;> cases harity

theorem canonical_of_readBrackets {t u : Ty} {ts rest : List Token}
    (h : readBrackets t ts = .ok (u, rest)) :
    (tokens t.text ++ ts).map Token.canonical =
      (tokens u.text ++ rest).map Token.canonical := by
  fun_induction readBrackets t ts with
  | case1 t ts ih =>
    have harray := ih h
    rwa [tokens_array, List.append_assoc] at harray
  | case2 => cases h
  | case3 =>
    cases h
    rfl

theorem canonicalName_of_ofName? {name : String} {p : Primitive}
    (h : Primitive.ofName? name = some p) : canonicalName name = canonicalName p.name := by
  unfold Primitive.ofName? at h
  split at h <;> cases h <;> rfl

theorem ne_nil_of_readArgs {fuel : Nat} {ts rest : List Token} {us : List Ty}
    (h : readArgs named fuel ts = .ok (us, rest)) : us ≠ [] := by
  cases fuel with
  | zero => cases h
  | succ fuel =>
    obtain ⟨_, _, _, ⟨rfl, _⟩ | ⟨_, _, _, _, rfl⟩⟩ := readArgs_cases h <;>
      exact List.cons_ne_nil _ _

theorem canonical_of_resolveName (hnamed : ∀ name t, named name = some t → t.text = name)
    {name : String} {t : Ty} (hname : IsName name) (h : resolveName named name = .ok t) :
    [Token.name name].map Token.canonical = (tokens t.text).map Token.canonical := by
  rcases resolveName_eq_ok.mp h with ⟨p, hp, rfl⟩ | ⟨-, ht⟩
  · rw [tokens_primitive]
    exact congrArg (fun name => [Token.name name]) (canonicalName_of_ofName? hp)
  · rw [hnamed name _ ht, tokens_of_isName hname]

mutual
/-- A type is read from tokens that differ from those of its text in the names of `Bool` alone. -/
theorem canonical_of_readType (hnamed : ∀ name t, named name = some t → t.text = name) :
    ∀ (fuel : Nat) {ts rest : List Token} {t : Ty}, Legible ts →
    readType named fuel ts = .ok (t, rest) →
    ts.map Token.canonical = (tokens t.text ++ rest).map Token.canonical
  | 0, _, _, _, _, h => by cases h
  | fuel + 1, ts, rest, t, hts, h => by
    rcases readType_cases h with ⟨c, us, _, _, rfl, hargs, harity, h⟩ | ⟨name, u, _, rfl, hu, h⟩
    · have hwritten := canonical_of_readArgs hnamed fuel hts.tail.tail hargs
      rw [← canonical_of_readBrackets h, tokens_applied harity]
      simpa [Token.canonical] using hwritten
    · rw [← canonical_of_readBrackets h, List.map_append,
        ← canonical_of_resolveName hnamed (hts name List.mem_cons_self) hu, ← List.map_append]
      rfl

theorem canonical_of_readArgs (hnamed : ∀ name t, named name = some t → t.text = name) :
    ∀ (fuel : Nat) {ts rest : List Token} {us : List Ty}, Legible ts →
    readArgs named fuel ts = .ok (us, rest) →
    ts.map Token.canonical = (argTokens us ++ rest).map Token.canonical
  | 0, _, _, _, _, h => by cases h
  | fuel + 1, ts, rest, us, hts, h => by
    obtain ⟨u, behind, hread, hmore⟩ := readArgs_cases h
    have hwritten := canonical_of_readType hnamed fuel hts hread
    have hlegible := (expressed_of_readType fuel hts hread).2
    rcases hmore with ⟨rfl, rfl⟩ | ⟨us', more, rfl, hus, rfl⟩
    · exact hwritten
    · have hmore := canonical_of_readArgs hnamed fuel hlegible.tail hus
      obtain ⟨v, vs, rfl⟩ := List.exists_cons_of_ne_nil (ne_nil_of_readArgs hus)
      rw [hwritten, argTokens, List.map_append, List.map_cons, hmore]
      simp
end

/-- What a text denotes has the tokens of the text. -/
theorem canonical_of_read (hnamed : ∀ name t, named name = some t → t.text = name)
    {text : String} {t : Ty} (h : read named text = .ok t) :
    (tokens text).map Token.canonical = (tokens t.text).map Token.canonical := by
  obtain ⟨⟨u, rest⟩, hu, h⟩ := except_bind_eq_ok.mp h
  dsimp only at h
  split at h
  · next hrest =>
    cases h
    rw [canonical_of_readType hnamed _ (legible_tokens text) hu, List.isEmpty_iff.mp hrest,
      List.append_nil]
  · cases h

/-- A text denotes a type exactly if the type has an expression and the text has the tokens of
the type's own text. -/
theorem read_eq_ok_iff (hnamed : ∀ name t, named name = some t → t.text = name)
    {text : String} {t : Ty} :
    read named text = .ok t ↔ Expressed named t ∧
      (tokens text).map Token.canonical = (tokens t.text).map Token.canonical :=
  ⟨fun h => ⟨expressed_of_read h, canonical_of_read hnamed h⟩,
    fun ⟨ht, htext⟩ => read_of_canonical hnamed ht htext⟩

/-! ## More names -/

variable {named' : String → Option Ty}

theorem Expressed.mono (hmore : ∀ name t, named name = some t → named' name = some t) {t : Ty}
    (ht : Expressed named t) : Expressed named' t := by
  induction ht with
  | primitive hp => exact .primitive hp
  | declared hname hp ht => exact .declared hname hp (hmore _ _ ht)
  | array _ ih => exact ih.array
  | applied harity _ ih => exact .applied harity ih

/-- A text that denotes a type denotes the same type where more names are declared. -/
theorem read_mono (hmore : ∀ name t, named name = some t → named' name = some t)
    (hnamed' : ∀ name t, named' name = some t → t.text = name) {text : String} {t : Ty}
    (h : read named text = .ok t) : read named' text = .ok t := by
  have hnamed : ∀ name t, named name = some t → t.text = name :=
    fun name t ht => hnamed' name t (hmore name t ht)
  obtain ⟨ht, htext⟩ := (read_eq_ok_iff hnamed).mp h
  exact (read_eq_ok_iff hnamed').mpr ⟨ht.mono hmore, htext⟩

end TypeExpression
end TypedQuery
