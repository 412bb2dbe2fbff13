import Mathlib.Data.List.Induction
import TypedQuery.Proofs.LiteralTexts
/-!
The texts that are identifiers.

A text is read as an identifier exactly if it has the hyphenated form, in either case of its
letters. What was read has that text in lower case, so the zeros that a group begins with are kept
and no two identifiers share a text.
-/
namespace TypedQuery
namespace Guid

/-! ## Hexadecimal digits -/

/-- A digit, or one of the first six letters in either case. -/
def IsHexDigit (c : Char) : Prop :=
  ('0' ≤ c ∧ c ≤ '9') ∨ ('a' ≤ c ∧ c ≤ 'f') ∨ ('A' ≤ c ∧ c ≤ 'F')

theorem exists_hexValue?_iff {c : Char} :
    (∃ value, Text.hexValue? c = some value) ↔ IsHexDigit c := by
  unfold Text.hexValue? IsHexDigit
  rw [← Text.isDigit_iff]
  by_cases hd : c.isDigit = true
  · simp [hd]
  · by_cases hl : 'a' ≤ c ∧ c ≤ 'f'
    · simp [hd, hl]
    · by_cases hu : 'A' ≤ c ∧ c ≤ 'F'
      · simp [hd, hl, hu]
      · simp [hd, hl, hu]

/-- The digit that is written for what a digit was read as is that digit in lower case. -/
theorem hexDigit_of_hexValue? {c : Char} {value : Nat} (h : Text.hexValue? c = some value) :
    value < 16 ∧ hexDigit value = c.toLower := by
  have hall : ∀ k : Fin 128, ∀ v ∈ Text.hexValue? (Char.ofNat k),
      v < 16 ∧ hexDigit v = (Char.ofNat k).toLower := by decide
  have hascii : c.toNat < 128 := by
    have hbound : ∀ d : Char, c ≤ d → c.toNat ≤ d.toNat := fun d hd => hd
    rcases exists_hexValue?_iff.mp ⟨value, h⟩ with hc | hc | hc
    · exact Nat.lt_of_le_of_lt (hbound _ hc.2) (by decide)
    · exact Nat.lt_of_le_of_lt (hbound _ hc.2) (by decide)
    · exact Nat.lt_of_le_of_lt (hbound _ hc.2) (by decide)
  have := hall ⟨c.toNat, hascii⟩ value
  rw [Char.ofNat_toNat] at this
  exact this h

theorem hyphen_not_isHexDigit : ¬ IsHexDigit '-' := by
  unfold IsHexDigit
  decide

theorem exists_readHex?_iff {cs : List Char} :
    (∃ value, Text.readHex? cs = some value) ↔ ∀ c ∈ cs, IsHexDigit c := by
  induction cs using List.reverseRecOn with
  | nil => simp [Text.readHex?]
  | append_singleton cs c ih =>
    rw [readHex?_concat, List.forall_mem_append, ← ih, List.forall_mem_singleton,
      ← exists_hexValue?_iff]
    constructor
    · rintro ⟨value, h⟩
      obtain ⟨front, hfront, h⟩ := Option.bind_eq_some_iff.mp h
      obtain ⟨last, hlast, -⟩ := Option.map_eq_some_iff.mp h
      exact ⟨⟨front, hfront⟩, last, hlast⟩
    · rintro ⟨⟨front, hfront⟩, last, hlast⟩
      rw [hfront, Option.bind_some, hlast]
      exact ⟨_, rfl⟩

/-- Digits that were read are written again, in lower case and as many as there were. -/
theorem hexDigits_of_readHex? {cs : List Char} {value : Nat} (h : Text.readHex? cs = some value) :
    value < Nat.pow 16 cs.length ∧ hexDigits cs.length value = cs.map Char.toLower := by
  induction cs using List.reverseRecOn generalizing value with
  | nil =>
    cases h
    exact ⟨by simp, rfl⟩
  | append_singleton cs c ih =>
    rw [readHex?_concat] at h
    obtain ⟨front, hfront, h⟩ := Option.bind_eq_some_iff.mp h
    obtain ⟨last, hlast, rfl⟩ := Option.map_eq_some_iff.mp h
    obtain ⟨hlt, hdigits⟩ := ih hfront
    obtain ⟨hsixteen, hdigit⟩ := hexDigit_of_hexValue? hlast
    have hdiv : (16 * front + last) / 16 = front := by omega
    have hlow : hexDigit (16 * front + last) = hexDigit last := by
      rw [hexDigit, hexDigit, Nat.mul_add_mod]
    rw [List.length_append, List.length_singleton]
    refine ⟨?_, ?_⟩
    · rw [Nat.pow_eq, Nat.pow_succ, ← Nat.pow_eq]
      omega
    · rw [hexDigits, hdiv, hlow, hdigits, hdigit, List.map_append, List.map_singleton]

theorem readHex?_append (front back : List Char) : Text.readHex? (front ++ back) =
    (Text.readHex? front).bind fun high =>
      (Text.readHex? back).map (high * Nat.pow 16 back.length + ·) := by
  induction back using List.reverseRecOn with
  | nil =>
    rw [List.append_nil]
    cases Text.readHex? front with
    | none => rfl
    | some high => exact congrArg some (Nat.mul_one high).symm
  | append_singleton back c ih =>
    rw [← List.append_assoc, readHex?_concat, ih, readHex?_concat, List.length_append,
      List.length_singleton]
    cases Text.readHex? front with
    | none => rfl
    | some high =>
      cases Text.readHex? back with
      | none => rfl
      | some low =>
        have hscale : ∀ digit, 16 * (high * Nat.pow 16 back.length + low) + digit =
            high * Nat.pow 16 (back.length + 1) + (16 * low + digit) := by
          intro digit
          rw [Nat.pow_eq, Nat.pow_eq, Nat.pow_succ, ← Nat.mul_assoc]
          omega
        simp only [Option.bind_some, Option.map_some, Option.map_map, Function.comp_def, hscale]

/-! ## Groups -/

/-- `Grouped cs` says that `cs` is five groups of 8, 4, 4, 4 and 12 hexadecimal digits with one
hyphen between each two. -/
def Grouped (cs : List Char) : Prop :=
  ∃ groups : List (List Char), groups.map List.length = [8, 4, 4, 4, 12] ∧
    (∀ group ∈ groups, ∀ c ∈ group, IsHexDigit c) ∧ cs = ['-'].intercalate groups

theorem cut_flatten (groups : List (List Char)) :
    cut (groups.map List.length) groups.flatten = groups := by
  induction groups with
  | nil => rfl
  | cons group groups ih =>
    rw [List.map_cons, List.flatten_cons, cut, List.take_left, List.drop_left, ih]

theorem map_intercalate_hyphen (f : Char → Char) (hf : f '-' = '-') (groups : List (List Char)) :
    (['-'].intercalate groups).map f = ['-'].intercalate (groups.map (List.map f)) := by
  induction groups with
  | nil => rfl
  | cons group groups ih =>
    cases groups with
    | nil => simp
    | cons group' groups =>
      rw [List.map_cons] at ih
      simp [List.intercalate_cons_cons, ih, hf]

theorem length_flatten_of_groups {groups : List (List Char)}
    (h : groups.map List.length = groupLengths) : groups.flatten.length = 32 := by
  rw [List.length_flatten, h]
  rfl

/-- The digits of all groups can be read group by group: what has been read makes room for the
digits of the next group. -/
theorem readHex?_flatten (groups : List (List Char)) : Text.readHex? groups.flatten =
    groups.foldlM (fun raw group =>
      (Text.readHex? group).map (raw <<< (4 * group.length) ||| ·)) 0 := by
  induction groups using List.reverseRecOn with
  | nil => rfl
  | append_singleton groups group ih =>
    rw [List.flatten_append, List.flatten_singleton, readHex?_append, ih, List.foldlM_append]
    refine congrArg _ (funext fun raw => ?_)
    rw [List.foldlM_cons]
    cases hgroup : Text.readHex? group with
    | none => rfl
    | some value =>
      have hlt : value < 2 ^ (4 * group.length) := by
        rw [Nat.pow_mul]
        exact (hexDigits_of_readHex? hgroup).1
      have hroom : raw * Nat.pow 16 group.length + value =
          raw <<< (4 * group.length) ||| value := by
        rw [← Nat.shiftLeft_add_eq_or_of_lt hlt, Nat.shiftLeft_eq, Nat.pow_mul]
        rfl
      exact congrArg some hroom

theorem read?_eq_foldlM (cs : List Char) : read? cs = (groups? cs).bind fun groups =>
    (groups.foldlM (fun raw group =>
      (Text.readHex? group).map (raw <<< (4 * group.length) ||| ·)) 0).map
      fun value => { bits := BitVec.ofNat 128 value } := by
  unfold read?
  simp only [readHex?_flatten, Option.bind_eq_bind, Option.map_eq_bind]
  rfl

theorem exists_read?_of_grouped {cs : List Char} (h : Grouped cs) : ∃ g, read? cs = some g := by
  obtain ⟨groups, hlengths, hdigits, rfl⟩ := h
  have hhyphen : ∀ group ∈ groups, '-' ∉ group := fun group hgroup hmem =>
    hyphen_not_isHexDigit (hdigits group hgroup '-' hmem)
  have hne : groups ≠ [] := by
    rintro rfl
    cases hlengths
  have hflat : ∀ c ∈ groups.flatten, IsHexDigit c := by
    intro c hc
    obtain ⟨group, hgroup, hc⟩ := List.mem_flatten.mp hc
    exact hdigits group hgroup c hc
  obtain ⟨value, hvalue⟩ := exists_readHex?_iff.mpr hflat
  have hgroups : groups? (['-'].intercalate groups) = some groups := by
    rw [groups?, List.splitOn_intercalate _ hhyphen hne]
    exact if_pos hlengths
  have hread : read? (['-'].intercalate groups) = some { bits := BitVec.ofNat 128 value } := by
    rw [read?, hgroups]
    simp only [Option.bind_eq_bind, Option.bind_some, hvalue]
  exact ⟨_, hread⟩

/-- What is read has the hyphenated form, and is written as it stood there but in lower case. -/
theorem grouped_and_text_of_read? {cs : List Char} {g : Guid} (h : read? cs = some g) :
    Grouped cs ∧ g.text = cs.map Char.toLower := by
  obtain ⟨groups, hgroups, h⟩ := Option.bind_eq_some_iff.mp h
  obtain ⟨value, hvalue, h⟩ := Option.bind_eq_some_iff.mp h
  obtain rfl := Option.some.inj h
  unfold groups? at hgroups
  dsimp only at hgroups
  split at hgroups
  · next hlengths =>
    cases hgroups
    have hcs : List.intercalate ['-'] (cs.splitOn '-') = cs := List.intercalate_splitOn '-'
    generalize cs.splitOn '-' = groups at hlengths hvalue hcs
    subst hcs
    obtain ⟨hlt, hdigits⟩ := hexDigits_of_readHex? hvalue
    rw [length_flatten_of_groups hlengths] at hlt hdigits
    refine ⟨⟨groups, hlengths, ?_, rfl⟩, ?_⟩
    · intro group hgroup c hc
      exact exists_readHex?_iff.mp ⟨value, hvalue⟩ c (List.mem_flatten.mpr ⟨group, hgroup, hc⟩)
    · have hbits : (BitVec.ofNat 128 value).toNat = value := Nat.mod_eq_of_lt hlt
      have hlower : groupLengths = (groups.map (List.map Char.toLower)).map List.length := by
        rw [← hlengths, List.map_map]
        simp
      rw [text, hbits, hdigits, map_intercalate_hyphen _ (by decide), List.map_flatten, hlower,
        cut_flatten]
  · cases hgroups

theorem parse_eq_ok_iff {s : String} {g : Guid} : parse s = .ok g ↔ read? s.toList = some g := by
  unfold parse
  split
  · next hread => rw [hread, Except.ok.injEq, Option.some.injEq]
  · next hread => simp [hread]

/-- Every identifier is read back from its text. A text is an identifier exactly if it has the
hyphenated form, and then it is the text of that identifier but for the case of its letters. -/
theorem parse_inverse_text :
    (∀ g : Guid, parse (String.ofList g.text) = .ok g) ∧
    ∀ s : String, ((∃ g, parse s = .ok g) ↔ Grouped s.toList) ∧
      ∀ g, parse s = .ok g → String.ofList g.text = s.toLower := by
  refine ⟨fun g => ?_, fun s => ⟨⟨?_, fun h => ?_⟩, fun g hg => ?_⟩⟩
  · rw [parse_eq_ok_iff, String.toList_ofList, read?_text]
  · rintro ⟨g, hg⟩
    exact (grouped_and_text_of_read? (parse_eq_ok_iff.mp hg)).1
  · obtain ⟨g, hg⟩ := exists_read?_of_grouped h
    exact ⟨g, parse_eq_ok_iff.mpr hg⟩
  · have htext := (grouped_and_text_of_read? (parse_eq_ok_iff.mp hg)).2
    rw [← String.toList_inj, String.toList_ofList, htext]
    exact String.toList_map.symm

/-- Letters of both cases, and zeros at the start of groups. -/
theorem parse_inverse_text_mixed :
    ∃ g : Guid, parse "0F8fad5b-00CB-469F-a165-00867728950e" = .ok g ∧
      String.ofList g.text = "0f8fad5b-00cb-469f-a165-00867728950e" := by
  obtain ⟨hgrouped, htext⟩ := parse_inverse_text.2 "0F8fad5b-00CB-469F-a165-00867728950e"
  obtain ⟨g, hg⟩ := hgrouped.mpr ⟨["0F8fad5b".toList, "00CB".toList, "469F".toList, "a165".toList,
    "00867728950e".toList], by decide, by simp [IsHexDigit], by decide⟩
  refine ⟨g, hg, (htext g hg).trans ?_⟩
  exact String.toList_inj.mp (String.toList_map.trans (by decide))

end Guid
end TypedQuery
