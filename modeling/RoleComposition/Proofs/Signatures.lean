import Mathlib.Data.List.DropRight
import RoleComposition.Signature

/-!
# Texts of signatures

Blanks at the ends of a text do not count, and one mark of the type level is taken off in front;
what is left is the name, of which no more is asked than that it is there and has no blanks. A
signature comes back from its text unless its name breaks these rules, or carries the mark although
the method is one of values. Main statements: `parse_eq_ok_iff`, `written_iff` and `parse_of_text`.
-/

namespace RoleComposition

namespace Text

/-- What is left of a text when all blanks at its ends are taken off. -/
structure Stripped (cs core : List Char) : Prop where
  ends : ∃ front back, cs = front ++ core ++ back ∧ (∀ c ∈ front, isBlank c = true) ∧
    ∀ c ∈ back, isBlank c = true
  first : ∀ h : core ≠ [], isBlank (core.head h) = false
  last : ∀ h : core ≠ [], isBlank (core.getLast h) = false

/-- A text has characters, and none of them is blank. -/
def Solid (cs : List Char) : Prop := cs ≠ [] ∧ ∀ c ∈ cs, isBlank c = false

variable {cs core : List Char}

theorem Stripped.of_no_blank (h : ∀ c ∈ cs, isBlank c = false) : Stripped cs cs :=
  ⟨⟨[], [], by simp, by simp, by simp⟩, fun hne => h _ (List.head_mem hne),
    fun hne => h _ (List.getLast_mem hne)⟩

theorem trimChars_eq_rdropWhile (cs : List Char) :
    trimChars cs = (cs.dropWhile isBlank).rdropWhile isBlank := rfl

theorem stripped_trimChars (cs : List Char) : Stripped cs (trimChars cs) := by
  rw [trimChars_eq_rdropWhile]
  have hfirst := List.rdropWhile_prefix isBlank (cs.dropWhile isBlank)
  refine ⟨⟨cs.takeWhile isBlank, (cs.dropWhile isBlank).rtakeWhile isBlank, ?_, ?_, ?_⟩, ?_, ?_⟩
  · rw [List.append_assoc, List.rdropWhile_append_rtakeWhile, List.takeWhile_append_dropWhile]
  · exact fun c hc => List.mem_takeWhile_imp hc
  · exact fun c hc => List.mem_rtakeWhile_imp hc
  · intro hne
    rw [hfirst.head hne]
    exact List.head_dropWhile_not isBlank (hfirst.ne_nil hne)
  · exact fun hne => Bool.eq_false_iff.2 (List.rdropWhile_last_not isBlank _ hne)

/-- There is only one way to take the blanks off. -/
theorem Stripped.trimChars_eq (h : Stripped cs core) : trimChars cs = core := by
  obtain ⟨⟨front, back, rfl, hfront, hback⟩, hfirst, hlast⟩ := h
  rw [trimChars_eq_rdropWhile, List.append_assoc, List.dropWhile_append_of_pos hfront]
  -- of a text that is all blank, those at the back go with those in front
  have hback' : (core ++ back).rdropWhile isBlank = core := by
    rw [List.rdropWhile, List.reverse_append,
      List.dropWhile_append_of_pos fun c hc => hback c (List.mem_reverse.1 hc)]
    exact List.rdropWhile_eq_self_iff.2 fun hne => Bool.eq_false_iff.1 (hlast hne)
  by_cases hne : core = []
  · subst hne
    rw [List.nil_append, List.dropWhile_eq_nil_iff.2 hback]
    rfl
  · have hfront' : (core ++ back).dropWhile isBlank = core ++ back := by
      obtain ⟨c, core, rfl⟩ := List.exists_cons_of_ne_nil hne
      exact List.dropWhile_cons_of_neg (Bool.eq_false_iff.1 (hfirst hne))
    rw [hfront', hback']

end Text

/-- Some text stands for the signature. -/
def Signature.Written (s : Signature) : Prop := ∃ input, parse input = .ok s

namespace Signature

/-- The level and the name that a stripped text has: at most one mark is taken off. -/
inductive Splits : List Char → Level → List Char → Prop
  | onType (name : List Char) : Splits (typeMark ++ name) .onType name
  | onInstance {name : List Char} : ¬ typeMark <+: name → Splits name .onInstance name

variable {s s' : Signature} {core name : List Char} {level : Level} {input : String}

theorem toList_text_onInstance (name : String) :
    (Signature.mk .onInstance name).text.toList = name.toList := rfl

theorem toList_text_onType (name : String) :
    (Signature.mk .onType name).text.toList = typeMark ++ name.toList := String.toList_ofList

theorem Splits.splitMark_eq (h : Splits core level name) : splitMark core = (level, name) := by
  cases h with
  | onType =>
    unfold splitMark
    rw [if_pos (List.isPrefixOf_iff_prefix.2 (List.prefix_append _ _)), List.drop_left]
  | onInstance hmark => exact if_neg (by simpa [List.isPrefixOf_iff_prefix] using hmark)

theorem splits_splitMark (core : List Char) :
    Splits core (splitMark core).1 (splitMark core).2 := by
  by_cases hmark : typeMark <+: core
  · obtain ⟨name, rfl⟩ := hmark
    rw [(Splits.onType name).splitMark_eq]
    exact .onType name
  · rw [(Splits.onInstance hmark).splitMark_eq]
    exact .onInstance hmark

/-- What has been taken off is put in front again. -/
theorem Splits.toList_text (h : Splits core s.level s.name.toList) : s.text.toList = core := by
  obtain ⟨level, name⟩ := s
  cases h with
  | onType => exact toList_text_onType name
  | onInstance _ => exact toList_text_onInstance name

theorem Splits.unmarked (h : Splits core level name) (hlevel : level = .onInstance) :
    ¬ typeMark <+: name := by
  cases h with
  | onType => cases hlevel
  | onInstance hmark => exact hmark

theorem splits_text (h : s.level = .onInstance → ¬ typeMark <+: s.name.toList) :
    Splits s.text.toList s.level s.name.toList := by
  obtain ⟨_ | _, name⟩ := s
  · exact .onInstance (h rfl)
  · rw [toList_text_onType]
    exact .onType _

/-- What a text is read as, by what is left of it. -/
theorem parse_of_splits (h : Text.Stripped input.toList core) (hsplits : Splits core level name) :
    parse input =
      if name.isEmpty then .error .emptyName
      else if name.any Text.isBlank then .error .blankInName
      else .ok ⟨level, String.ofList name⟩ := by
  unfold parse
  rw [h.trimChars_eq, hsplits.splitMark_eq]

/-- A text stands for a signature if the name that is left of it is there and has no blanks. -/
theorem exists_parse_iff (h : Text.Stripped input.toList core) (hsplits : Splits core level name) :
    (∃ s, parse input = .ok s) ↔ Text.Solid name := by
  have hsolid : Text.Solid name ↔ name.isEmpty = false ∧ name.any Text.isBlank = false := by
    simp [Text.Solid]
  rw [parse_of_splits h hsplits, hsolid]
  cases name.isEmpty <;> cases name.any Text.isBlank <;> simp

theorem parse_eq_ok_iff :
    parse input = .ok s ↔ ∃ core, Text.Stripped input.toList core ∧
      Splits core s.level s.name.toList ∧ Text.Solid s.name.toList := by
  constructor
  · intro h
    have hstripped := Text.stripped_trimChars input.toList
    have hsplits := splits_splitMark (Text.trimChars input.toList)
    have hsolid := (exists_parse_iff hstripped hsplits).1 ⟨s, h⟩
    rw [parse_of_splits hstripped hsplits] at h
    split_ifs at h
    obtain rfl := Except.ok.inj h
    exact ⟨_, hstripped, by simpa using hsplits, by simpa using hsolid⟩
  · rintro ⟨core, hstripped, hsplits, hsolid⟩
    have hany : s.name.toList.any Text.isBlank = false := by simpa using hsolid.2
    rw [parse_of_splits hstripped hsplits, if_neg (by simpa using hsolid.1),
      if_neg (by simp [hany]), String.ofList_toList]

/-! ## Signatures and their texts -/

/-- The text of a method with a name that has no blanks has none. -/
theorem no_blank_text (h : ∀ c ∈ s.name.toList, Text.isBlank c = false) :
    ∀ c ∈ s.text.toList, Text.isBlank c = false := by
  obtain ⟨_ | _, name⟩ := s
  · exact h
  · have hmark : (typeMark.all fun c => !Text.isBlank c) = true := by decide
    rw [toList_text_onType]
    exact List.forall_mem_append.2 ⟨by simpa using List.all_eq_true.1 hmark, h⟩

/-- A signature comes back from its text if its name allows for it. -/
theorem parse_text_of_solid (hsolid : Text.Solid s.name.toList)
    (hmark : s.level = .onInstance → ¬ typeMark <+: s.name.toList) : parse s.text = .ok s :=
  parse_eq_ok_iff.2 ⟨_, .of_no_blank (no_blank_text hsolid.2), splits_text hmark, hsolid⟩

/-- The signatures that texts stand for. -/
theorem written_iff : s.Written ↔
    Text.Solid s.name.toList ∧ (s.level = .onInstance → ¬ typeMark <+: s.name.toList) := by
  constructor
  · rintro ⟨input, h⟩
    obtain ⟨core, -, hsplits, hsolid⟩ := parse_eq_ok_iff.1 h
    exact ⟨hsolid, hsplits.unmarked⟩
  · rintro ⟨hsolid, hmark⟩
    exact ⟨s.text, parse_text_of_solid hsolid hmark⟩

/-- A signature that is written is what its text stands for. -/
theorem parse_text (h : s.Written) : parse s.text = .ok s :=
  parse_text_of_solid (written_iff.1 h).1 (written_iff.1 h).2

/-- No blanks stand in the text of a signature that is written. -/
theorem Written.notMem_text (h : s.Written) {c : Char} (hc : Text.isBlank c = true) :
    c ∉ s.text.toList :=
  fun hmem => Bool.eq_false_iff.1 (no_blank_text (written_iff.1 h).1.2 c hmem) hc

/-- The text of a signature that is written stands for no other one. -/
theorem Written.text_inj (h : s.Written) (h' : s'.Written)
    (heq : s.text.toList = s'.text.toList) : s = s' := by
  have hparse := parse_text h
  rw [String.toList_inj.1 heq, parse_text h'] at hparse
  exact (Except.ok.inj hparse).symm

/-- A text stands for a signature iff the name that is left of it, without the blanks at its ends
and without one mark in front, is there and has no blanks, and the text of that signature is the
stripped text. A signature of whatever name comes back from its own text iff its name is there and
has no blanks, and does not carry the mark on a method of values; in particular it does if some text
stands for it. -/
theorem parse_of_text (input : String) (s : Signature) :
    (∃ core level name, Text.Stripped input.toList core ∧ Splits core level name ∧
      ((∃ s, parse input = .ok s) ↔ Text.Solid name) ∧
      ∀ s, parse input = .ok s → s.text = String.ofList core) ∧
    (parse s.text = .ok s ↔
      Text.Solid s.name.toList ∧ (s.level = .onInstance → ¬ typeMark <+: s.name.toList)) ∧
    (s.Written → parse s.text = .ok s) := by
  have hstripped := Text.stripped_trimChars input.toList
  have hsplits := splits_splitMark (Text.trimChars input.toList)
  refine ⟨⟨_, _, _, hstripped, hsplits, exists_parse_iff hstripped hsplits, fun s h => ?_⟩,
    ?_, parse_text⟩
  · obtain ⟨core, hcore, hs, -⟩ := parse_eq_ok_iff.1 h
    rw [hcore.trimChars_eq, ← hs.toList_text, String.ofList_toList]
  · rw [← written_iff]
    exact ⟨fun h => ⟨s.text, h⟩, parse_text⟩

/-- Of two marks between wide blanks one belongs to the name. The method of the type comes back from
its text, and a method of values with the same name does not. -/
theorem parse_of_text_marked_twice :
    let ring : Signature := ⟨.onType, "type::ring"⟩
    parse "\u3000type::type::ring\u2003" = .ok ring ∧ parse ring.text = .ok ring ∧
      parse (mk .onInstance ring.name).text ≠ .ok (mk .onInstance ring.name) := by
  intro ring
  have hring : parse "\u3000type::type::ring\u2003" = .ok ring := by decide +kernel
  obtain ⟨-, -, hback⟩ := parse_of_text "\u3000type::type::ring\u2003" ring
  obtain ⟨-, hvalue, -⟩ := parse_of_text "ring" (mk .onInstance ring.name)
  refine ⟨hring, hback ⟨_, hring⟩, fun h => ?_⟩
  obtain ⟨-, hunmarked⟩ := hvalue.1 h
  exact hunmarked rfl (by decide +kernel)

end Signature

end RoleComposition
