import ObjectRelational.Path.Segment
import ObjectRelational.Proofs.Data.Except
import ObjectRelational.Proofs.Text.Dotted

set_option autoImplicit false
set_option relaxedAutoImplicit false

/-!
Segments and their texts. A text is read as a segment exactly when it is the text of a well-formed
one, so that reading and writing segments undo each other, and a path that grew by a component is
cut again in front of it.
-/

namespace ObjectRelational

namespace Segment

def IsPlain (text : String) : Prop := text ≠ "" ∧ hasMark text.toList = false

instance (text : String) : Decidable (IsPlain text) := inferInstanceAs (Decidable (_ ∧ _))

structure WellFormed (s : Segment) : Prop where
  name : IsPlain s.name
  aliasName : ∀ a, s.aliasName = some a → IsPlain a

private theorem WellFormed.rename {s : Segment} (h : s.WellFormed) {name : String}
    (plain : IsPlain name) : (s.rename name).WellFormed := ⟨plain, h.aliasName⟩

theorem hasMark_eq_false_iff (cs : List Char) :
    hasMark cs = false ↔ outerMark ∉ cs ∧ aliasMark ∉ cs := by
  simp [hasMark]

def aliasChars : Option (List Char) → List Char
  | none => []
  | some aliasName => aliasMark :: aliasName

def outerChars (outer : Bool) : List Char := if outer then [outerMark] else []

theorem toList_text (s : Segment) :
    s.text.toList =
      s.name.toList ++ aliasChars (s.aliasName.map String.toList) ++ outerChars s.outer := by
  obtain ⟨name, aliasName, outer⟩ := s
  cases aliasName <;> cases outer <;> simp [text, aliasChars, outerChars]

theorem text_of_hasMarkers_eq_false {s : Segment} (unmarked : s.hasMarkers = false) :
    s.text = s.name := by
  obtain ⟨name, aliasName, outer⟩ := s
  obtain ⟨rfl, no_alias⟩ := Bool.or_eq_false_iff.mp unmarked
  obtain rfl := Option.isSome_eq_false_iff.mp no_alias |> Option.isNone_iff_eq_none.mp
  simp [text]

private theorem cutOuter_append_outerChars {cs : List Char} (unmarked : outerMark ∉ cs)
    (outer : Bool) : cutOuter (cs ++ outerChars outer) = (cs, outer) := by
  cases outer with
  | true => simp [cutOuter, outerChars]
  | false =>
    have last : cs.getLast? ≠ some outerMark := fun h => unmarked (List.mem_of_getLast? h)
    simp [cutOuter, outerChars, last]

private theorem append_outerChars_cutOuter (cs : List Char) :
    (cutOuter cs).1 ++ outerChars (cutOuter cs).2 = cs := by
  unfold cutOuter
  split
  · rename_i last
    exact List.dropLast_append_getLast? _ last
  · exact List.append_nil cs

private theorem cutAlias_append_aliasChars {name : List Char} (unmarked : aliasMark ∉ name)
    (aliasName : Option (List Char)) :
    cutAlias (name ++ aliasChars aliasName) = (name, aliasName) := by
  induction name with
  | nil => cases aliasName <;> simp [cutAlias, aliasChars]
  | cons c name ih =>
    obtain ⟨hc, hname⟩ := not_or.mp (mt List.mem_cons.mpr unmarked)
    simp [cutAlias, Ne.symm hc, ih hname]

private theorem append_aliasChars_cutAlias (cs : List Char) :
    (cutAlias cs).1 ++ aliasChars (cutAlias cs).2 = cs := by
  induction cs with
  | nil => rfl
  | cons c cs ih =>
    unfold cutAlias
    split
    · rename_i mark
      rw [mark]
      rfl
    · exact congrArg (c :: ·) ih

theorem WellFormed.outerMark_not_mem {s : Segment} (h : s.WellFormed) :
    outerMark ∉ s.name.toList ++ aliasChars (s.aliasName.map String.toList) := by
  rw [List.mem_append, not_or]
  refine ⟨((hasMark_eq_false_iff _).mp h.name.2).1, ?_⟩
  cases named : s.aliasName with
  | none => exact List.not_mem_nil
  | some a =>
    have alias_unmarked := (hasMark_eq_false_iff _).mp (h.aliasName a named).2
    simpa [aliasChars, outerMark, aliasMark] using alias_unmarked.1

private theorem parse_text {s : Segment} (h : s.WellFormed) : parse s.text = .ok s := by
  have cut_outer := cutOuter_append_outerChars h.outerMark_not_mem s.outer
  obtain ⟨name, aliasName, outer⟩ := s
  obtain ⟨⟨name_ne, name_marks⟩, alias_plain⟩ := h
  have name_unmarked := (hasMark_eq_false_iff _).mp name_marks
  have cut_alias := cutAlias_append_aliasChars name_unmarked.2 (aliasName.map String.toList)
  simp only [parse, toList_text, cut_outer, cut_alias]
  cases aliasName with
  | none => simp [name_ne, name_marks]
  | some a =>
    obtain ⟨alias_ne, alias_marks⟩ := alias_plain a rfl
    simp [name_ne, name_marks, alias_ne, alias_marks]

private theorem of_parse {raw : String} {s : Segment} (read : parse raw = .ok s) :
    s.WellFormed ∧ s.text = raw := by
  have alias_part := append_aliasChars_cutAlias (cutOuter raw.toList).1
  have outer_part := append_outerChars_cutOuter raw.toList
  unfold parse at read
  revert read alias_part outer_part
  generalize cutOuter raw.toList = cut
  obtain ⟨rest, outer⟩ := cut
  dsimp only
  generalize cutAlias rest = parts
  obtain ⟨name, aliasName⟩ := parts
  intro read alias_part outer_part
  split at read
  · cases read
  · rename_i name_ne
    split at read
    · cases read
    · rename_i alias_ne
      split at read
      · cases read
      · rename_i marks
        obtain rfl := Except.ok.inj read
        have unmarked := not_or.mp (mt Bool.or_eq_true_iff.mpr marks)
        refine ⟨⟨⟨?_, ?_⟩, ?_⟩, ?_⟩
        · simpa using name_ne
        · simpa using unmarked.1
        · rintro a same
          obtain ⟨cs, rfl, rfl⟩ := Option.map_eq_some_iff.mp same
          simpa [IsPlain] using And.intro alias_ne unmarked.2
        · apply String.toList_injective
          rw [toList_text, ← outer_part, ← alias_part]
          simp [Function.comp_def]

theorem kind_of_parse {raw : String} {e : MappingError} (failed : parse raw = .error e) :
    e.kind = .invalidPath := by
  unfold parse at failed
  dsimp only at failed
  split at failed
  · cases failed
    rfl
  · split at failed
    · cases failed
      rfl
    · split at failed
      · cases failed
        rfl
      · cases failed

theorem parse_eq_ok_iff {raw : String} {s : Segment} :
    parse raw = .ok s ↔ s.WellFormed ∧ s.text = raw := by
  constructor
  · exact of_parse
  · rintro ⟨formed, rfl⟩
    exact parse_text formed

theorem WellFormed.text_ne {s : Segment} (h : s.WellFormed) : s.text ≠ "" := by
  intro empty
  have chars := s.toList_text
  rw [empty] at chars
  have name_empty : s.name.toList = [] :=
    List.append_eq_nil_iff.mp (List.append_eq_nil_iff.mp chars.symm).1 |>.1
  exact h.name.1 (String.toList_eq_nil_iff.mp name_empty)

structure IsComponent (s : Segment) : Prop where
  wellFormed : s.WellFormed
  undotted : Text.hasDot s.text = false

namespace IsComponent

variable {s t : Segment}

theorem rename (h : s.IsComponent) {name : String} (plain : IsPlain name)
    (undotted : Text.hasDot name = false) : (s.rename name).IsComponent := by
  refine ⟨h.wellFormed.rename plain, ?_⟩
  have marks := h.undotted
  rw [Text.hasDot_eq_false_iff, toList_text] at marks ⊢
  rw [Text.hasDot_eq_false_iff] at undotted
  simp only [List.mem_append, not_or] at marks ⊢
  exact ⟨⟨undotted, marks.1.2⟩, marks.2⟩

private theorem eq_of_text (h : s.IsComponent) (h' : t.IsComponent) (same : s.text = t.text) :
    s = t := by
  have read := parse_text h.wellFormed
  rw [same, parse_text h'.wellFormed] at read
  exact (Except.ok.inj read).symm

theorem hasDot_name (h : s.IsComponent) : Text.hasDot s.name = false := by
  have chars := h.undotted
  rw [Text.hasDot_eq_false_iff, toList_text, List.mem_append, List.mem_append, not_or,
    not_or] at chars
  exact (Text.hasDot_eq_false_iff _).mpr chars.1.1

theorem text_ne (h : s.IsComponent) : s.text ≠ "" := h.wellFormed.text_ne

end IsComponent

end Segment

namespace Path

private theorem mapM_parse_eq_ok_iff {parts : List String} {segments : List Segment} :
    parts.mapM Segment.parse = .ok segments ↔
      (∀ s ∈ segments, s.WellFormed) ∧ segments.map Segment.text = parts := by
  rw [mapM_ok_iff_forall₂]
  induction segments generalizing parts with
  | nil => simp [eq_comm]
  | cons s segments ih =>
    rw [List.forall₂_cons_right_iff, List.forall_mem_cons, List.map_cons]
    constructor
    · rintro ⟨part, rest, parsed, others, rfl⟩
      obtain ⟨formed, rfl⟩ := Segment.of_parse parsed
      obtain ⟨all_formed, rfl⟩ := ih.mp others
      exact ⟨⟨formed, all_formed⟩, rfl⟩
    · rintro ⟨⟨formed, all_formed⟩, rfl⟩
      exact ⟨_, _, Segment.parse_text formed, ih.mpr ⟨all_formed, rfl⟩, rfl⟩

theorem segments_eq_ok_iff_mapM {path : String} {segments : List Segment} :
    Path.segments path = .ok segments ↔ (Text.dotted path).mapM Segment.parse = .ok segments := by
  rw [Path.segments]
  split
  · rename_i empty
    rw [String.isEmpty_iff.mp empty]
    exact ⟨nofun, nofun⟩
  · rfl

/-- A path is read as the segments whose texts are its parts. -/
theorem segments_eq_ok_iff {path : String} {segments : List Segment} :
    Path.segments path = .ok segments ↔
      (∀ s ∈ segments, s.WellFormed) ∧ segments.map Segment.text = Text.dotted path :=
  segments_eq_ok_iff_mapM.trans mapM_parse_eq_ok_iff

theorem kind_of_segments {path : String} {e : MappingError}
    (failed : Path.segments path = .error e) : e.kind = .invalidPath := by
  unfold Path.segments at failed
  split at failed
  · cases failed
    rfl
  · obtain ⟨part, -, part_failed⟩ := exists_of_mapM_eq_error failed
    exact Segment.kind_of_parse part_failed

theorem ne_nil_of_segments {path : String} {segments : List Segment}
    (read : Path.segments path = .ok segments) : segments ≠ [] := by
  rintro rfl
  exact Text.dotted_ne_nil path (segments_eq_ok_iff.mp read).2.symm

theorem isComponent_of_mem {path : String} {segments : List Segment}
    (read : Path.segments path = .ok segments) {s : Segment} (member : s ∈ segments) :
    s.IsComponent := by
  obtain ⟨formed, texts⟩ := segments_eq_ok_iff.mp read
  have part : s.text ∈ Text.dotted path := texts ▸ List.mem_map_of_mem member
  exact ⟨formed s member, Text.hasDot_of_mem_dotted part⟩

private theorem dotted_undotted_texts {hops : List Segment} (components : ∀ s ∈ hops, s.IsComponent)
    {parts : List String} (nonempty : hops.map Segment.text ++ parts ≠ []) :
    Text.dotted (Text.undotted (hops.map Segment.text ++ parts)) =
      hops.map Segment.text ++ parts.flatMap Text.dotted := by
  have texts : (hops.map Segment.text).flatMap Text.dotted = hops.map Segment.text := by
    rw [List.flatMap_map, ← List.flatMap_pure_eq_map]
    exact List.flatMap_congr fun s member =>
      Text.dotted_of_hasDot_eq_false (components s member).undotted
  rw [Text.dotted_undotted nonempty, List.flatMap_append, texts]

theorem segments_undotted {hops : List Segment} (components : ∀ s ∈ hops, s.IsComponent)
    (nonempty : hops ≠ []) : Path.segments (Text.undotted (hops.map Segment.text)) = .ok hops := by
  have some_text : hops.map Segment.text ++ [] ≠ [] := by simpa using nonempty
  have whole := dotted_undotted_texts components some_text
  rw [List.append_nil, List.flatMap_nil, List.append_nil] at whole
  exact segments_eq_ok_iff.mpr ⟨fun s member => (components s member).wellFormed, whole.symm⟩

theorem segments_undotted_append {hops : List Segment} (components : ∀ s ∈ hops, s.IsComponent)
    {parts : List String} (nonempty : parts ≠ []) {segments : List Segment} :
    Path.segments (Text.undotted (hops.map Segment.text ++ parts)) = .ok segments ↔
      ∃ behind, Path.segments (Text.undotted parts) = .ok behind ∧
        hops ++ behind = segments := by
  have front : (hops.map Segment.text).mapM Segment.parse = .ok hops :=
    mapM_parse_eq_ok_iff.mpr ⟨fun s member => (components s member).wellFormed, rfl⟩
  rw [segments_eq_ok_iff_mapM, dotted_undotted_texts components (by simp [nonempty]),
    ← Text.dotted_undotted nonempty, List.mapM_append, front]
  simp only [segments_eq_ok_iff_mapM, bind_eq_ok_iff]
  simp [pure, Except.pure]

@[simp] theorem append_empty (component : String) : append "" component = component := rfl

theorem append_of_ne {base : String} (nonempty : base ≠ "") (component : String) :
    append base component = base ++ "." ++ component := by
  simp [append, nonempty]

/-- A path that grew by a component is cut again in front of it. -/
theorem cutLastDot_append (base : String) {component : String}
    (undotted : Text.hasDot component = false) :
    Text.cutLastDot (append base component) = (base, component) := by
  have last := Text.dotted_of_hasDot_eq_false undotted
  by_cases root : base = ""
  · have parts : Text.dotted component = [] ++ [component] := last
    rw [root, append_empty, Text.cutLastDot_of_dotted parts]
    rfl
  · have parts : Text.dotted (append base component) = Text.dotted base ++ [component] := by
      rw [append_of_ne root, Text.dotted_append_dot, last]
    rw [Text.cutLastDot_of_dotted parts, Text.undotted_dotted]

theorem append_ne {base component : String} (nonempty : component ≠ "") :
    append base component ≠ "" := by
  by_cases root : base = ""
  · rw [root]
    exact nonempty
  · rw [append_of_ne root]
    simp [root]

theorem append_text_inj {base base' : String} {s s' : Segment} (component : s.IsComponent)
    (component' : s'.IsComponent) (same : append base s.text = append base' s'.text) :
    base = base' ∧ s = s' := by
  have cut := congrArg Text.cutLastDot same
  rw [cutLastDot_append _ component.undotted, cutLastDot_append _ component'.undotted] at cut
  obtain ⟨bases, texts⟩ := Prod.mk.inj cut
  exact ⟨bases, component.eq_of_text component' texts⟩

theorem length_lt_append (base : String) {component : String} (nonempty : component ≠ "") :
    base.length < (append base component).length := by
  have grows : 0 < component.length :=
    Nat.pos_of_ne_zero fun none => nonempty (String.length_eq_zero_iff.mp none)
  by_cases root : base = ""
  · rw [root, append_empty]
    exact grows
  · rw [append_of_ne root, String.length_append, String.length_append]
    omega

end Path

end ObjectRelational
