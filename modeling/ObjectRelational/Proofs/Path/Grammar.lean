import ObjectRelational.Proofs.Data.List
import ObjectRelational.Proofs.Path.Segment

set_option autoImplicit false
set_option relaxedAutoImplicit false

/-!
The grammar of segments and paths, said without a reader: which texts are segments, and which
paths are made of them. Reading accepts what the grammar derives, in the one way in which it is
derived, writing gives the text back, and everything else breaks the syntax.
-/

namespace ObjectRelational

namespace Segment

/-- A text with at least one character and neither of the two marks. -/
def IsBare (text : String) : Prop := text ≠ "" ∧ '#' ∉ text.toList ∧ '+' ∉ text.toList

instance (text : String) : Decidable (IsBare text) := inferInstanceAs (Decidable (_ ∧ _))

private theorem isPlain_iff_isBare {text : String} : IsPlain text ↔ IsBare text := by
  rw [IsPlain, hasMark_eq_false_iff, IsBare, and_comm (a := outerMark ∉ _)]
  rfl

/-- The four forms of a segment, with what each stands for. -/
inductive Spells : String → Segment → Prop
  | name {name : String} : IsBare name → Spells name { name }
  | aliased {name aliasName : String} : IsBare name → IsBare aliasName →
      Spells (name ++ "#" ++ aliasName) { name, aliasName := some aliasName }
  | outer {name : String} : IsBare name → Spells (name ++ "+") { name, outer := true }
  | aliasedOuter {name aliasName : String} : IsBare name → IsBare aliasName →
      Spells (name ++ "#" ++ aliasName ++ "+")
        { name, aliasName := some aliasName, outer := true }

private theorem wellFormed_iff_isBare {s : Segment} :
    s.WellFormed ↔ IsBare s.name ∧ ∀ a, s.aliasName = some a → IsBare a := by
  simp only [← isPlain_iff_isBare]
  exact ⟨fun h => ⟨h.name, h.aliasName⟩, fun h => ⟨h.1, h.2⟩⟩

private theorem spells_iff {raw : String} {s : Segment} :
    Spells raw s ↔ s.WellFormed ∧ s.text = raw := by
  rw [wellFormed_iff_isBare]
  constructor
  · intro spelled
    cases spelled with
    | name bare => exact ⟨⟨bare, by simp⟩, by simp [text]⟩
    | aliased bare alias_bare =>
      refine ⟨⟨bare, ?_⟩, by simp [text, aliasMark, String.append_assoc]⟩
      rintro a same
      obtain rfl := Option.some.inj same
      exact alias_bare
    | outer bare => exact ⟨⟨bare, by simp⟩, by simp [text, outerMark]⟩
    | aliasedOuter bare alias_bare =>
      refine ⟨⟨bare, ?_⟩, by simp [text, aliasMark, outerMark, String.append_assoc]⟩
      rintro a same
      obtain rfl := Option.some.inj same
      exact alias_bare
  · rintro ⟨⟨bare, alias_bare⟩, rfl⟩
    obtain ⟨name, aliasName, outer⟩ := s
    cases aliasName with
    | none =>
      cases outer with
      | false => simpa [text] using Spells.name bare
      | true => simpa [text, outerMark] using Spells.outer bare
    | some a =>
      have aliased_bare : IsBare a := alias_bare a rfl
      cases outer with
      | false =>
        simpa [text, aliasMark, String.append_assoc] using Spells.aliased bare aliased_bare
      | true =>
        simpa [text, aliasMark, outerMark, String.append_assoc] using
          Spells.aliasedOuter bare aliased_bare

private theorem parse_eq_ok_iff_spells {raw : String} {s : Segment} :
    parse raw = .ok s ↔ Spells raw s := parse_eq_ok_iff.trans spells_iff.symm

namespace Spells

variable {raw : String} {s t : Segment}

private theorem unique (h : Spells raw s) (h' : Spells raw t) : s = t := by
  have same := (parse_eq_ok_iff_spells.mpr h).symm.trans (parse_eq_ok_iff_spells.mpr h')
  exact Except.ok.inj same

private theorem text_eq (h : Spells raw s) : s.text = raw := (spells_iff.mp h).2

private theorem of_isBare (bare : IsBare s.name)
    (alias_bare : ∀ a, s.aliasName = some a → IsBare a) :
    Spells s.text s := spells_iff.mpr ⟨wellFormed_iff_isBare.mpr ⟨bare, alias_bare⟩, rfl⟩

end Spells

private theorem exists_parse_error_iff {raw : String} :
    (∃ e, parse raw = .error e ∧ e.kind = .invalidPath) ↔ ¬ ∃ s, Spells raw s := by
  simp only [← parse_eq_ok_iff_spells]
  cases read : parse raw with
  | ok s => exact iff_of_false nofun fun none => none ⟨s, rfl⟩
  | error e => exact iff_of_true ⟨e, rfl, kind_of_parse read⟩ nofun

end Segment

private theorem Text.dotted_eq_iff {text : String} {parts : List String} :
    Text.dotted text = parts ↔
      parts ≠ [] ∧ (∀ part ∈ parts, '.' ∉ part.toList) ∧ ".".intercalate parts = text := by
  constructor
  · rintro rfl
    refine ⟨Text.dotted_ne_nil text, fun part member => ?_, Text.undotted_dotted text⟩
    exact (Text.hasDot_eq_false_iff part).mp (Text.hasDot_of_mem_dotted member)
  · rintro ⟨nonempty, plain, rfl⟩
    refine Text.dotted_undotted_of_plain nonempty fun part member => ?_
    exact (Text.hasDot_eq_false_iff part).mpr (plain part member)

namespace Path

open Segment

/-- A path is not empty, and each of its components is a segment. -/
structure Spells (path : String) (segments : List Segment) : Prop where
  ne_empty : path ≠ ""
  components : List.Forall₂ Segment.Spells (Text.dotted path) segments

theorem segments_eq_ok_iff_spells {path : String} {segments : List Segment} :
    Path.segments path = .ok segments ↔ Spells path segments := by
  have each : (Text.dotted path).mapM parse = .ok segments ↔
      List.Forall₂ Segment.Spells (Text.dotted path) segments := by
    simp only [mapM_ok_iff_forall₂, parse_eq_ok_iff_spells]
  constructor
  · intro read
    refine ⟨?_, each.mp (segments_eq_ok_iff_mapM.mp read)⟩
    rintro rfl
    cases read
  · intro spelled
    exact segments_eq_ok_iff_mapM.mpr (each.mpr spelled.components)

private theorem exists_spells_iff {path : String} :
    (∃ segments, Spells path segments) ↔
      path ≠ "" ∧ ∀ part ∈ Text.dotted path, ∃ s, Segment.Spells part s := by
  constructor
  · rintro ⟨segments, ne_empty, components⟩
    refine ⟨ne_empty, fun part member => ?_⟩
    obtain ⟨s, -, spelled⟩ := exists_right_of_forall₂ components member
    exact ⟨s, spelled⟩
  · rintro ⟨ne_empty, each⟩
    have : Nonempty Segment := ⟨{ name := "" }⟩
    choose! segment spelled using each
    refine ⟨(Text.dotted path).map segment, ne_empty, ?_⟩
    exact List.forall₂_map_right_iff.mpr (List.forall₂_same.mpr spelled)

/-- Each component is spelled as a segment. -/
def IsReadable (path : String) : Prop :=
  ∀ part ∈ Text.dotted path, ∃ s, Segment.Spells part s

theorem isReadable_iff {path : String} :
    IsReadable path ↔ ∃ segments, Spells path segments := by
  rw [exists_spells_iff, IsReadable]
  refine ⟨fun readable => ⟨?_, readable⟩, fun h => h.2⟩
  -- the empty path need not be excluded, as its one component is no segment
  rintro rfl
  obtain ⟨s, spelled⟩ := readable "" (by decide)
  exact (spells_iff.mp spelled).1.text_ne spelled.text_eq

private theorem exists_segments_error_iff {path : String} :
    (∃ e, Path.segments path = .error e ∧ e.kind = .invalidPath) ↔
      ¬ ∃ segments, Spells path segments := by
  simp only [← segments_eq_ok_iff_spells]
  cases read : Path.segments path with
  | ok segments => exact iff_of_false nofun fun none => none ⟨segments, rfl⟩
  | error e => exact iff_of_true ⟨e, rfl, kind_of_segments read⟩ nofun

private theorem intercalate_text_of_segments {path : String} {segments : List Segment}
    (read : Path.segments path = .ok segments) :
    ".".intercalate (segments.map Segment.text) = path := by
  rw [(segments_eq_ok_iff.mp read).2]
  exact Text.undotted_dotted path

/-- Segments are read as the grammar spells them, and paths component by component. Nothing is
spelled in two ways, what was read is written as it stood, what is made of bare parts is read back
from its text, and every other text breaks the syntax of paths. -/
theorem read_as_spelled :
    (∀ raw s, parse raw = .ok s ↔ Segment.Spells raw s) ∧
      (∀ raw s t, Segment.Spells raw s → Segment.Spells raw t → s = t) ∧
      (∀ raw s, parse raw = .ok s → s.text = raw) ∧
      (∀ s : Segment, IsBare s.name → (∀ a, s.aliasName = some a → IsBare a) →
        Segment.Spells s.text s ∧ parse s.text = .ok s) ∧
      (∀ raw, (∃ e, parse raw = .error e ∧ e.kind = .invalidPath) ↔
        ¬ ∃ s, Segment.Spells raw s) ∧
      (∀ path parts, Text.dotted path = parts ↔ parts ≠ [] ∧
        (∀ part ∈ parts, '.' ∉ part.toList) ∧ ".".intercalate parts = path) ∧
      (∀ path segments, Path.segments path = .ok segments ↔
        path ≠ "" ∧ List.Forall₂ Segment.Spells (Text.dotted path) segments) ∧
      (∀ path, (∃ segments, Path.segments path = .ok segments) ↔
        path ≠ "" ∧ ∀ part ∈ Text.dotted path, ∃ s, Segment.Spells part s) ∧
      (∀ path segments, Path.segments path = .ok segments →
        ".".intercalate (segments.map Segment.text) = path) ∧
      ∀ path, (∃ e, Path.segments path = .error e ∧ e.kind = .invalidPath) ↔
        ¬ (path ≠ "" ∧ ∀ part ∈ Text.dotted path, ∃ s, Segment.Spells part s) := by
  refine ⟨fun _ _ => parse_eq_ok_iff_spells, fun _ _ _ => Segment.Spells.unique,
    fun _ _ read => (parse_eq_ok_iff_spells.mp read).text_eq, fun s bare alias_bare => ?_,
    fun _ => exists_parse_error_iff, fun _ _ => Text.dotted_eq_iff, fun path segments => ?_,
    fun path => ?_, fun _ _ => intercalate_text_of_segments, fun path => ?_⟩
  · have spelled := Segment.Spells.of_isBare bare alias_bare
    exact ⟨spelled, parse_eq_ok_iff_spells.mpr spelled⟩
  · exact segments_eq_ok_iff_spells.trans ⟨fun h => ⟨h.1, h.2⟩, fun h => ⟨h.1, h.2⟩⟩
  · simp only [segments_eq_ok_iff_spells]
    exact exists_spells_iff
  · rw [exists_segments_error_iff, exists_spells_iff]

theorem read_as_spelled_outer :
    let s : Segment := { name := "toArtist", aliasName := some "p", outer := true }
    IsBare s.name ∧ Segment.Spells s.text s ∧ parse s.text = .ok s ∧
      (∃ e, parse "a+#b" = .error e ∧ e.kind = .invalidPath) := by
  intro s
  obtain ⟨-, -, -, written, broken, -⟩ := read_as_spelled
  have bare : IsBare s.name := by decide
  have alias_bare : ∀ a, s.aliasName = some a → IsBare a := by
    rintro a same
    obtain rfl := Option.some.inj same
    decide
  refine ⟨bare, (written s bare alias_bare).1, (written s bare alias_bare).2, ?_⟩
  rw [broken]
  simp only [← parse_eq_ok_iff_spells]
  nofun

end Path

end ObjectRelational
