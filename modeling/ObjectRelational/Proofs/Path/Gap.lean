import ObjectRelational.Proofs.Path.IdPath
import ObjectRelational.Proofs.Path.Segment

set_option autoImplicit false
set_option relaxedAutoImplicit false

/-!
Paths with gaps: nothing stands in front of a dot, behind it, or between two of them. No such path
can be read, but an id path is cut at its last dot before it is read. So a gap in front of an own
column is passed over, and behind a relationship it is taken for a name.
-/

namespace ObjectRelational

namespace Path

/-- A component is empty. -/
def HasGap (path : String) : Prop := "" ∈ Text.dotted path

instance (path : String) : Decidable (HasGap path) := inferInstanceAs (Decidable (_ ∈ _))

private theorem exists_error_of_gap {path : String} (gap : HasGap path) :
    ∃ e, Path.segments path = .error e ∧ e.kind = .invalidPath := by
  cases read : Path.segments path with
  | error e => exact ⟨e, rfl, kind_of_segments read⟩
  | ok segments =>
    obtain ⟨formed, texts⟩ := segments_eq_ok_iff.mp read
    rw [HasGap, ← texts] at gap
    obtain ⟨s, member, empty⟩ := List.mem_map.mp gap
    exact absurd empty (formed s member).text_ne

private theorem gap_cases {path front name : String} (gap : HasGap path)
    (cut : Text.cutLastDot path = (front, name)) :
    front = "" ∧ name = "" ∨ front = "" ∧ name ≠ "" ∧ path = "." ++ name ∨
      front ≠ "" ∧ HasGap front ∨
      front ≠ "" ∧ ¬ HasGap front ∧ name = "" ∧ path = front ++ "." := by
  obtain ⟨parts, last, dotted, cut'⟩ := Text.exists_cutLastDot path
  obtain ⟨rfl, rfl⟩ := Prod.mk.inj (cut.symm.trans cut')
  have whole : parts ≠ [] → path = Text.undotted parts ++ "." ++ name :=
    Text.eq_append_of_dotted dotted
  rw [HasGap, dotted, List.mem_append, List.mem_singleton] at gap
  rcases Text.front_cases dotted with rfl | rfl | ⟨filled, rejoined⟩
  · left
    simpa [Text.undotted] using gap.symm
  · by_cases empty : name = ""
    · exact .inl ⟨rfl, empty⟩
    · exact .inr (.inl ⟨rfl, empty, whole (List.cons_ne_nil _ _)⟩)
  · right; right
    have more : parts ≠ [] := by
      rintro rfl
      exact filled rfl
    by_cases inside : HasGap (Text.undotted parts)
    · exact .inl ⟨filled, inside⟩
    · right
      rw [HasGap, rejoined] at inside
      have empty : name = "" := (gap.resolve_left inside).symm
      refine ⟨filled, ?_, empty, ?_⟩
      · rwa [HasGap, rejoined]
      · rw [whole more, empty, String.append_empty]

end Path

def Lookup.path : Lookup → String
  | .object l => l.path
  | .table l => l.path

def Request.path : Request → String
  | .object _ path _ => path
  | .table _ path _ _ => path
  | .id _ path => path

private theorem Catalog.exists_error_of_gap (c : Catalog) {l : Lookup} (gap : Path.HasGap l.path) :
    ∃ e, c.found l = .error e ∧ e.kind = .invalidPath := by
  obtain ⟨e, failed, kind⟩ := Path.exists_error_of_gap gap
  refine ⟨e, ?_, kind⟩
  rw [found, map_eq_error_iff]
  cases l with
  | object l =>
    have read : Path.segments l.path = .error e := failed
    simp only [follow, resolve, resolveObjectPath, read]
    rfl
  | table l =>
    have read : Path.segments l.path = .error e := failed
    simp only [follow, resolveTablePath, extendRoute, read]
    rfl

namespace Navigator

variable {n : Navigator}

private theorem Accounted.look_of_gap {c : Catalog} {asked : List Lookup} (h : n.Accounted c asked)
    {l : Lookup} (gap : Path.HasGap l.path)
    (alike : ∀ f ∈ asked, f.slot = l.slot → Path.HasGap f.path) :
    ∃ e, (n.look l).1 = .error e ∧ e.kind = .invalidPath := by
  rw [(h.look l).1, Catalog.recalled]
  apply c.exists_error_of_gap
  cases found : Lookup.first? asked l with
  | none => exact gap
  | some first => exact alike first (List.mem_of_find?_eq_some found) (Lookup.slot_of_first? found)

/-- A request for a path with a gap breaks the syntax, unless its look-up shares a key with one of
a path without a gap. The other exceptions are id paths: one dot in front of a column of the own
table is passed over, and a dot behind relationships asks for a column without a name. -/
theorem ask_of_gap (c : Catalog) (history : List Request) (q : Request)
    (gap : Path.HasGap q.path)
    (alike : ∀ l, q.look? = some l → Path.HasGap l.path →
      ∀ f ∈ lookups history, f.slot = l.slot → Path.HasGap f.path) :
    let n := (start c).askAll history
    let answer := (n.ask q).1
    (∃ e, answer = .error e ∧ e.kind = .invalidPath) ∨
    (∃ object name, q = .id object ("." ++ name) ∧ name ≠ "" ∧ Text.hasDot name = false ∧
      ∀ d, answer = .ok d ↔ (n.idPath object name).1 = .ok d) ∨
    ∃ object front, q = .id object (front ++ ".") ∧ ¬ Path.HasGap front ∧
      ∀ d, answer = .ok d ↔ ∃ place table, n.IdEnd object front place table ∧
        ∃ column, table.column? "" = some column ∧ ⟨place, .id column⟩ = d := by
  intro n answer
  have accounted : n.Accounted c (lookups history) := accounted_askAll c history
  cases q with
  | object object path parent =>
    let l : Lookup := .object ⟨object, path, parent⟩
    exact .inl (accounted.look_of_gap (l := l) gap (alike l rfl gap))
  | table table path parent forced =>
    let l : Lookup := .table ⟨table, path, parent, forced⟩
    exact .inl (accounted.look_of_gap (l := l) gap (alike l rfl gap))
  | id object path =>
    -- only the front is looked up, and so only a gap in it breaks the syntax
    have asked : answer = (n.idPath object path).1 := rfl
    rcases cut : Text.cutLastDot path with ⟨front, name⟩
    rcases Path.gap_cases gap cut with ⟨rfl, rfl⟩ | ⟨rfl, named, rfl⟩ | ⟨through, inside⟩ |
      ⟨through, filled, rfl, rfl⟩
    · left
      refine ⟨.emptyIdPath, ?_, rfl⟩
      rw [asked, idPath, cut]
      rfl
    · right; left
      have plain : Text.hasDot name = false := by
        simpa [cut] using Text.hasDot_cutLastDot_snd ("." ++ name)
      have alone : Text.cutLastDot name = ("", name) := Path.cutLastDot_append "" plain
      refine ⟨object, name, rfl, named, plain, fun d => ?_⟩
      rw [asked, idPath_eq_ok_iff, idPath_eq_ok_iff, cut, alone]
    · left
      let l : Lookup := .object ⟨object, front, none⟩
      have looked : (Request.id object path).look? = some l := by
        simp [Request.look?, cut, String.isEmpty_iff, through, l]
      obtain ⟨e, led, kind⟩ := accounted.look_of_gap (l := l) inside (alike l looked inside)
      refine ⟨e, ?_, kind⟩
      rw [asked, idPath_fst_of_error cut through led]
    · right; right
      refine ⟨object, front, rfl, filled, fun d => ?_⟩
      rw [asked, idPath_eq_ok_iff, cut]
      simp [through]

open Gallery

theorem ask_of_gap_inside :
    let history := [Request.object artist "paintings." none, .object artist "paintings" none]
    let q := Request.id artist "paintings..artistName"
    Path.HasGap q.path ∧
      (∀ l, q.look? = some l → Path.HasGap l.path →
        ∀ f ∈ lookups history, f.slot = l.slot → Path.HasGap f.path) ∧
      ∃ e, (((start schema).askAll history).ask q).1 = .error e ∧ e.kind = .invalidPath := by
  intro history q
  have gap : Path.HasGap q.path := by decide +kernel
  have looks : q.look? = some (.object ⟨artist, "paintings.", none⟩) := by decide +kernel
  have alike : ∀ l, q.look? = some l → Path.HasGap l.path →
      ∀ f ∈ lookups history, f.slot = l.slot → Path.HasGap f.path := by
    intro l looked _
    obtain rfl := Option.some.inj (looks.symm.trans looked)
    decide +kernel
  refine ⟨gap, alike, ?_⟩
  rcases ask_of_gap schema history q gap alike with failed | ⟨object, name, same, -⟩ |
    ⟨object, front, same, -⟩
  · exact failed
  · have first := congrArg (·.path.toList.head?) same
    simp [q, Request.path] at first
  · have last := congrArg (·.path.toList.getLast?) same
    simp [q, Request.path] at last

/-- Paths with gaps that do not break the syntax: in front of an own column, behind a relationship,
and under a key that is known for a path without a gap. -/
theorem ask_of_gap_answered :
    Path.HasGap ".PAINTING_ID" ∧ Path.HasGap "toArtist." ∧ Path.HasGap ".Artist.artistName" ∧
      (∃ d, ((start schema).ask (.id painting ".PAINTING_ID")).1 = .ok d) ∧
      ((start schema).ask (.id painting "toArtist.")).1 = .error (.noSuchKey "toArtist.") ∧
      let n := (start schema).askAll [.object artist "artistName" (some "owner.Artist.")]
      ∃ d, (n.ask (.object artist ".Artist.artistName" (some "owner"))).1 = .ok d :=
  ⟨by decide +kernel, by decide +kernel, by decide +kernel, ⟨_, rfl⟩, rfl, _, rfl⟩

end Navigator

end ObjectRelational
