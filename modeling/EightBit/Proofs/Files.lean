/-
# EightBit.Proofs.Files -- the entry a path names

The file name of a path is the name of the entry the path leads to (`fileName?_of_resolve`), so
paths with different file names never lead to one entry.  Hence what is written under one extension
leaves the files under another as they are (`read_of_write_of_ne`).

A path whose extension is changed has the new extension (`extension?_of_renamed?`).
-/
import EightBit.Files.Directory

namespace EightBit

set_option autoImplicit false

/-! ## File names -/

namespace Path

theorem not_mem_of_mem_parts {path part : List Char} (h : part ∈ parts path) : '/' ∉ part := by
  induction path generalizing part with
  | nil =>
    obtain rfl : part = [] := by simpa [parts] using h
    exact List.not_mem_nil
  | cons c rest ih =>
    unfold parts at h
    split at h
    · rcases List.mem_cons.1 h with rfl | later
      · exact List.not_mem_nil
      · exact ih later
    · next inside =>
      cases cut : parts rest with
      | nil =>
        rw [cut, Line.consFirst, List.mem_singleton] at h
        subst h
        simpa using Ne.symm inside
      | cons first others =>
        rw [cut] at h ih
        rcases List.mem_cons.1 h with rfl | later
        · have := ih List.mem_cons_self
          simpa [Ne.symm inside] using this
        · exact ih (List.mem_cons_of_mem _ later)

theorem parts_of_not_mem {path : List Char} (h : '/' ∉ path) : parts path = [path] := by
  induction path with
  | nil => rfl
  | cons c rest ih =>
    rw [List.mem_cons, not_or] at h
    rw [parts, if_neg (Ne.symm h.1), ih h.2]
    rfl

/-- A text that can be the file name of a path. -/
structure IsFileName (name : List Char) : Prop where
  whole : '/' ∉ name
  leads : isIdle name = false
  down : name ≠ up

theorem isFileName_of_fileName? {path name : List Char} (h : fileName? path = some name) :
    IsFileName name := by
  obtain ⟨last, down⟩ := Option.filter_eq_some_iff.1 h
  have member : name ∈ names path := List.mem_of_getLast? last
  obtain ⟨part, leads⟩ := List.mem_filter.1 member
  exact ⟨not_mem_of_mem_parts part, by simpa using leads, by simpa using down⟩

theorem IsFileName.fileName? {name : List Char} (h : IsFileName name) :
    fileName? name = some name := by
  have down := h.down
  simp [Path.fileName?, names, parts_of_not_mem h.whole, h.leads, down]

theorem IsFileName.ne_nil {name : List Char} (h : IsFileName name) : name ≠ [] := by
  rintro rfl
  have := h.leads
  simp [isIdle] at this

/-! ## Extensions -/

theorem splitExtension_append {stem extension : List Char} (h : stem ≠ [])
    (plain : '.' ∉ extension) :
    splitExtension (stem ++ '.' :: extension) = (stem, some extension) := by
  have back : (stem ++ '.' :: extension).reverse = extension.reverse ++ '.' :: stem.reverse := by
    simp
  have before : ∀ c ∈ extension.reverse, (c != '.') = true := by
    intro c member
    rw [bne_iff_ne]
    rintro rfl
    exact plain (List.mem_reverse.1 member)
  have taken : ('.' :: stem.reverse).takeWhile (· != '.') = [] := rfl
  have dropped : ('.' :: stem.reverse).dropWhile (· != '.') = '.' :: stem.reverse := rfl
  simp only [splitExtension, back, List.takeWhile_append_of_pos before,
    List.dropWhile_append_of_pos before, taken, dropped, List.append_nil, List.reverse_reverse]
  split
  · next nothing => cases nothing
  · next alone =>
    rw [List.cons.injEq, List.reverse_eq_nil_iff] at alone
    exact absurd alone.2 h
  · next whole =>
    rw [List.cons.injEq] at whole
    rw [← whole.2, List.reverse_reverse]

theorem stem_ne_nil {name : List Char} (h : name ≠ []) : (splitExtension name).1 ≠ [] := by
  simp only [splitExtension]
  split
  · exact h
  · exact h
  · next several _ =>
    intro none_left
    exact several (List.reverse_eq_nil_iff.1 none_left)

/-- The stem of a name is the start of it. -/
theorem stem_isPrefix (name : List Char) : (splitExtension name).1 <+: name := by
  have joined := joinExtension_splitExtension name
  rcases split : splitExtension name with ⟨stem, _ | extension⟩ <;> rw [split] at joined
  · exact ⟨[], by simpa [joinExtension] using joined⟩
  · exact ⟨'.' :: extension, joined⟩

/-- A file name gives one again when its extension is changed. -/
theorem IsFileName.stem_append {name extension : List Char} (h : IsFileName name)
    (whole : '/' ∉ extension) (some_left : extension ≠ []) :
    IsFileName ((splitExtension name).1 ++ '.' :: extension) := by
  have stem := List.length_pos_iff.2 (stem_ne_nil h.ne_nil)
  have behind := List.length_pos_iff.2 some_left
  have long : 2 < ((splitExtension name).1 ++ '.' :: extension).length := by
    rw [List.length_append, List.length_cons]
    omega
  refine ⟨?_, ?_, ?_⟩
  · intro slash
    rcases List.mem_append.1 slash with front | back
    · exact h.whole ((stem_isPrefix name).subset front)
    · rcases List.mem_cons.1 back with dot | later
      · revert dot
        decide
      · exact whole later
  · rw [isIdle, Bool.or_eq_false_iff, decide_eq_false_iff_not, decide_eq_false_iff_not]
    constructor <;> intro short <;> rw [short] at long <;> revert long <;> decide
  · intro short
    rw [short] at long
    revert long
    decide

theorem extension?_of_renamed? {path extension name : List Char}
    (h : renamed? path extension = some name) (plain : '.' ∉ extension) (whole : '/' ∉ extension)
    (some_left : extension ≠ []) : extension? name = some extension := by
  obtain ⟨old, named, rfl⟩ := Option.map_eq_some_iff.1 h
  have isName := isFileName_of_fileName? named
  rw [extension?, (isName.stem_append whole some_left).fileName?]
  exact congrArg Prod.snd (splitExtension_append (stem_ne_nil isName.ne_nil) plain)

end Path

/-! ## Paths and entries -/

namespace Directory

/-- The entry that parts lead to has the name of the last part that leads anywhere. -/
theorem getLast?_of_follow {d : Directory} {creating : Bool} {start place : Place}
    {parts : List (List Char)} (h : d.follow creating start parts = .ok (.entry place)) :
    ∃ name, (parts.filter fun part => !Path.isIdle part).getLast? = some name ∧ name ≠ Path.up ∧
      place.names.getLast? = some name := by
  induction parts generalizing start with
  | nil => cases h
  | cons part rest ih =>
    simp only [follow] at h
    split at h
    · next idle => simpa [idle] using ih h
    · next leads =>
      -- a part in front of others that lead anywhere is not the last
      have later : ∀ {name}, (rest.filter fun part => !Path.isIdle part).getLast? = some name →
          ((part :: rest).filter fun part => !Path.isIdle part).getLast? = some name := by
        intro name last
        simp [leads, List.getLast?_cons, last]
      split at h
      · obtain ⟨name, last, rest⟩ := ih h
        exact ⟨name, later last, rest⟩
      · next down =>
        split at h
        · cases h
        · split at h
          · cases h
          · split at h
            · next last =>
              obtain rfl : start.child part = place := by simpa using h
              exact ⟨part, by simp [last, leads], down, by simp [Place.child]⟩
            · split at h
              · obtain ⟨name, last, rest⟩ := ih h
                exact ⟨name, later last, rest⟩
              · split at h <;> cases h

/-- The file name of a path is the name of the entry it leads to. -/
theorem fileName?_of_resolve {d : Directory} {creating : Bool} {path : String} {place : Place}
    (h : d.resolve creating path = .ok (.entry place)) :
    Path.fileName? path.toList = place.names.getLast? := by
  have named : ∃ name, (Path.names path.toList).getLast? = some name ∧ name ≠ Path.up ∧
      place.names.getLast? = some name := by
    unfold resolve at h
    split at h
    · cases h
    · split at h
      · cases h
      · next absolute =>
        rw [absolute]
        exact getLast?_of_follow h
      · exact getLast?_of_follow h
  obtain ⟨name, last, down, entry⟩ := named
  rw [Path.fileName?, last, entry]
  simpa using down

/-- What is written to a path leaves the files with other file names as they are. -/
theorem read_of_write_of_ne {d d' : Directory} {path other : String} {contents new : ByteArray}
    (h : d.read path = .ok contents) (written : d.write other new = .ok d')
    (ne : Path.fileName? path.toList ≠ Path.fileName? other.toList) :
    d'.read path = .ok contents := by
  obtain ⟨place, leads, found⟩ := read_eq_ok_iff.1 h
  obtain ⟨place', leads', rfl⟩ := exists_of_write written
  have apart : place ≠ place' := by
    rintro rfl
    exact ne ((fileName?_of_resolve leads).trans (fileName?_of_resolve leads').symm)
  exact read_eq_ok_iff.2
    ⟨place, resolve_put leads place' new, (find?_put_of_ne d apart new).trans found⟩

end Directory

end EightBit
