import Comp310.Fs.SplitPath

/-! The two parts of a path: nothing of it is lost but repeated slashes, and how much room its callers have for them. -/

namespace Comp310.Proofs.PathSplit
open Comp310.Fs Comp310.Lib

variable {path name : CString} {names : List CString}

/-- The slash that a path starts with. -/
def lead (path : CString) : CString := if path.head? = some 47 then [47] else []

/-- Names with a slash between them, as the two parts have them. -/
def joined (names : List CString) : CString := names.dropLast.flatMap (· ++ [47]) ++ names.getLast?.getD []

private theorem joined_cons (name : CString) (names : List CString) :
    joined (name :: names) = name ++ if names = [] then [] else 47 :: joined names := by
  cases names with
  | nil => simp [joined]
  | cons next rest => simp [joined, List.dropLast_cons_cons]

private theorem runs_iff : Runs 47 path names ↔ tokens path = names := by
  rw [tokens_eq]
  constructor
  · exact Runs.fields_eq
  · rintro rfl
    exact runs_fields 47 path

private theorem joined_sublist (runs : Runs 47 path names) : (lead path ++ joined names).Sublist path := by
  have lead_sublist (text : CString) : (lead text).Sublist text := by
    unfold lead
    split
    next first =>
      obtain ⟨rest, rfl⟩ := List.head?_eq_some_iff.mp first
      exact (List.nil_sublist rest).cons_cons 47
    next => exact List.nil_sublist text
  induction runs with
  | done only => simpa [joined] using lead_sublist _
  | @part before run rest parts only nonempty absent ends later ih =>
    have same : lead (before ++ run ++ rest) = lead before := by
      cases before with
      | cons b more => rfl
      | nil =>
        obtain ⟨c, more, rfl⟩ := List.exists_cons_of_ne_nil nonempty
        have other : c ≠ 47 := fun slash => absent (slash ▸ List.mem_cons_self)
        unfold lead
        rw [if_neg (by simpa using other), if_neg (by simp)]
    have behind : (if parts = [] then [] else 47 :: joined parts).Sublist rest := by
      split
      next => exact List.nil_sublist rest
      next more =>
        rcases ends with rfl | slash
        · exact absurd later.fields_eq.symm (by rw [fields_nil]; exact more)
        · rwa [lead, if_pos slash] at ih
    rw [same, joined_cons, ← List.append_assoc]
    exact ((lead_sublist before).append (List.Sublist.refl run)).append behind

private theorem parts_eq (path : CString) :
    (splitPathFilename path).1 = lead path ++ (tokens path).dropLast.flatMap (· ++ [47]) ∧
      (splitPathFilename path).2 = (tokens path).getLast?.getD [] := ⟨rfl, rfl⟩

private theorem parts_joined (path : CString) :
    (splitPathFilename path).1 ++ (splitPathFilename path).2 = lead path ++ joined (tokens path) := by
  rw [(parts_eq path).1, (parts_eq path).2, joined, List.append_assoc]

private theorem parts_sublist (path : CString) : ((splitPathFilename path).1 ++ (splitPathFilename path).2).Sublist path := by
  rw [parts_joined]
  exact joined_sublist (runs_iff.mpr rfl)

private theorem parts_cases (path : CString) : (tokens path = [] ∧ (splitPathFilename path).2 = []) ∨
    ∃ front, tokens path = front ++ [(splitPathFilename path).2] ∧ (splitPathFilename path).2 ≠ [] ∧ 47 ∉ (splitPathFilename path).2 := by
  rw [(parts_eq path).2]
  rcases List.eq_nil_or_concat (tokens path) with empty | ⟨front, name, split⟩
  · exact .inl ⟨empty, by rw [empty]; rfl⟩
  · rw [List.concat_eq_append] at split
    obtain ⟨nonempty, noSlash, _⟩ := tokens_parts (show name ∈ tokens path by rw [split]; exact List.mem_append_right _ (List.mem_singleton_self name))
    rw [split, List.getLast?_concat, Option.getD_some]
    exact .inr ⟨front, rfl, nonempty, noSlash⟩

private theorem directory_end (path : CString) : (splitPathFilename path).1 = [] ∨ ∃ front, (splitPathFilename path).1 = front ++ [47] := by
  rw [(parts_eq path).1]
  rcases List.eq_nil_or_concat (tokens path).dropLast with empty | ⟨before, last, split⟩
  · rw [empty, List.flatMap_nil, List.append_nil]
    unfold lead
    split
    · exact .inr ⟨[], rfl⟩
    · exact .inl rfl
  · refine .inr ⟨lead path ++ before.flatMap (· ++ [47]) ++ last, ?_⟩
    rw [split, List.concat_eq_append, List.flatMap_append]
    simp

private theorem tokens_both (path : CString) : tokens (splitPathFilename path).1 ++ tokens (splitPathFilename path).2 = tokens path := by
  rw [tokens_directory]
  rcases parts_cases path with ⟨empty, last⟩ | ⟨front, split, nonempty, noSlash⟩
  · rw [empty, last]
    rfl
  · rw [tokens_single nonempty noSlash, split, List.dropLast_concat]

private theorem tokens_whole (path : CString) : tokens ((splitPathFilename path).1 ++ (splitPathFilename path).2) = tokens path := by
  rw [← tokens_both path]
  rcases directory_end path with empty | ⟨front, slash⟩
  · rw [empty]
    rfl
  · have before : tokens (front ++ [47]) = tokens front := by
      rw [tokens_slash]
      exact List.append_nil _
    rw [slash, before, List.append_assoc, List.singleton_append, tokens_slash]

private theorem lead_whole (path : CString) : lead ((splitPathFilename path).1 ++ (splitPathFilename path).2) = lead path := by
  rw [parts_joined]
  by_cases absolute : path.head? = some 47
  · have slash : lead path = [47] := if_pos absolute
    rw [slash]
    rfl
  · have relative : lead path = [] := if_neg absolute
    rw [relative, List.nil_append]
    cases names : tokens path with
    | nil => rfl
    | cons name rest =>
      obtain ⟨nonempty, noSlash, _⟩ := tokens_parts (show name ∈ tokens path by rw [names]; exact List.mem_cons_self)
      obtain ⟨c, more, rfl⟩ := List.exists_cons_of_ne_nil nonempty
      have other : c ≠ 47 := fun slash => noSlash (slash ▸ List.mem_cons_self)
      rw [joined_cons, List.cons_append, lead, List.head?_cons, if_neg (by simpa using other)]

private theorem lead_iff : lead path = [47] ↔ path.head? = some 47 := by
  unfold lead
  split
  next absolute => exact iff_of_true rfl absolute
  next relative => exact iff_of_false nofun relative

private theorem lead_directory (path : CString) : lead (splitPathFilename path).1 = lead path := by
  have whole := lead_whole path
  cases directory : (splitPathFilename path).1 with
  | nil =>
    rw [(parts_eq path).1] at directory
    rw [(List.append_eq_nil_iff.mp directory).1]
    rfl
  | cons c rest =>
    rw [directory] at whole
    exact whole

/-- For the components c1..ck of a path the file name is ck and the directory the others, each with a slash behind it, after
the slash of an absolute path. So the parts have the components of the path, and split into themselves. -/
theorem split_lossless (runs : Runs 47 path names) : ∃ directory fileName,
    splitInto path = (directory ++ [0], fileName ++ [0]) ∧ (0 ∉ path → 0 ∉ directory ∧ 0 ∉ fileName) ∧
    directory = (if path.head? = some 47 then [47] else []) ++ names.dropLast.flatMap (· ++ [47]) ∧
    fileName = names.getLast?.getD [] ∧
    (∃ front last, Runs 47 directory front ∧ Runs 47 fileName last ∧ front ++ last = names) ∧
    (directory.head? = some 47 ↔ path.head? = some 47) ∧
    splitInto (directory ++ fileName) = splitInto path := by
  obtain rfl := runs_iff.mp runs
  refine ⟨_, _, splitInto_eq path, fun noNul => ?_, rfl, rfl, ⟨_, _, runs_iff.mpr rfl, runs_iff.mpr rfl, tokens_both path⟩, ?_, ?_⟩
  · have within := (parts_sublist path).subset
    exact ⟨fun nul => noNul (within (List.mem_append_left _ nul)), fun nul => noNul (within (List.mem_append_right _ nul))⟩
  · rw [← lead_iff, ← lead_iff, lead_directory]
  · have parts := parts_eq ((splitPathFilename path).1 ++ (splitPathFilename path).2)
    rw [tokens_whole, lead_whole] at parts
    rw [splitInto_eq, splitInto_eq, parts.1, parts.2]
    rfl

theorem split_lossless_slashes : splitInto [47, 47, 97, 47, 47, 98, 47] = ([47, 97, 47, 0], [98, 0]) := by
  have runs : Runs 47 ([47, 47, 97, 47, 47, 98, 47] : CString) [[97], [98]] := runs_iff.mpr (by decide)
  obtain ⟨directory, fileName, split, _, rfl, rfl, _⟩ := split_lossless runs
  exact split

section Buffers

/-- The functions that split a path into buffers of their own. -/
inductive Splitter where
  | filesysCreate
  | filesysOpen
  | filesysRemove

/-- The size that each declares both buffers with. -/
def bufferSize : Splitter → CString → Nat
  | .filesysCreate, path => path.length
  | .filesysOpen, name => name.length + 1
  | .filesysRemove, name => name.length

/-- No byte is stored behind the end of a buffer. -/
def Suffice (splitter : Splitter) (path : CString) : Prop :=
  (splitInto path).1.length ≤ bufferSize splitter path ∧ (splitInto path).2.length ≤ bufferSize splitter path

private theorem suffice_iff {splitter : Splitter} : Suffice splitter path ↔
    (splitPathFilename path).1.length + 1 ≤ bufferSize splitter path ∧ (splitPathFilename path).2.length + 1 ≤ bufferSize splitter path := by
  rw [Suffice, splitInto_eq, List.length_append, List.length_append, List.length_singleton]

private theorem parts_shorter (nonempty : path ≠ []) :
    ((splitPathFilename path).1.length < path.length ∧ (splitPathFilename path).2.length < path.length) ↔ 47 ∈ path ∧ path ≠ [47] := by
  have sublist := parts_sublist path
  have both := sublist.length_le
  rw [List.length_append] at both
  have long := List.length_pos_iff.mpr nonempty
  constructor
  · rintro ⟨directory, fileName⟩
    refine ⟨?_, ?_⟩
    · by_contra noSlash
      rw [(parts_eq path).2, tokens_single nonempty noSlash] at fileName
      exact Nat.lt_irrefl _ fileName
    · rintro rfl
      exact absurd directory (by decide)
  · rintro ⟨slash, more⟩
    rcases parts_cases path with ⟨empty, last⟩ | ⟨front, _, some, noSlash⟩
    · -- slashes alone, at least two of them
      have two : 2 ≤ path.length := by
        by_contra short
        obtain ⟨c, rfl⟩ := List.length_eq_one_iff.mp (show path.length = 1 by omega)
        rw [← List.mem_singleton.mp slash] at more
        exact more rfl
      have directory : (splitPathFilename path).1.length ≤ 1 := by
        rw [(parts_eq path).1, empty, List.dropLast_nil, List.flatMap_nil, List.append_nil, lead]
        split
        · exact Nat.le_refl 1
        · exact Nat.zero_le 1
      rw [last, List.length_nil]
      omega
    · have some := List.length_pos_iff.mpr some
      have less : (splitPathFilename path).2.length ≠ path.length := by
        intro same
        have whole := ((List.sublist_append_right _ _).trans sublist).eq_of_length same
        rw [whole] at noSlash
        exact noSlash slash
      omega

/-- The buffers of filesys_open always suffice; those of the others, which have no room for the NUL, just where the path has
a slash and is not the slash alone. -/
theorem buffers_suffice_iff (splitter : Splitter) (nonempty : path ≠ []) :
    Suffice splitter path ↔ splitter = .filesysOpen ∨ 47 ∈ path ∧ path ≠ [47] := by
  have both := (parts_sublist path).length_le
  rw [List.length_append] at both
  rw [suffice_iff, ← parts_shorter nonempty]
  cases splitter with
  | filesysCreate => exact (or_iff_right nofun).symm
  | filesysOpen =>
    have size : bufferSize .filesysOpen path = path.length + 1 := rfl
    exact iff_of_true (by omega) (.inl rfl)
  | filesysRemove => exact (or_iff_right nofun).symm

theorem buffers_suffice_slash : Suffice .filesysCreate [47, 97] :=
  (buffers_suffice_iff .filesysCreate (show [47, 97] ≠ [] by decide)).mpr (.inr ⟨by decide, by decide⟩)

/-- A name of one letter needs two bytes, and has one. -/
theorem name_overflows : splitInto [97] = ([0], [97, 0]) ∧ bufferSize .filesysCreate [97] = 1 ∧ ¬ Suffice .filesysCreate [97] := by
  have split : splitInto [97] = ([0], [97, 0]) := splitInto_eq [97]
  refine ⟨split, rfl, ?_⟩
  rw [Suffice, split]
  decide

end Buffers

end Comp310.Proofs.PathSplit
