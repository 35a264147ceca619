import Comp310.Fs.Slots

/-! The names of the file system. All files are in the root directory, and what
is live is the free map file, the root directory and what has a name in it. -/

namespace Comp310.Fs
open Comp310.Lib

/-- A name of one component that is neither `.` nor `..`. -/
structure PlainName (name : CString) : Prop where
  nonempty : name ≠ []
  noNul : 0 ∉ name
  noSlash : 47 ∉ name
  notDot : name ≠ [46]
  notDotDot : name ≠ [46, 46]

/-- The root directory has an entry in use with this name and sector. -/
def Named (fs : FileSystem) (name : CString) (sector : Sector) : Prop :=
  ∃ i e, 1 ≤ i ∧ (slots fs)[i]? = some e ∧ e.inUse = true ∧ e.fname = name ∧ e.inodeSector = sector

def Live (fs : FileSystem) (sector : Sector) : Prop := sector = 0 ∨ sector = 1 ∨ ∃ name, Named fs name sector

/-- The root directory: whole entries, the first for the parent, the others with
plain names and sectors of their own. -/
structure Root (fs : FileSystem) : Prop where
  whole : (curData fs 1).length % 36 = 0
  parent : ∃ e, (slots fs)[0]? = some e ∧ e.inUse = true ∧ e.inodeSector = 1
  unique : ∀ i j e f, 1 ≤ i → 1 ≤ j → (slots fs)[i]? = some e → (slots fs)[j]? = some f → e.inUse = true → f.inUse = true →
    e.fname = f.fname ∨ e.inodeSector = f.inodeSector → i = j
  plain : ∀ name sector, Named fs name sector → PlainName name ∧ name.length ≤ 30 ∧ sector ≠ 0 ∧ sector ≠ 1
  regular : ∀ name sector, Named fs name sector → (curData fs sector).isDir = 0

/-- The file system between two operations, or while the root directory is open. -/
structure Volume (fs : FileSystem) (tidy : Prop := True) : Prop where
  objects : Objects (Live fs) fs tidy
  root : Root fs

variable {fs fs' : FileSystem} {name name' : CString} {sector sector' : Sector} {e : DirEntry} {j : Nat}

section Paths

theorem PlainName.tokens (plain : PlainName name) : tokens name = [name] := by
  have split : name.splitOn 47 = [name] := List.splitOnP_eq_singleton fun x member => by
    rw [beq_eq_false_iff_ne]
    rintro rfl
    exact plain.noSlash member
  rw [Fs.tokens, split]
  simp [plain.nonempty]

theorem PlainName.split (plain : PlainName name) : splitPathFilename name = ([], name) := by
  have relative : name.head? ≠ some 47 := by
    intro head
    exact plain.noSlash (List.mem_of_head? head)
  rw [splitPathFilename, if_neg relative, plain.tokens]
  rfl

theorem fname_strncpy (sector : Sector) (inUse : Bool) (noNul : 0 ∉ name) (short : name.length ≤ 30) :
    DirEntry.fname ⟨sector, strncpy name, inUse⟩ = name := by
  have padded : (strncpy name).toList = name ++ 0 :: List.replicate (30 - name.length) 0 := by
    apply List.ext_getElem
    · simp
      omega
    · intro i inside inside'
      simp only [Vector.length_toList] at inside
      simp only [strncpy, Vector.toList_ofFn, List.getElem_ofFn, List.getD_eq_getElem?_getD]
      rcases Nat.lt_or_ge i name.length with before | after
      · rw [List.getElem_append_left before, List.getElem?_eq_getElem before, Option.getD_some]
      · rw [List.getElem_append_right after, List.getElem?_eq_none after, Option.getD_none]
        simp only [← List.replicate_succ, List.getElem_replicate]
  rw [DirEntry.fname, padded, List.takeWhile_append_of_pos]
  · simp
  · intro byte member
    rw [bne_iff_ne]
    rintro rfl
    exact noNul member

end Paths

section Names

theorem Named.live (named : Named fs name sector) : Live fs sector := .inr (.inr ⟨name, named⟩)

theorem Root.functional (root : Root fs) (first : Named fs name sector) (second : Named fs name sector') : sector = sector' := by
  obtain ⟨i, e, low, there, used, rfl, rfl⟩ := first
  obtain ⟨j, f, low', there', used', same, rfl⟩ := second
  obtain rfl := root.unique i j e f low low' there there' used used' (.inl same.symm)
  rw [there] at there'
  cases there'
  rfl

theorem Root.injective (root : Root fs) (first : Named fs name sector) (second : Named fs name' sector) : name = name' := by
  obtain ⟨i, e, low, there, used, rfl, rfl⟩ := first
  obtain ⟨j, f, low', there', used', rfl, same⟩ := second
  obtain rfl := root.unique i j e f low low' there there' used used' (.inr same.symm)
  rw [there] at there'
  cases there'
  rfl

theorem Root.one_le (root : Root fs) (j : Nat) (free : ∀ e, (slots fs)[j]? = some e → e.inUse = false) : 1 ≤ j := by
  obtain ⟨e, there, used, _⟩ := root.parent
  rcases Nat.eq_zero_or_pos j with rfl | positive
  · rw [free e there] at used
    cases used
  · exact positive

theorem Root.congr (root : Root fs) (same : slots fs' = slots fs) (length : (curData fs' 1).length = (curData fs 1).length)
    (regular : ∀ name sector, Named fs name sector → (curData fs' sector).isDir = (curData fs sector).isDir) : Root fs' := by
  have named (name : CString) (sector : Sector) : Named fs' name sector ↔ Named fs name sector := by
    rw [Named, same, Named]
  refine ⟨by rw [length]; exact root.whole, by rw [same]; exact root.parent, by rw [same]; exact root.unique, ?_, ?_⟩
  · intro name sector there
    exact root.plain name sector ((named name sector).mp there)
  · intro name sector there
    have there := (named name sector).mp there
    rw [regular name sector there]
    exact root.regular name sector there

theorem named_congr (same : slots fs' = slots fs) : Named fs' = Named fs := by
  funext name sector
  rw [Named, same, Named]

theorem live_congr (same : slots fs' = slots fs) : Live fs' = Live fs := by
  funext sector
  rw [Live, named_congr same, Live]

theorem named_put (put : slots fs' = putSlot (slots fs) j e) (place : j ≤ (slots fs).length) (low : 1 ≤ j)
    (free : ∀ e, (slots fs)[j]? = some e → e.inUse = false) (used : e.inUse = true) (name : CString) (sector : Sector) :
    Named fs' name sector ↔ Named fs name sector ∨ (name = e.fname ∧ sector = e.inodeSector) := by
  unfold Named
  rw [put]
  constructor
  · rintro ⟨i, f, low', there, used', rfl, rfl⟩
    rw [putSlot_getElem? place] at there
    split at there
    next => cases there; exact .inr ⟨rfl, rfl⟩
    next => exact .inl ⟨i, f, low', there, used', rfl, rfl⟩
  · rintro (⟨i, f, low', there, used', rfl, rfl⟩ | ⟨rfl, rfl⟩)
    · refine ⟨i, f, low', ?_, used', rfl, rfl⟩
      rw [putSlot_getElem? place, if_neg]
      · exact there
      · rintro rfl
        rw [free f there] at used'
        cases used'
    · exact ⟨j, e, low, by rw [putSlot_getElem? place, if_pos rfl], used, rfl, rfl⟩

theorem Root.put (root : Root fs) (put : slots fs' = putSlot (slots fs) j e) (whole : (curData fs' 1).length % 36 = 0)
    (place : j ≤ (slots fs).length) (free : ∀ e, (slots fs)[j]? = some e → e.inUse = false) (used : e.inUse = true)
    (plain : PlainName e.fname) (short : e.fname.length ≤ 30) (nonzero : e.inodeSector ≠ 0 ∧ e.inodeSector ≠ 1)
    (regular : (curData fs' e.inodeSector).isDir = 0)
    (new : ∀ name sector, Named fs name sector → name ≠ e.fname ∧ sector ≠ e.inodeSector)
    (same : ∀ name sector, Named fs name sector → (curData fs' sector).isDir = (curData fs sector).isDir) : Root fs' := by
  have low := root.one_le j free
  have named := named_put put place low free used
  refine ⟨whole, ?_, ?_, fun name sector there => ?_, fun name sector there => ?_⟩
  · obtain ⟨f, there, used'⟩ := root.parent
    exact ⟨f, by rw [put, putSlot_getElem? place, if_neg (by omega)]; exact there, used'⟩
  · intro i k f g low₁ low₂ there there' used₁ used₂ equal
    rw [put, putSlot_getElem? place] at there there'
    split at there <;> split at there'
    next first second => rw [first, second]
    next =>
      cases there
      obtain ⟨differs, differs'⟩ := new g.fname g.inodeSector ⟨k, g, low₂, there', used₂, rfl, rfl⟩
      exact equal.elim (fun equal => absurd equal.symm differs) fun equal => absurd equal.symm differs'
    next =>
      cases there'
      obtain ⟨differs, differs'⟩ := new f.fname f.inodeSector ⟨i, f, low₁, there, used₁, rfl, rfl⟩
      exact equal.elim (fun equal => absurd equal differs) fun equal => absurd equal differs'
    next => exact root.unique i k f g low₁ low₂ there there' used₁ used₂ equal
  · rcases (named name sector).mp there with there | ⟨rfl, rfl⟩
    · exact root.plain name sector there
    · exact ⟨plain, short, nonzero⟩
  · rcases (named name sector).mp there with there | ⟨rfl, rfl⟩
    · rw [same name sector there]
      exact root.regular name sector there
    · exact regular

theorem named_clear (root : Root fs) (put : slots fs' = putSlot (slots fs) j { e with inUse := false }) (low : 1 ≤ j)
    (there : (slots fs)[j]? = some e) (used : e.inUse = true) (name : CString) (sector : Sector) :
    Named fs' name sector ↔ Named fs name sector ∧ name ≠ e.fname := by
  have place : j ≤ (slots fs).length := Nat.le_of_lt (List.getElem?_eq_some_iff.mp there).1
  unfold Named
  rw [put]
  constructor
  · rintro ⟨i, f, low', there', used', rfl, rfl⟩
    rw [putSlot_getElem? place] at there'
    split at there'
    next => cases there'; cases used'
    next differs =>
      exact ⟨⟨i, f, low', there', used', rfl, rfl⟩,
        fun same => differs (root.unique i j f e low' low there' there used' used (.inl same))⟩
  · rintro ⟨⟨i, f, low', there', used', rfl, rfl⟩, differs⟩
    refine ⟨i, f, low', ?_, used', rfl, rfl⟩
    rw [putSlot_getElem? place, if_neg]
    · exact there'
    · rintro rfl
      rw [there] at there'
      cases there'
      exact differs rfl

theorem Root.clear (root : Root fs) (put : slots fs' = putSlot (slots fs) j { e with inUse := false })
    (whole : (curData fs' 1).length % 36 = 0) (low : 1 ≤ j) (there : (slots fs)[j]? = some e) (used : e.inUse = true)
    (same : ∀ name sector, Named fs name sector → name ≠ e.fname →
      (curData fs' sector).isDir = (curData fs sector).isDir) : Root fs' := by
  have place : j ≤ (slots fs).length := Nat.le_of_lt (List.getElem?_eq_some_iff.mp there).1
  have named := named_clear root put low there used
  refine ⟨whole, ?_, ?_, fun name sector there => ?_, fun name sector there => ?_⟩
  · obtain ⟨f, first, used'⟩ := root.parent
    exact ⟨f, by rw [put, putSlot_getElem? place, if_neg (by omega)]; exact first, used'⟩
  · intro i k f g low₁ low₂ there₁ there₂ used₁ used₂ equal
    rw [put, putSlot_getElem? place] at there₁ there₂
    split at there₁
    next => cases there₁; cases used₁
    next =>
      split at there₂
      next => cases there₂; cases used₂
      next => exact root.unique i k f g low₁ low₂ there₁ there₂ used₁ used₂ equal
  · exact root.plain name sector ((named name sector).mp there).1
  · obtain ⟨before, differs⟩ := (named name sector).mp there
    rw [same name sector before differs]
    exact root.regular name sector before

end Names

section Lookups

/-- A name is found by `lookup` when an entry in use has it. -/
theorem findFrom_named (root : Root fs) (sector : Sector) :
    Named fs name sector ↔ ∃ e j, findFrom name 1 ((slots fs).drop 1) = some (e, ((36 * j : Nat) : Int)) ∧ 1 ≤ j ∧
      (slots fs)[j]? = some e ∧ e.inUse = true ∧ e.fname = name ∧ e.inodeSector = sector := by
  constructor
  · rintro ⟨i, e, low, there, used, rfl, rfl⟩
    cases found : findFrom e.fname 1 ((slots fs).drop 1) with
    | none =>
      refine absurd rfl (findFrom_none.mp found e (List.mem_of_getElem? (i := i - 1) ?_) used)
      rw [List.getElem?_drop, show 1 + (i - 1) = i by omega]
      exact there
    | some pair =>
      obtain ⟨f, ofs⟩ := pair
      obtain ⟨j, there', rfl, used', same⟩ := findFrom_some found
      rw [List.getElem?_drop] at there'
      obtain rfl := root.unique i (1 + j) e f low (by omega) there there' used used' (.inl same.symm)
      rw [there] at there'
      cases there'
      exact ⟨e, 1 + j, rfl, low, there, used, rfl, rfl⟩
  · rintro ⟨e, j, _, low, there, used, same, same'⟩
    exact ⟨j, e, low, there, used, same, same'⟩

end Lookups

end Comp310.Fs
