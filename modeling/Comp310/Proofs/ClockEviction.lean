import Mathlib.Data.Nat.Find
import Comp310.Fs.Cache

/-! The second chance of the clock algorithm: where the hand stops, and what it leaves behind on its way there. -/

namespace Comp310.Proofs.ClockEviction
open Comp310.Fs Storage

/-- The slot so many places ahead of the hand. -/
def ahead (s : Storage) (distance : Nat) : Fin 64 := ⟨(s.clock.val + distance) % 64, Nat.mod_lt _ (by decide)⟩

/-- The hand stops at an entry that is free or has had its second chance. -/
def Stops (entry : CacheEntry) : Prop := entry.occupied = false ∨ entry.access = false

/-- The first entry from the hand on that stops it, or else the one that it starts from. -/
def Victim (s : Storage) (distance : Nat) : Prop :=
  (∀ passed < distance, ¬ Stops (s.entry (ahead s passed))) ∧ (distance < 64 ∧ Stops (s.entry (ahead s distance)) ∨ distance = 64)

/-- The entries that were passed over have lost their reference bit, and all else is as it was. -/
structure Passed (s s' : Storage) (distance : Nat) : Prop where
  clock : s'.clock = ahead s distance
  entry : ∀ slot, (∃ passed < distance, ahead s passed = slot) → s'.entry slot = { s.entry slot with access := false }
  others : ∀ slot, (∀ passed < distance, ahead s passed ≠ slot) → s'.entry slot = s.entry slot
  device : s'.device = s.device

/-- What becomes of the entry that the hand stops at: it is free, and its bytes are on the device if they had to be saved. -/
structure Freed (s s' : Storage) (slot : Fin 64) : Prop where
  clock : s'.clock = slot
  entry : s'.entry slot = { s.entry slot with occupied := false, dirty := (s.entry slot).dirty && !(s.entry slot).occupied }
  others : ∀ other, other ≠ slot → s'.entry other = s.entry other
  saved : (s.entry slot).occupied → (s.entry slot).dirty → s'.device[(s.entry slot).diskSector.toNat]? = some (s.entry slot).buffer
  device : ∀ sector : Nat, ((s.entry slot).occupied → (s.entry slot).dirty → sector ≠ (s.entry slot).diskSector.toNat) →
    s'.device[sector]? = s.device[sector]?

/-- An eviction, from the state before the search to the one after it. -/
structure Evicted (s s' : Storage) (distance : Nat) (slot : Fin 64) : Prop where
  chosen : slot = ahead s distance
  clock : s'.clock = slot
  free : (s'.entry slot).occupied = false
  entry : s'.entry slot =
    if (s.entry slot).occupied then { s.entry slot with occupied := false, access := false, dirty := false } else s.entry slot
  passed : ∀ other, other ≠ slot → (∃ passed < distance, ahead s passed = other) →
    s'.entry other = { s.entry other with access := false }
  others : ∀ other, other ≠ slot → (∀ passed < distance, ahead s passed ≠ other) → s'.entry other = s.entry other
  saved : (s.entry slot).occupied → (s.entry slot).dirty → s'.device[(s.entry slot).diskSector.toNat]? = some (s.entry slot).buffer
  device : ∀ sector : Nat, ((s.entry slot).occupied → (s.entry slot).dirty → sector ≠ (s.entry slot).diskSector.toNat) →
    s'.device[sector]? = s.device[sector]?

variable {s s' : Storage} {distance passed : Nat} {slot : Fin 64}

theorem ahead_zero : ahead s 0 = s.clock := Fin.ext (Nat.mod_eq_of_lt s.clock.isLt)

theorem ahead_full : ahead s 64 = s.clock := Fin.ext (by simp [ahead, Nat.mod_eq_of_lt s.clock.isLt])

theorem ahead_inj (low : passed < 64) (high : distance < 64) (same : ahead s passed = ahead s distance) : passed = distance := by
  have places := congrArg Fin.val same
  simp only [ahead] at places
  omega

theorem exists_victim (s : Storage) : ∃ distance ≤ 64, Victim s distance := by
  classical
  by_cases some : ∃ distance, distance < 64 ∧ Stops (s.entry (ahead s distance))
  · obtain ⟨small, stops⟩ := Nat.find_spec some
    refine ⟨Nat.find some, Nat.le_of_lt small, fun passed before stops' => ?_, .inl ⟨small, stops⟩⟩
    exact Nat.find_min some before ⟨by omega, stops'⟩
  · exact ⟨64, Nat.le_refl _, fun passed before stops => some ⟨passed, before, stops⟩, .inr rfl⟩

theorem Victim.unique (first : Victim s passed) (second : Victim s distance) : passed = distance := by
  obtain ⟨before, stop⟩ := first
  obtain ⟨before', stop'⟩ := second
  rcases Nat.lt_trichotomy passed distance with less | same | more
  · rcases stop with ⟨_, stops⟩ | full
    · exact absurd stops (before' passed less)
    · rcases stop' with ⟨small, _⟩ | full' <;> omega
  · exact same
  · rcases stop' with ⟨_, stops⟩ | full
    · exact absurd stops (before distance more)
    · rcases stop with ⟨small, _⟩ | full' <;> omega

/-- Entries that do not stop the hand only cost it a look each. -/
theorem clockLoop_passes (high : distance ≤ 64) (none : ∀ passed < distance, ¬ Stops (s.entry (ahead s passed))) :
    ∃ s', Passed s s' distance ∧ ∀ fuel, clockLoop (distance + fuel) s = clockLoop fuel s' := by
  induction distance with
  | zero =>
    refine ⟨s, ⟨ahead_zero.symm, fun slot before => ?_, fun _ _ => rfl, rfl⟩, fun fuel => by rw [Nat.zero_add]⟩
    obtain ⟨_, impossible, _⟩ := before
    exact absurd impossible (Nat.not_lt_zero _)
  | succ distance ih =>
    obtain ⟨middle, passed, ran⟩ := ih (by omega) fun passed before => none passed (by omega)
    have fresh : middle.entry middle.clock = s.entry (ahead s distance) := by
      rw [passed.clock]
      apply passed.others
      intro earlier before same
      have equal := ahead_inj (by omega) (by omega) same
      omega
    have going := none distance (Nat.lt_succ_self _)
    rw [← fresh, Stops, not_or, Bool.not_eq_false, Bool.not_eq_false] at going
    obtain ⟨occupied, accessed⟩ := going
    let unmark (entry : CacheEntry) : CacheEntry := { entry with access := false }
    refine ⟨{ middle.modifyEntry middle.clock unmark with clock := middle.clock + 1 }, ⟨?_, ?_, ?_, passed.device⟩, fun fuel => ?_⟩
    · apply Fin.ext
      have moved : (middle.clock + 1).val = (middle.clock.val + 1) % 64 := Fin.val_add _ _
      have here : middle.clock.val = (s.clock.val + distance) % 64 := congrArg Fin.val passed.clock
      change (middle.clock + 1).val = (s.clock.val + (distance + 1)) % 64
      omega
    · intro slot before
      obtain ⟨earlier, low, same⟩ := before
      change (middle.modifyEntry middle.clock unmark).entry slot = _
      rw [entry_modifyEntry, fresh, passed.clock]
      split
      next here => rw [here]
      next elsewhere =>
        have differs : earlier ≠ distance := by
          rintro rfl
          exact elsewhere same
        exact passed.entry slot ⟨earlier, by omega, same⟩
    · intro slot apart
      change (middle.modifyEntry middle.clock unmark).entry slot = _
      rw [entry_modifyEntry, passed.clock, if_neg (apart distance (Nat.lt_succ_self _))]
      exact passed.others slot fun earlier before => apart earlier (by omega)
    · rw [show distance + 1 + fuel = distance + (fuel + 1) by omega, ran, clockLoop, occupied, accessed]
      rfl

/-- Of the entry that the hand has come to nothing but the reference bit was touched, and that only if it is in use. -/
theorem Victim.entry (victim : Victim s distance) (passed : Passed s s' distance) : s'.entry s'.clock =
    if (s.entry (ahead s distance)).occupied then { s.entry (ahead s distance) with access := false } else s.entry (ahead s distance) := by
  rw [passed.clock]
  rcases victim.2 with ⟨small, stops⟩ | full
  · have untouched : s'.entry (ahead s distance) = s.entry (ahead s distance) := by
      apply passed.others
      intro earlier before same
      have equal := ahead_inj (by omega) small same
      omega
    rw [untouched]
    split
    next occupied =>
      have clear : (s.entry (ahead s distance)).access = false := by
        refine stops.resolve_left fun free => ?_
        rw [free] at occupied
        cases occupied
      rw [← clear]
    next => rfl
  · subst full
    have home : ahead s 0 = ahead s 64 := ahead_zero.trans ahead_full.symm
    have going := victim.1 0 (by decide)
    rw [home, Stops, not_or, Bool.not_eq_false, Bool.not_eq_false] at going
    rw [if_pos going.1]
    exact passed.entry (ahead s 64) ⟨0, by omega, home⟩

theorem Victim.stops (victim : Victim s distance) (passed : Passed s s' distance) : Stops (s'.entry s'.clock) := by
  rw [victim.entry passed]
  split
  next => exact .inr rfl
  next free => exact .inl (Bool.eq_false_iff.mpr free)

theorem clockLoop_stops (stops : Stops (s.entry s.clock)) (fuel : Nat) : clockLoop (fuel + 1) s = some s := by
  rw [clockLoop]
  split
  next => rfl
  next occupied =>
    rw [if_neg]
    rw [stops.resolve_left occupied]
    exact Bool.false_ne_true

/-- The search looks at one entry more than it passes over, and at no fewer. -/
theorem clockLoop_victim (victim : Victim s distance) (high : distance ≤ 64) : ∃ s', Passed s s' distance ∧
    (∀ fuel, clockLoop (distance + 1 + fuel) s = some s') ∧ ∀ fuel ≤ distance, clockLoop fuel s = none := by
  obtain ⟨s', passed, ran⟩ := clockLoop_passes high victim.1
  refine ⟨s', passed, fun fuel => ?_, fun fuel less => ?_⟩
  · rw [show distance + 1 + fuel = distance + (fuel + 1) by omega, ran]
    exact clockLoop_stops (victim.stops passed) fuel
  · obtain ⟨middle, _, ran'⟩ := clockLoop_passes (Nat.le_trans less high) fun earlier before => victim.1 earlier (by omega)
    exact ran' 0

theorem flush_dirty (dirty : (s.entry slot).dirty) :
    (∀ s', s.bufferCacheFlush slot = some s' → s'.clock = s.clock ∧ (∀ other, other ≠ slot → s'.entry other = s.entry other) ∧
      s'.entry slot = { s.entry slot with dirty := false } ∧ (s.entry slot).diskSector.toNat < s.device.size ∧
      s'.device = s.device.setIfInBounds (s.entry slot).diskSector.toNat (s.entry slot).buffer) ∧
    (s.bufferCacheFlush slot = none ↔ s.device.size ≤ (s.entry slot).diskSector.toNat) := by
  rw [bufferCacheFlush, if_pos dirty, blockWrite]
  by_cases inside : (s.entry slot).diskSector.toNat < s.device.size
  · rw [if_pos inside]
    constructor
    · rintro s' ⟨⟩
      refine ⟨rfl, fun other differs => ?_, ?_, inside, rfl⟩
      · rw [entry_modifyEntry, if_neg (Ne.symm differs)]
        rfl
      · rw [entry_modifyEntry, if_pos rfl]
        rfl
    · exact iff_of_false (Option.some_ne_none _) (Nat.not_le.mpr inside)
  · rw [if_neg inside]
    constructor
    · rintro s' ⟨⟩
    · exact iff_of_true rfl (Nat.le_of_not_lt inside)

/-- The entry that the hand stopped at is handed out, unless it has to be saved at a sector past the end of the device. -/
theorem evict_stopped {stopped : Storage} (ran : clockLoop 65 s = some stopped) :
    (∀ slot s', s.bufferCacheEvict = some (slot, s') → slot = stopped.clock ∧ Freed stopped s' slot) ∧
    (s.bufferCacheEvict = none ↔ (stopped.entry stopped.clock).occupied ∧ (stopped.entry stopped.clock).dirty ∧
      stopped.device.size ≤ (stopped.entry stopped.clock).diskSector.toNat) := by
  unfold bufferCacheEvict
  simp only [ran, Option.bind_eq_bind, Option.bind_some]
  cases occupied : (stopped.entry stopped.clock).occupied with
  | false =>
    rw [if_pos rfl]
    constructor
    · rintro _ _ ⟨⟩
      refine ⟨rfl, rfl, ?_, fun _ _ => rfl, fun taken => ?_, fun _ _ => rfl⟩
      · rw [occupied, Bool.not_false, Bool.and_true, ← occupied]
      · rw [occupied] at taken
        cases taken
    · exact iff_of_false (Option.some_ne_none _) fun taken => Bool.false_ne_true taken.1
  | true =>
    rw [if_neg Bool.false_ne_true.symm]
    let release (entry : CacheEntry) : CacheEntry := { entry with occupied := false }
    cases dirty : (stopped.entry stopped.clock).dirty with
    | false =>
      have clean : stopped.bufferCacheFlush stopped.clock = some stopped := by
        rw [bufferCacheFlush, dirty, if_neg Bool.false_ne_true]
      rw [clean, Option.bind_some]
      constructor
      · rintro _ _ ⟨⟩
        refine ⟨rfl, rfl, ?_, fun other differs => ?_, fun _ unsaved => ?_, fun _ _ => rfl⟩
        · rw [entry_modifyEntry, if_pos rfl, dirty, Bool.false_and, ← dirty]
        · rw [entry_modifyEntry, if_neg (Ne.symm differs)]
        · rw [dirty] at unsaved
          cases unsaved
      · exact iff_of_false (Option.some_ne_none _) fun taken => Bool.false_ne_true taken.2.1
    | true =>
      obtain ⟨saves, refuses⟩ := flush_dirty dirty
      cases flushed : stopped.bufferCacheFlush stopped.clock with
      | none =>
        constructor
        · rintro _ _ ⟨⟩
        · exact iff_of_true rfl ⟨rfl, rfl, refuses.mp flushed⟩
      | some after =>
        obtain ⟨clock, others, saved, inside, device⟩ := saves after flushed
        have kept : after.device = (after.modifyEntry after.clock release).device := rfl
        rw [Option.bind_some]
        constructor
        · rintro _ _ ⟨⟩
          refine ⟨clock, rfl, ?_, fun other differs => ?_, fun _ _ => ?_, fun sector apart => ?_⟩
          · rw [entry_modifyEntry, if_pos rfl, clock, saved, occupied, Bool.not_true, Bool.and_false]
          · rw [entry_modifyEntry, if_neg (Ne.symm differs)]
            exact others other (clock ▸ differs)
          · rw [← kept, device, clock, Array.getElem?_setIfInBounds_self_of_lt inside]
          · rw [clock] at apart
            rw [← kept, device, Array.getElem?_setIfInBounds_ne (apart occupied dirty).symm]
        · refine iff_of_false (Option.some_ne_none _) fun past => ?_
          exact Nat.not_le.mpr inside past.2.2

/-- For all bits of the entries and every position of the hand: one slot is chosen, after a look at the `distance` entries
before it and at itself, at most 65 in all. It is handed out free and saved, unless it has to be saved at a sector that
the device does not have. -/
theorem second_chance (s : Storage) : ∃ distance ≤ 64, Victim s distance ∧
    (∀ fuel, (clockLoop fuel s).isSome ↔ distance < fuel) ∧
    (∀ slot s', s.bufferCacheEvict = some (slot, s') → Evicted s s' distance slot) ∧
    (s.bufferCacheEvict = none ↔ (s.entry (ahead s distance)).occupied ∧ (s.entry (ahead s distance)).dirty ∧
      s.device.size ≤ (s.entry (ahead s distance)).diskSector.toNat) := by
  obtain ⟨distance, high, victim⟩ := exists_victim s
  obtain ⟨stopped, passed, enough, few⟩ := clockLoop_victim victim high
  have ran : clockLoop 65 s = some stopped := by
    have total := enough (64 - distance)
    rwa [show distance + 1 + (64 - distance) = 65 by omega] at total
  obtain ⟨freed, refused⟩ := evict_stopped ran
  have same := victim.entry passed
  have flags : (stopped.entry stopped.clock).occupied = (s.entry (ahead s distance)).occupied ∧
      (stopped.entry stopped.clock).dirty = (s.entry (ahead s distance)).dirty ∧
      (stopped.entry stopped.clock).diskSector = (s.entry (ahead s distance)).diskSector ∧
      (stopped.entry stopped.clock).buffer = (s.entry (ahead s distance)).buffer := by
    rw [same]
    split <;> exact ⟨rfl, rfl, rfl, rfl⟩
  obtain ⟨occupied, dirty, diskSector, buffer⟩ := flags
  refine ⟨distance, high, victim, fun fuel => ?_, fun slot s' evicted => ?_, ?_⟩
  · rcases Nat.lt_or_ge distance fuel with more | less
    · have stops := enough (fuel - distance - 1)
      rw [show distance + 1 + (fuel - distance - 1) = fuel by omega] at stops
      rw [stops]
      exact iff_of_true rfl more
    · rw [few fuel less]
      exact iff_of_false Bool.false_ne_true (Nat.not_lt.mpr less)
  · obtain ⟨rfl, freed⟩ := freed slot s' evicted
    have saved := freed.saved
    have device := freed.device
    have entry := freed.entry
    rw [occupied, dirty, diskSector, ← passed.clock] at saved device
    rw [buffer, ← passed.clock] at saved
    rw [same, ← passed.clock] at entry
    refine ⟨passed.clock, freed.clock, by rw [entry], ?_, fun other differs before => ?_, fun other differs before => ?_, saved, ?_⟩
    · rw [entry]
      generalize s.entry stopped.clock = before
      obtain ⟨taken, diskSector, buffer, dirty, access⟩ := before
      cases taken <;> simp
    · rw [freed.others other differs, passed.entry other before]
    · rw [freed.others other differs, passed.others other before]
    · rw [← passed.device]
      exact device
  · rw [refused, occupied, dirty, diskSector, passed.device]

end Comp310.Proofs.ClockEviction
