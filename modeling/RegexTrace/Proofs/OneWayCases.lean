import RegexTrace.Unicode.Case

/-!
# Cases that do not lead back

A case of a code point mostly has that code point among its own cases. The exceptions are listed:
title case letters, letters that share an upper case letter with another one, and the signs that are
letters under another name. The list is checked against the case tables shift by shift: a shift is
undone as a whole by one shift of the other table, or its code points are looked up one by one.
-/

namespace RegexTrace.Unicode

/-- The pairs of a code point and a case of it that does not have it among its own cases. -/
def oneWayCases : List (Nat × Nat) :=
  [(0xB5, 0x39C), (0x131, 0x49), (0x17F, 0x53), (0x1C5, 0x1C6), (0x1C5, 0x1C4), (0x1C8, 0x1C9),
   (0x1C8, 0x1C7), (0x1CB, 0x1CC), (0x1CB, 0x1CA), (0x1F2, 0x1F3), (0x1F2, 0x1F1), (0x345, 0x399),
   (0x3C2, 0x3A3), (0x3D0, 0x392), (0x3D1, 0x398), (0x3D5, 0x3A6), (0x3D6, 0x3A0), (0x3F0, 0x39A),
   (0x3F1, 0x3A1), (0x3F4, 0x3B8), (0x3F5, 0x395), (0x1C80, 0x412), (0x1C81, 0x414),
   (0x1C82, 0x41E), (0x1C83, 0x421), (0x1C84, 0x422), (0x1C85, 0x422), (0x1C86, 0x42A),
   (0x1C87, 0x462), (0x1C88, 0xA64A), (0x1E9B, 0x1E60), (0x1E9E, 0xDF), (0x1F88, 0x1F80),
   (0x1F89, 0x1F81), (0x1F8A, 0x1F82), (0x1F8B, 0x1F83), (0x1F8C, 0x1F84), (0x1F8D, 0x1F85),
   (0x1F8E, 0x1F86), (0x1F8F, 0x1F87), (0x1F98, 0x1F90), (0x1F99, 0x1F91), (0x1F9A, 0x1F92),
   (0x1F9B, 0x1F93), (0x1F9C, 0x1F94), (0x1F9D, 0x1F95), (0x1F9E, 0x1F96), (0x1F9F, 0x1F97),
   (0x1FA8, 0x1FA0), (0x1FA9, 0x1FA1), (0x1FAA, 0x1FA2), (0x1FAB, 0x1FA3), (0x1FAC, 0x1FA4),
   (0x1FAD, 0x1FA5), (0x1FAE, 0x1FA6), (0x1FAF, 0x1FA7), (0x1FBC, 0x1FB3), (0x1FBE, 0x399),
   (0x1FCC, 0x1FC3), (0x1FFC, 0x1FF3), (0x2126, 0x3C9), (0x212A, 0x6B), (0x212B, 0xE5)]

/-- A shift moves the code point that lies `distance` behind its first one. -/
def Shift.Moves (s : Shift) (distance : Nat) : Prop :=
  s.first + distance ≤ s.last ∧ distance % s.step = 0

/-- The code points that a shift moves. -/
def Shift.moved (s : Shift) : List Nat :=
  (List.range ((s.last - s.first) / s.step + 1)).map fun k => s.first + k * s.step

variable {shifts back : List Shift} {s : Shift} {distance : Nat}

theorem Shift.Moves.mem_moved (h : s.Moves distance) : s.first + distance ∈ s.moved := by
  have hsteps : distance / s.step * s.step = distance :=
    Nat.div_mul_cancel (Nat.dvd_of_mod_eq_zero h.2)
  have hinside : distance ≤ s.last - s.first := Nat.le_sub_of_add_le' h.1
  refine List.mem_map.mpr ⟨distance / s.step, List.mem_range.mpr ?_, by rw [hsteps]⟩
  exact Nat.lt_succ_of_le (Nat.div_le_div_right hinside)

/-- A code point that changes is moved by one of the shifts. -/
theorem exists_moves_of_applyShifts (shifts : List Shift) (c : Nat) :
    applyShifts shifts c = c ∨ ∃ s ∈ shifts, ∃ distance, s.Moves distance ∧
      c = s.first + distance ∧ applyShifts shifts c = s.image + distance := by
  induction shifts with
  | nil => exact Or.inl rfl
  | cons s rest ih =>
      rw [applyShifts]
      split
      · exact Or.inl rfl
      · next hfirst =>
          obtain ⟨distance, rfl⟩ := Nat.exists_eq_add_of_le (Nat.not_lt.mp hfirst)
          split
          · next hlast =>
              rw [Shift.apply, Nat.add_sub_cancel_left]
              split
              · next hstep =>
                  exact Or.inr ⟨s, List.mem_cons_self, distance, ⟨hlast, hstep⟩, rfl, rfl⟩
              · exact Or.inl rfl
          · rcases ih with hsame | ⟨t, ht, hmoves⟩
            · exact Or.inl hsame
            · exact Or.inr ⟨t, List.mem_cons_of_mem s ht, hmoves⟩

/-- The one shift that all code points of an interval fall to, if there is one. -/
def sole? : List Shift → Nat → Nat → Option Shift
  | [], _, _ => none
  | s :: rest, low, high =>
    if s.last < low then sole? rest low high
    else if s.first ≤ low ∧ high ≤ s.last then some s else none

/-- A shift that is looked up for an interval applies to its code points. -/
theorem applyShifts_of_sole? {low high c : Nat} (h : sole? shifts low high = some s)
    (hordered : ∀ s ∈ shifts, s.first ≤ s.last) (hlow : low ≤ c) (hhigh : c ≤ high) :
    s.first ≤ low ∧ applyShifts shifts c = s.apply c := by
  induction shifts with
  | nil => cases h
  | cons t rest ih =>
      have ht := hordered t List.mem_cons_self
      rw [sole?] at h
      rw [applyShifts]
      split at h
      · next hbefore =>
          obtain ⟨hfirst, happly⟩ := ih h fun s hs => hordered s (List.mem_cons_of_mem t hs)
          rw [if_neg (by omega), if_neg (by omega)]
          exact ⟨hfirst, happly⟩
      · split at h
        · next hinside =>
            obtain rfl := Option.some.inj h
            rw [if_neg (by omega), if_pos (by omega)]
            exact ⟨hinside.1, rfl⟩
        · cases h

/-- All code points that a shift moves are moved back by one other shift. -/
def Shift.isUndone (back : List Shift) (s : Shift) : Bool :=
  match sole? back s.image (s.image + (s.last - s.first)) with
  | some t =>
    t.image + (s.image - t.first) == s.first && (s.image - t.first) % t.step == 0 &&
      s.step % t.step == 0
  | none => false

/-- What an undone shift moves is moved back to where it was. -/
theorem applyShifts_of_isUndone (h : s.isUndone back = true)
    (hordered : ∀ t ∈ back, t.first ≤ t.last) (hmoves : s.Moves distance) :
    applyShifts back (s.image + distance) = s.first + distance := by
  unfold Shift.isUndone at h
  split at h
  · next t ht =>
      simp only [Bool.and_eq_true, beq_iff_eq] at h
      obtain ⟨⟨himage, halign⟩, hstep⟩ := h
      have hinside : distance ≤ s.last - s.first := Nat.le_sub_of_add_le' hmoves.1
      obtain ⟨hfirst, happly⟩ := applyShifts_of_sole? ht hordered (Nat.le_add_right _ distance)
        (Nat.add_le_add_left hinside _)
      have hdistance : s.image + distance - t.first = (s.image - t.first) + distance := by omega
      have hdivides : t.step ∣ distance :=
        Nat.dvd_trans (Nat.dvd_of_mod_eq_zero hstep) (Nat.dvd_of_mod_eq_zero hmoves.2)
      have hcovers : (s.image - t.first + distance) % t.step = 0 :=
        Nat.mod_eq_zero_of_dvd (Nat.dvd_add (Nat.dvd_of_mod_eq_zero halign) hdivides)
      rw [happly, Shift.apply, hdistance, if_pos hcovers, ← Nat.add_assoc, himage]
  · cases h

/-- A case leads back to the code point that it is a case of, or the pair is listed. -/
def leadsBack (v c : Nat) : Bool := oneWayCases.contains (v, c) || (caseVariants c).contains v

/-- Every shift is undone, or each of its code points is led back to or listed. -/
def returns (shifts back : List Shift) : Bool :=
  shifts.all fun s =>
    s.isUndone back || s.moved.all fun v => leadsBack v (s.image + (v - s.first))

/-- A table whose shifts return leads back or to a listed pair, if the other table gives a case. -/
theorem leadsBack_of_returns (h : returns shifts back = true)
    (hordered : ∀ t ∈ back, t.first ≤ t.last)
    (hback : ∀ c, applyShifts back c ∈ caseVariants c) (v : Nat) :
    leadsBack v (applyShifts shifts v) = true := by
  rcases exists_moves_of_applyShifts shifts v with hsame | ⟨s, hs, distance, hmoves, rfl, himage⟩
  · rw [hsame, leadsBack, caseVariants, List.contains_cons, beq_self_eq_true, Bool.true_or,
      Bool.or_true]
  · rw [himage]
    rcases Bool.or_eq_true_iff.mp (List.all_eq_true.mp h s hs) with hundone | hsingle
    · have hreturn := hback (s.image + distance)
      rw [applyShifts_of_isUndone hundone hordered hmoves] at hreturn
      rw [leadsBack, List.contains_iff_mem.mpr hreturn, Bool.or_true]
    · have hlisted := List.all_eq_true.mp hsingle _ hmoves.mem_moved
      rwa [Nat.add_sub_cancel_left] at hlisted

theorem lower_returns : returns lowerShifts upperShifts = true := by decide +kernel

theorem upper_returns : returns upperShifts lowerShifts = true := by decide +kernel

/-- A case has the code point among its own cases, or the pair is listed. -/
theorem mem_caseVariants_or_oneWayCases {v c : Nat} (h : c ∈ caseVariants v) :
    v ∈ caseVariants c ∨ (v, c) ∈ oneWayCases := by
  have hleads : leadsBack v c = true := by
    simp only [caseVariants, List.mem_cons, List.not_mem_nil, or_false] at h
    rcases h with rfl | rfl | rfl
    · rw [leadsBack, caseVariants, List.contains_cons, beq_self_eq_true, Bool.true_or,
        Bool.or_true]
    · refine leadsBack_of_returns lower_returns (by decide +kernel) (fun c => ?_) v
      exact List.mem_cons_of_mem _ (List.mem_cons_of_mem _ List.mem_cons_self)
    · refine leadsBack_of_returns upper_returns (by decide +kernel) (fun c => ?_) v
      exact List.mem_cons_of_mem _ List.mem_cons_self
  rcases Bool.or_eq_true_iff.mp hleads with hlisted | hcase
  · exact Or.inr (List.contains_iff_mem.mp hlisted)
  · exact Or.inl (List.contains_iff_mem.mp hcase)

/-- The listed pairs are those of a code point and a case of it that does not lead back. -/
theorem mem_oneWayCases_iff {v c : Nat} :
    (v, c) ∈ oneWayCases ↔ c ∈ caseVariants v ∧ v ∉ caseVariants c := by
  have hall : ∀ pair ∈ oneWayCases,
      pair.2 ∈ caseVariants pair.1 ∧ pair.1 ∉ caseVariants pair.2 := by decide +kernel
  constructor
  · exact hall (v, c)
  · rintro ⟨hcase, hnone⟩
    exact (mem_caseVariants_or_oneWayCases hcase).resolve_left hnone

end RegexTrace.Unicode
