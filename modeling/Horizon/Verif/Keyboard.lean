import Horizon.Kernel.Keyboard
/-!
# Which key events a report gives

A held modifier is reported as released whenever another one changes. The search for a keycode in
the other report starts at its own place, so a key that has moved to an earlier place counts as
released or pressed, and so does an empty place.
-/

namespace Horizon.Keyboard

open List

/-- The key is down in the report. -/
def Report.down (report : Report) : Keycode → Prop
  | .modifier i => report.modifierKeys.getLsbD i
  | .keyboard code => code ≠ 0 ∧ ∃ i, report.keycodes i = code

instance (report : Report) : (key : Keycode) → Decidable (report.down key)
  | .modifier _ => inferInstanceAs (Decidable (_ = true))
  | .keyboard _ => inferInstanceAs (Decidable (_ ∧ _))

/-- No key is listed twice. -/
def Distinct (keys : Keys) : Prop := ∀ i j, keys i ≠ 0 → keys i = keys j → i = j

/-- A report that lists no key twice. -/
structure ValidReport extends Report where
  distinct : Distinct keycodes

/-- One press for every key that has come down, one release for every one that has come up, and
nothing else. -/
structure Right (last report : Report) (events : List KeyEvent) : Prop where
  presses : ∀ key, events.count ⟨key, true⟩ =
    if report.down key ∧ ¬ last.down key then 1 else 0
  releases : ∀ key, events.count ⟨key, false⟩ =
    if last.down key ∧ ¬ report.down key then 1 else 0

/-- What the other report also has, empty places included, it has at the same place or later. -/
def Follows (other keys : Keys) : Prop :=
  ∀ i, keys i = 0 ∨ (∃ j, other j = keys i) → ∃ j, i ≤ j ∧ other j = keys i

/-- Held keys and the last empty place stay where they are, and no modifier is held while another
changes. -/
def Steady (last report : Report) : Prop :=
  (report.modifierKeys ≠ last.modifierKeys →
    ∀ i : Fin 8, ¬ (report.modifierKeys.getLsbD i ∧ last.modifierKeys.getLsbD i)) ∧
  Follows last.keycodes report.keycodes ∧ Follows report.keycodes last.keycodes

/-- The handler's events are right for every report. -/
def AllRight : Report → List ValidReport → Prop
  | _, [] => True
  | last, report :: rest =>
    Right last report.toReport (usbHidKeyboardHandler last report.toReport) ∧
      AllRight report.toReport rest

/-- The condition holds between each two reports. -/
def AllSteady : Report → List ValidReport → Prop
  | _, [] => True
  | last, report :: rest => Steady last report.toReport ∧ AllSteady report.toReport rest

theorem found_iff {keys : Keys} {i : Fin 6} {code : UInt8} :
    found keys i code = true ↔ ∃ j, i ≤ j ∧ keys j = code := by
  simp [found]

/-- The places of a keycode from which the search does not find it in the other report. -/
def missed (other keys : Keys) (code : UInt8) : Finset (Fin 6) :=
  {i | keys i = code ∧ found other i code = false}

def change (other keys : Keys) (pressed : Bool) (i : Fin 6) : List KeyEvent :=
  if found other i (keys i) then [] else [⟨.keyboard (keys i), pressed⟩]

section Counting

variable (last report other keys : Keys) (code : UInt8)

theorem keyEvent_eq (i : Fin 6) :
    keyEvent last report i = change last report true i ++ change report last false i := by
  unfold keyEvent change
  split
  · rename_i same
    have left : found last i (report i) = true := found_iff.mpr ⟨i, le_rfl, same.symm⟩
    have right : found report i (last i) = true := found_iff.mpr ⟨i, le_rfl, same⟩
    simp [left, right]
  · rfl

theorem count_change (pressed : Bool) (i : Fin 6) :
    (change other keys pressed i).count ⟨.keyboard code, pressed⟩ =
      if keys i = code ∧ found other i code = false then 1 else 0 := by
  unfold change
  by_cases here : keys i = code
  · rw [here]
    cases found other i code <;> simp
  · simp only [here, false_and, if_false]
    split <;> simp [here]

theorem sum_missed :
    ((finRange 6).map fun i => if keys i = code ∧ found other i code = false then 1 else 0).sum =
      (missed other keys code).card := by
  rw [missed, Finset.card_filter, Fin.sum_univ_def]

theorem keycodes_count :
    ((finRange 6).flatMap (keyEvent last report)).count ⟨.keyboard code, true⟩ =
      (missed last report code).card ∧
    ((finRange 6).flatMap (keyEvent last report)).count ⟨.keyboard code, false⟩ =
      (missed report last code).card := by
  have presses : ∀ i, (change last report true i).count ⟨.keyboard code, false⟩ = 0 := by
    intro i
    unfold change
    split <;> simp
  have releases : ∀ i, (change report last false i).count ⟨.keyboard code, true⟩ = 0 := by
    intro i
    unfold change
    split <;> simp
  simp only [count_flatMap, Function.comp_def, keyEvent_eq, count_append, ← sum_missed,
    count_change, presses, releases, add_zero, zero_add, and_self]

end Counting

theorem missed_right_iff {other keys : Keys} (distinct : Distinct keys) :
    (∀ code, (missed other keys code).card =
      if (code ≠ 0 ∧ ∃ i, keys i = code) ∧ ¬ (code ≠ 0 ∧ ∃ i, other i = code) then 1 else 0) ↔
      Follows other keys := by
  have member : ∀ {i code}, i ∈ missed other keys code ↔
      keys i = code ∧ ¬ ∃ j, i ≤ j ∧ other j = code := by
    intro i code
    rw [missed, Finset.mem_filter, ← found_iff, Bool.not_eq_true]
    exact and_iff_right (Finset.mem_univ i)
  constructor
  · intro all i also
    by_contra absent
    have count := all (keys i)
    rw [if_neg (by tauto), Finset.card_eq_zero] at count
    have here : i ∈ missed other keys (keys i) := member.mpr ⟨rfl, absent⟩
    rw [count] at here
    exact Finset.notMem_empty i here
  · intro follows code
    split
    · rename_i new
      obtain ⟨⟨nonzero, i, here⟩, absent⟩ := new
      refine Finset.card_eq_one.mpr ⟨i, Finset.ext fun k => ?_⟩
      rw [member, Finset.mem_singleton]
      constructor
      · intro there
        exact distinct k i (by rw [there.1]; exact nonzero) (there.1.trans here.symm)
      · rintro rfl
        exact ⟨here, fun there => absent ⟨nonzero, there.choose, there.choose_spec.2⟩⟩
    · rename_i old
      refine Finset.card_eq_zero.mpr (Finset.eq_empty_of_forall_notMem fun k inside => ?_)
      obtain ⟨here, absent⟩ := member.mp inside
      subst here
      exact absent (follows k (by tauto))

theorem modifiers_count (last report : BitVec 8) (i : Fin 8) (pressed : Bool) :
    ((finRange 8).flatMap (modifierEvent last report)).count ⟨.modifier i, pressed⟩ =
      if (report.getLsbD i || last.getLsbD i) ∧ pressed = !last.getLsbD i then 1 else 0 := by
  have one : ∀ k, (modifierEvent last report k).count ⟨.modifier i, pressed⟩ =
      if i = k then
        if (report.getLsbD i || last.getLsbD i) ∧ pressed = !last.getLsbD i then 1 else 0
      else 0 := by
    intro k
    unfold modifierEvent
    by_cases same : i = k
    · subst same
      cases report.getLsbD i <;> cases last.getLsbD i <;> cases pressed <;> simp
    · rw [if_neg same]
      split <;> simp [Ne.symm same]
  simp only [count_flatMap, Function.comp_def, one]
  rw [← Fin.sum_univ_def, Finset.sum_ite_eq, if_pos (Finset.mem_univ i)]

section Handler

variable (last report : Report)

theorem count_modifier (i : Fin 8) (pressed : Bool) :
    (usbHidKeyboardHandler last report).count ⟨.modifier i, pressed⟩ =
      if report.modifierKeys ≠ last.modifierKeys ∧
        (report.modifierKeys.getLsbD i || last.modifierKeys.getLsbD i) ∧
        pressed = !last.modifierKeys.getLsbD i then 1 else 0 := by
  have none : ⟨.modifier i, pressed⟩ ∉ (if last.keycodes ≠ report.keycodes then
      (finRange 6).flatMap (keyEvent last.keycodes report.keycodes) else []) := by
    simp [keyEvent_eq, change]
  rw [usbHidKeyboardHandler, count_append, count_eq_zero_of_not_mem none, Nat.add_zero]
  split
  · rename_i changed
    rw [modifiers_count]
    simp [changed]
  · rename_i same
    simp [same]

theorem count_keycode (code : UInt8) :
    (usbHidKeyboardHandler last report).count ⟨.keyboard code, true⟩ =
      (missed last.keycodes report.keycodes code).card ∧
    (usbHidKeyboardHandler last report).count ⟨.keyboard code, false⟩ =
      (missed report.keycodes last.keycodes code).card := by
  have none : ∀ pressed, ⟨.keyboard code, pressed⟩ ∉
      (if report.modifierKeys ≠ last.modifierKeys then (finRange 8).flatMap
        (modifierEvent last.modifierKeys report.modifierKeys) else []) := by
    simp [modifierEvent]
  have all : (if last.keycodes ≠ report.keycodes then
      (finRange 6).flatMap (keyEvent last.keycodes report.keycodes) else []) =
      (finRange 6).flatMap (keyEvent last.keycodes report.keycodes) := by
    split
    · rfl
    · rename_i same
      rw [not_not.mp same]
      simp [keyEvent]
  simp only [usbHidKeyboardHandler, all, count_append,
    count_eq_zero_of_not_mem (none _), Nat.zero_add]
  exact keycodes_count _ _ code

end Handler

/-- The handler is right exactly when the reports are steady. -/
theorem right_iff_steady {last report : Report} (before : Distinct last.keycodes)
    (now : Distinct report.keycodes) :
    Right last report (usbHidKeyboardHandler last report) ↔ Steady last report := by
  rw [Steady, ← missed_right_iff now, ← missed_right_iff before]
  constructor
  · intro right
    refine ⟨fun changed i both => ?_, fun code => ?_, fun code => ?_⟩
    · have count := right.releases (.modifier i)
      rw [count_modifier] at count
      simp [changed, both, Report.down] at count
    · exact (count_keycode last report code).1.symm.trans (right.presses (.keyboard code))
    · exact (count_keycode last report code).2.symm.trans (right.releases (.keyboard code))
  · rintro ⟨modifiers, press, release⟩
    have modifier : ∀ i : Fin 8, ∀ pressed,
        (usbHidKeyboardHandler last report).count ⟨.modifier i, pressed⟩ =
          if report.modifierKeys.getLsbD i = pressed ∧ last.modifierKeys.getLsbD i ≠ pressed
          then 1 else 0 := by
      intro i pressed
      rw [count_modifier]
      by_cases changed : report.modifierKeys = last.modifierKeys
      · simp [changed]
      · have one := modifiers changed i
        cases now : report.modifierKeys.getLsbD i <;> cases before : last.modifierKeys.getLsbD i <;>
          cases pressed <;> simp [changed, now, before] at one ⊢
    refine ⟨fun key => ?_, fun key => ?_⟩
    · cases key with
      | modifier i => simpa [Report.down] using modifier i true
      | keyboard code => exact (count_keycode last report code).1.trans (press code)
    · cases key with
      | modifier i => simpa [Report.down, and_comm] using modifier i false
      | keyboard code => exact (count_keycode last report code).2.trans (release code)

/-- Every report gives exactly the events of the keys that changed, exactly when held keys and the
last empty place keep their places and no modifier is held while another changes. -/
theorem events_right_iff (reports : List ValidReport) :
    AllRight ⟨0, fun _ => 0⟩ reports ↔ AllSteady ⟨0, fun _ => 0⟩ reports := by
  have all : ∀ last : ValidReport,
      AllRight last.toReport reports ↔ AllSteady last.toReport reports := by
    induction reports with
    | nil => exact fun _ => Iff.rfl
    | cons report rest ih =>
      exact fun last => and_congr (right_iff_steady last.distinct report.distinct) (ih report)
  exact all ⟨⟨0, fun _ => 0⟩, fun _ _ nonzero => absurd rfl nonzero⟩

/-- Keys 4 and 5 are held, then key 4 is released and key 5 moves to the first place. -/
theorem moved_key_released :
    ¬ AllRight ⟨0, fun _ => 0⟩ [⟨⟨0, ![4, 5, 0, 0, 0, 0]⟩, by unfold Distinct; decide⟩,
      ⟨⟨0, ![5, 0, 0, 0, 0, 0]⟩, by unfold Distinct; decide⟩] := by
  intro right
  have wrong := right.2.1.releases (.keyboard 5)
  revert wrong
  decide

end Horizon.Keyboard
