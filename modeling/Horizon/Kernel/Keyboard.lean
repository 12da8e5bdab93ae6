import Mathlib
/-!
# USB keyboard reports

`usb_hid_keyboard_handler` (`drivers/usb/hid/keyboard.c`) compares a report with the last one and
passes key events on. Only transfers with the status ACK come here, and the page of all events is
that of the keyboard.
-/

namespace Horizon.Keyboard

/-- The six key codes of a report. -/
abbrev Keys := Fin 6 → UInt8

/-- A `UsbHidKeyboardReport`; `last_keys` holds the modifiers and keycodes of the last one. -/
structure Report where
  modifierKeys : BitVec 8
  keycodes : Keys
  deriving DecidableEq

/-- `INPUT_KEY_EVENT_MODIFIER_BASE`, which is 8, plus the number of a modifier, or
`INPUT_KEY_EVENT_KEYBOARD_BASE`, which is 16, plus a keycode of the report. -/
inductive Keycode where
  | modifier (i : Fin 8)
  | keyboard (code : UInt8)
  deriving DecidableEq

/-- A key goes down or up. -/
structure KeyEvent where
  keycode : Keycode
  pressed : Bool
  deriving DecidableEq

def modifierEvent (last report : BitVec 8) (i : Fin 8) : List KeyEvent :=
  if report.getLsbD i || last.getLsbD i then [⟨.modifier i, !last.getLsbD i⟩] else []

/-- What the loop over `j` finds; it starts at the place of the keycode. -/
def found (keys : Keys) (i : Fin 6) (code : UInt8) : Bool :=
  (List.finRange 6).any fun j => i ≤ j && keys j == code

def keyEvent (last report : Keys) (i : Fin 6) : List KeyEvent :=
  if report i = last i then []
  else
    (if found last i (report i) then [] else [⟨.keyboard (report i), true⟩]) ++
      if found report i (last i) then [] else [⟨.keyboard (last i), false⟩]

/-- `usb_hid_keyboard_handler`. -/
def usbHidKeyboardHandler (last report : Report) : List KeyEvent :=
  (if report.modifierKeys ≠ last.modifierKeys then
    (List.finRange 8).flatMap (modifierEvent last.modifierKeys report.modifierKeys) else []) ++
  if last.keycodes ≠ report.keycodes then
    (List.finRange 6).flatMap (keyEvent last.keycodes report.keycodes) else []

end Horizon.Keyboard
