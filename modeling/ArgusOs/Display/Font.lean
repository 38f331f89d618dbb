/-
  The 5x7 font: `glyphs` and `font5x7_row` of `font5x7.c`.
-/
import Mathlib.Data.List.Basic

namespace ArgusOs.Display

/-- A character code and its seven rows; bit 4 of a row is its leftmost column. -/
structure Glyph where
  c : UInt8
  row : List UInt8

/-- Digits, capital letters and punctuation, in the order of the table. -/
def glyphs : List Glyph :=
  [⟨0x30, [0x0E,0x11,0x13,0x15,0x19,0x11,0x0E]⟩, ⟨0x31, [0x04,0x0C,0x04,0x04,0x04,0x04,0x0E]⟩,
   ⟨0x32, [0x0E,0x11,0x01,0x02,0x04,0x08,0x1F]⟩, ⟨0x33, [0x1E,0x01,0x01,0x0E,0x01,0x01,0x1E]⟩,
   ⟨0x34, [0x02,0x06,0x0A,0x12,0x1F,0x02,0x02]⟩, ⟨0x35, [0x1F,0x10,0x10,0x1E,0x01,0x01,0x1E]⟩,
   ⟨0x36, [0x0E,0x10,0x10,0x1E,0x11,0x11,0x0E]⟩, ⟨0x37, [0x1F,0x01,0x02,0x04,0x08,0x08,0x08]⟩,
   ⟨0x38, [0x0E,0x11,0x11,0x0E,0x11,0x11,0x0E]⟩, ⟨0x39, [0x0E,0x11,0x11,0x0F,0x01,0x01,0x0E]⟩,
   ⟨0x41, [0x0E,0x11,0x11,0x1F,0x11,0x11,0x11]⟩, ⟨0x42, [0x1E,0x11,0x11,0x1E,0x11,0x11,0x1E]⟩,
   ⟨0x43, [0x0F,0x10,0x10,0x10,0x10,0x10,0x0F]⟩, ⟨0x44, [0x1E,0x11,0x11,0x11,0x11,0x11,0x1E]⟩,
   ⟨0x45, [0x1F,0x10,0x10,0x1E,0x10,0x10,0x1F]⟩, ⟨0x46, [0x1F,0x10,0x10,0x1E,0x10,0x10,0x10]⟩,
   ⟨0x47, [0x0F,0x10,0x10,0x17,0x11,0x11,0x0F]⟩, ⟨0x48, [0x11,0x11,0x11,0x1F,0x11,0x11,0x11]⟩,
   ⟨0x49, [0x0E,0x04,0x04,0x04,0x04,0x04,0x0E]⟩, ⟨0x4A, [0x01,0x01,0x01,0x01,0x11,0x11,0x0E]⟩,
   ⟨0x4B, [0x11,0x12,0x14,0x18,0x14,0x12,0x11]⟩, ⟨0x4C, [0x10,0x10,0x10,0x10,0x10,0x10,0x1F]⟩,
   ⟨0x4D, [0x11,0x1B,0x15,0x15,0x11,0x11,0x11]⟩, ⟨0x4E, [0x11,0x19,0x15,0x13,0x11,0x11,0x11]⟩,
   ⟨0x4F, [0x0E,0x11,0x11,0x11,0x11,0x11,0x0E]⟩, ⟨0x50, [0x1E,0x11,0x11,0x1E,0x10,0x10,0x10]⟩,
   ⟨0x51, [0x0E,0x11,0x11,0x11,0x15,0x12,0x0D]⟩, ⟨0x52, [0x1E,0x11,0x11,0x1E,0x14,0x12,0x11]⟩,
   ⟨0x53, [0x0F,0x10,0x10,0x0E,0x01,0x01,0x1E]⟩, ⟨0x54, [0x1F,0x04,0x04,0x04,0x04,0x04,0x04]⟩,
   ⟨0x55, [0x11,0x11,0x11,0x11,0x11,0x11,0x0E]⟩, ⟨0x56, [0x11,0x11,0x11,0x11,0x11,0x0A,0x04]⟩,
   ⟨0x57, [0x11,0x11,0x11,0x15,0x15,0x15,0x0A]⟩, ⟨0x58, [0x11,0x11,0x0A,0x04,0x0A,0x11,0x11]⟩,
   ⟨0x59, [0x11,0x11,0x0A,0x04,0x04,0x04,0x04]⟩, ⟨0x5A, [0x1F,0x01,0x02,0x04,0x08,0x10,0x1F]⟩,
   ⟨0x2E, [0,0,0,0,0,0x0C,0x0C]⟩, ⟨0x2C, [0,0,0,0,0x0C,0x04,0x08]⟩,
   ⟨0x3A, [0,0x0C,0x0C,0,0x0C,0x0C,0]⟩, ⟨0x3B, [0,0x0C,0x0C,0,0x0C,0x04,0x08]⟩,
   ⟨0x2D, [0,0,0,0x1F,0,0,0]⟩, ⟨0x5F, [0,0,0,0,0,0,0x1F]⟩,
   ⟨0x2B, [0,0x04,0x04,0x1F,0x04,0x04,0]⟩, ⟨0x3D, [0,0,0x1F,0,0x1F,0,0]⟩,
   ⟨0x2F, [0x01,0x02,0x02,0x04,0x08,0x08,0x10]⟩, ⟨0x5C, [0x10,0x08,0x08,0x04,0x02,0x02,0x01]⟩,
   ⟨0x28, [0x02,0x04,0x08,0x08,0x08,0x04,0x02]⟩, ⟨0x29, [0x08,0x04,0x02,0x02,0x02,0x04,0x08]⟩,
   ⟨0x5B, [0x0E,0x08,0x08,0x08,0x08,0x08,0x0E]⟩, ⟨0x5D, [0x0E,0x02,0x02,0x02,0x02,0x02,0x0E]⟩,
   ⟨0x3C, [0x02,0x04,0x08,0x10,0x08,0x04,0x02]⟩, ⟨0x3E, [0x08,0x04,0x02,0x01,0x02,0x04,0x08]⟩,
   ⟨0x21, [0x04,0x04,0x04,0x04,0x04,0,0x04]⟩, ⟨0x3F, [0x0E,0x11,0x01,0x02,0x04,0,0x04]⟩,
   ⟨0x23, [0x0A,0x0A,0x1F,0x0A,0x1F,0x0A,0x0A]⟩, ⟨0x2A, [0,0x0A,0x04,0x1F,0x04,0x0A,0]⟩,
   ⟨0x40, [0x0E,0x11,0x17,0x15,0x17,0x10,0x0E]⟩, ⟨0x25, [0x19,0x19,0x02,0x04,0x08,0x13,0x13]⟩,
   ⟨0x26, [0x0C,0x12,0x14,0x08,0x15,0x12,0x0D]⟩, ⟨0x7C, [0x04,0x04,0x04,0x04,0x04,0x04,0x04]⟩,
   ⟨0x27, [0x04,0x04,0x08,0,0,0,0]⟩, ⟨0x22, [0x0A,0x0A,0x14,0,0,0,0]⟩]

/-- Lower case is drawn as upper case, and an unknown character as a box. -/
def font5x7Row (c : UInt8) (row : Nat) : UInt8 :=
  if row ≥ 7 then 0
  else
    let c := if c ≥ 0x61 ∧ c ≤ 0x7A then c - 0x61 + 0x41 else c
    if c = 0x20 then 0
    else
      match glyphs.find? fun glyph => glyph.c = c with
      | some glyph => glyph.row.getD row 0
      | none => if row = 0 ∨ row = 6 then 0x1F else 0x11

end ArgusOs.Display
