import ShelfQuery.Text.Classes

set_option autoImplicit false

namespace ShelfQuery.Text

/-- Characters that do not show, or only together with others. -/
def hiddenRanges : Array Range := #[
  (0x00, 0x1F), (0x7F, 0x9F), (0xA0, 0xA0), (0xAD, 0xAD), (0x300, 0x36F), (0x378, 0x379), (0x483, 0x489), (0x591, 0x5BD),
  (0x600, 0x605), (0x610, 0x61C), (0x64B, 0x65F), (0x6D6, 0x6DD), (0x1680, 0x1680), (0x180B, 0x180F),
  (0x1AB0, 0x1ACE), (0x1DC0, 0x1DFF), (0x2000, 0x200F), (0x2028, 0x202F), (0x205F, 0x206F), (0x20D0, 0x20F0),
  (0x3000, 0x3000), (0xD800, 0xF8FF), (0xFE00, 0xFE0F), (0xFE20, 0xFE2F), (0xFEFF, 0xFEFF), (0xFFF0, 0xFFFB),
  (0xFFFE, 0xFFFF), (0xE0000, 0x10FFFF)]

def hexDigits (n : Nat) : List Char := Nat.toDigits 16 n

def escapeHidden (c : Char) : List Char :=
  if c = '"' then ['\\', '"']
  else if c = '\\' then ['\\', '\\']
  else if c = '\n' then ['\\', 'n']
  else if c = '\r' then ['\\', 'r']
  else if c = '\t' then ['\\', 't']
  else if c = Char.ofNat 0 then ['\\', '0']
  else if Range.covers hiddenRanges c || c = ' ' then ['\\', 'u', '\x7b'] ++ hexDigits c.toNat ++ ['\x7d']
  else [c]

def quoted (s : String) : String := String.ofList ('"' :: s.toList.flatMap escapeHidden ++ ['"'])

end ShelfQuery.Text
