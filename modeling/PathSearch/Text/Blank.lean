import PathSearch.Text.Basic

namespace PathSearch.Text

/-- The Unicode spaces, together with the controls that separate lines, files, groups, records and
units. Zero-width characters are not among them. -/
def isBlank (character : Char) : Bool :=
  let code := character.toNat
  (0x09 ≤ code && code ≤ 0x0D) || (0x1C ≤ code && code ≤ 0x20) || code == 0x85 || code == 0xA0 ||
    code == 0x1680 || (0x2000 ≤ code && code ≤ 0x200A) || code == 0x2028 || code == 0x2029 ||
    code == 0x202F || code == 0x205F || code == 0x3000

def strip (text : Text) : Text := text.trim isBlank

def stripRight (text : Text) : Text := text.trimRight isBlank

end PathSearch.Text
