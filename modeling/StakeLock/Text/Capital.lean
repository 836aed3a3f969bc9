/-!
# Capital letters

The code points that have another form in lower case, in the version 16 of Unicode. In some
scripts the capitals stand together, in others each is followed by its small letter.
-/

namespace StakeLock.Text

def capitalRanges : List (Nat × Nat) :=
  [(0x41, 0x5A), (0xC0, 0xD6), (0xD8, 0xDE), (0x181, 0x181), (0x186, 0x187), (0x189, 0x18B),
    (0x18E, 0x191), (0x193, 0x194), (0x196, 0x198), (0x19C, 0x19C), (0x1AC, 0x1AC), (0x1AE, 0x1AF),
    (0x1B1, 0x1B2), (0x1B7, 0x1B8), (0x1BC, 0x1BC), (0x1C4, 0x1C4), (0x1F1, 0x1F1), (0x1F6, 0x1F7),
    (0x23A, 0x23B), (0x23D, 0x23E), (0x241, 0x241), (0x243, 0x245), (0x376, 0x376), (0x37F, 0x37F),
    (0x386, 0x386), (0x388, 0x389), (0x38E, 0x38F), (0x391, 0x3A1), (0x3A3, 0x3AB), (0x3CF, 0x3CF),
    (0x3F4, 0x3F4), (0x3F7, 0x3F7), (0x3F9, 0x3FA), (0x3FD, 0x42F), (0x531, 0x556),
    (0x10A0, 0x10C4), (0x10CD, 0x10CD), (0x13A0, 0x13F5), (0x1C89, 0x1C89), (0x1C90, 0x1CBA),
    (0x1CBD, 0x1CBF), (0x1F08, 0x1F0F), (0x1F18, 0x1F1D), (0x1F28, 0x1F2F), (0x1F38, 0x1F3F),
    (0x1F48, 0x1F4D), (0x1F68, 0x1F6F), (0x1F88, 0x1F8F), (0x1F98, 0x1F9F), (0x1FA8, 0x1FAF),
    (0x1FB8, 0x1FBC), (0x1FC8, 0x1FCC), (0x1FD8, 0x1FDB), (0x1FE8, 0x1FEC), (0x1FF8, 0x1FFC),
    (0x2126, 0x2126), (0x212A, 0x212B), (0x2132, 0x2132), (0x2160, 0x216F), (0x2183, 0x2183),
    (0x24B6, 0x24CF), (0x2C00, 0x2C2F), (0x2C60, 0x2C60), (0x2C62, 0x2C64), (0x2C6D, 0x2C6F),
    (0x2C75, 0x2C75), (0x2C7E, 0x2C7F), (0x2CF2, 0x2CF2), (0xA7AA, 0xA7AE), (0xA7B0, 0xA7B3),
    (0xA7C4, 0xA7C6), (0xA7CB, 0xA7CC), (0xA7D0, 0xA7D0), (0xA7F5, 0xA7F5), (0xFF21, 0xFF3A),
    (0x10400, 0x10427), (0x104B0, 0x104D3), (0x10570, 0x1057A), (0x1057C, 0x1058A),
    (0x1058C, 0x10592), (0x10594, 0x10595), (0x10C80, 0x10CB2), (0x10D50, 0x10D65),
    (0x118A0, 0x118BF), (0x16E40, 0x16E5F), (0x1E900, 0x1E921)]

/-- Ranges of which every second code point is a capital, from the first on. -/
def alternatingRanges : List (Nat × Nat) :=
  [(0x100, 0x136), (0x139, 0x147), (0x14A, 0x178), (0x179, 0x17D), (0x182, 0x184), (0x19D, 0x19F),
    (0x1A0, 0x1A6), (0x1A7, 0x1A9), (0x1B3, 0x1B5), (0x1C5, 0x1C7), (0x1C8, 0x1CA), (0x1CB, 0x1DB),
    (0x1DE, 0x1EE), (0x1F2, 0x1F4), (0x1F8, 0x232), (0x246, 0x24E), (0x370, 0x372), (0x38A, 0x38C),
    (0x3D8, 0x3EE), (0x460, 0x480), (0x48A, 0x4C0), (0x4C1, 0x4CD), (0x4D0, 0x52E),
    (0x10C5, 0x10C7), (0x1E00, 0x1E94), (0x1E9E, 0x1EFE), (0x1F59, 0x1F5F), (0x2C67, 0x2C6B),
    (0x2C70, 0x2C72), (0x2C80, 0x2CE2), (0x2CEB, 0x2CED), (0xA640, 0xA66C), (0xA680, 0xA69A),
    (0xA722, 0xA72E), (0xA732, 0xA76E), (0xA779, 0xA77D), (0xA77E, 0xA786), (0xA78B, 0xA78D),
    (0xA790, 0xA792), (0xA796, 0xA7A8), (0xA7B4, 0xA7C2), (0xA7C7, 0xA7C9), (0xA7D6, 0xA7DC)]

def isCapital (c : Char) : Bool :=
  capitalRanges.any (fun r => r.1 ≤ c.toNat && c.toNat ≤ r.2) ||
    alternatingRanges.any fun r =>
      r.1 ≤ c.toNat && c.toNat ≤ r.2 && c.toNat % 2 == r.1 % 2

end StakeLock.Text
