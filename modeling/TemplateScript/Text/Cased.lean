import TemplateScript.Text.CharRanges

/-!
# Cased characters

A character is cased when its full upper-case and lower-case forms differ. Words are made of cased
characters, so digits, ideographs and most symbols are not among them.
-/

namespace TemplateScript.Text

/-- The cased characters of Unicode 14. -/
def casedRanges : CharRanges :=
  [(0x41, 0x5a), (0x61, 0x7a), (0xb5, 0xb5), (0xc0, 0xd6), (0xd8, 0xf6), (0xf8, 0x137),
   (0x139, 0x18c), (0x18e, 0x19a), (0x19c, 0x1a9), (0x1ac, 0x1b9), (0x1bc, 0x1bd), (0x1bf, 0x1bf),
   (0x1c4, 0x220), (0x222, 0x233), (0x23a, 0x254), (0x256, 0x257), (0x259, 0x259), (0x25b, 0x25c),
   (0x260, 0x261), (0x263, 0x263), (0x265, 0x266), (0x268, 0x26c), (0x26f, 0x26f), (0x271, 0x272),
   (0x275, 0x275), (0x27d, 0x27d), (0x280, 0x280), (0x282, 0x283), (0x287, 0x28c), (0x292, 0x292),
   (0x29d, 0x29e), (0x345, 0x345), (0x370, 0x373), (0x376, 0x377), (0x37b, 0x37d), (0x37f, 0x37f),
   (0x386, 0x386), (0x388, 0x38a), (0x38c, 0x38c), (0x38e, 0x3a1), (0x3a3, 0x3d1), (0x3d5, 0x3f5),
   (0x3f7, 0x3fb), (0x3fd, 0x481), (0x48a, 0x52f), (0x531, 0x556), (0x561, 0x587),
   (0x10a0, 0x10c5), (0x10c7, 0x10c7), (0x10cd, 0x10cd), (0x10d0, 0x10fa), (0x10fd, 0x10ff),
   (0x13a0, 0x13f5), (0x13f8, 0x13fd), (0x1c80, 0x1c88), (0x1c90, 0x1cba), (0x1cbd, 0x1cbf),
   (0x1d79, 0x1d79), (0x1d7d, 0x1d7d), (0x1d8e, 0x1d8e), (0x1e00, 0x1e9b), (0x1e9e, 0x1e9e),
   (0x1ea0, 0x1f15), (0x1f18, 0x1f1d), (0x1f20, 0x1f45), (0x1f48, 0x1f4d), (0x1f50, 0x1f57),
   (0x1f59, 0x1f59), (0x1f5b, 0x1f5b), (0x1f5d, 0x1f5d), (0x1f5f, 0x1f7d), (0x1f80, 0x1fb4),
   (0x1fb6, 0x1fbc), (0x1fbe, 0x1fbe), (0x1fc2, 0x1fc4), (0x1fc6, 0x1fcc), (0x1fd0, 0x1fd3),
   (0x1fd6, 0x1fdb), (0x1fe0, 0x1fec), (0x1ff2, 0x1ff4), (0x1ff6, 0x1ffc), (0x2126, 0x2126),
   (0x212a, 0x212b), (0x2132, 0x2132), (0x214e, 0x214e), (0x2160, 0x217f), (0x2183, 0x2184),
   (0x24b6, 0x24e9), (0x2c00, 0x2c70), (0x2c72, 0x2c73), (0x2c75, 0x2c76), (0x2c7e, 0x2ce3),
   (0x2ceb, 0x2cee), (0x2cf2, 0x2cf3), (0x2d00, 0x2d25), (0x2d27, 0x2d27), (0x2d2d, 0x2d2d),
   (0xa640, 0xa66d), (0xa680, 0xa69b), (0xa722, 0xa72f), (0xa732, 0xa76f), (0xa779, 0xa787),
   (0xa78b, 0xa78d), (0xa790, 0xa794), (0xa796, 0xa7ae), (0xa7b0, 0xa7ca), (0xa7d0, 0xa7d1),
   (0xa7d6, 0xa7d9), (0xa7f5, 0xa7f6), (0xab53, 0xab53), (0xab70, 0xabbf), (0xfb00, 0xfb06),
   (0xfb13, 0xfb17), (0xff21, 0xff3a), (0xff41, 0xff5a), (0x10400, 0x1044f), (0x104b0, 0x104d3),
   (0x104d8, 0x104fb), (0x10570, 0x1057a), (0x1057c, 0x1058a), (0x1058c, 0x10592),
   (0x10594, 0x10595), (0x10597, 0x105a1), (0x105a3, 0x105b1), (0x105b3, 0x105b9),
   (0x105bb, 0x105bc), (0x10c80, 0x10cb2), (0x10cc0, 0x10cf2), (0x118a0, 0x118df),
   (0x16e40, 0x16e7f), (0x1e900, 0x1e943)]

def isCased (c : Char) : Bool := casedRanges.contains c

end TemplateScript.Text
