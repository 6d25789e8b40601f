import SplitDns.Name.Punycode

/-!
# International labels

Labels with characters beyond ASCII are brought into one form before they are encoded: letters
become small, compatibility forms and invisible characters give way, and letters are joined with
the accents that follow them. Labels that start with `xn--` must be the encoding of such a form.

Of the scripts with letter case, Latin, Greek, Cyrillic and Armenian letters are mapped; characters
of other scripts stand for themselves.
-/

namespace SplitDns.Idna

def within (low high : Nat) (c : Char) : Bool :=
  low ≤ c.toNat && c.toNat ≤ high

/-- Characters that leave no trace. -/
def isIgnored (c : Char) : Bool :=
  c.toNat == 0xad || c.toNat == 0x34f || within 0x180b 0x180f c || c.toNat == 0x200b ||
    c.toNat == 0x2060 || c.toNat == 0x2064 || within 0xfe00 0xfe0f c || c.toNat == 0xfeff ||
    within 0xe0100 0xe01ef c

/-- Characters that no label may hold: controls, marks of direction, joiners, private use. -/
def isForbidden (c : Char) : Bool :=
  within 0x80 0x9f c || within 0x200c 0x200f c || within 0x2028 0x202e c ||
    within 0x2061 0x2063 c || within 0x2065 0x206f c || within 0xd800 0xf8ff c ||
    within 0xfdd0 0xfdef c || within 0xfff0 0xffff c || within 0xe0000 0xe00ff c ||
    within 0xe01f0 0x10ffff c

/-- Blocks in which capital letters have even code points and are followed by the small ones. -/
def evenCapital (c : Char) : Bool :=
  within 0x100 0x12f c || within 0x132 0x137 c || within 0x14a 0x177 c || within 0x182 0x185 c ||
    within 0x1a0 0x1a5 c || within 0x1de 0x1ef c || within 0x1f8 0x21f c || within 0x222 0x233 c ||
    within 0x246 0x24f c || within 0x370 0x373 c || within 0x3d8 0x3ef c ||
    within 0x460 0x481 c || within 0x48a 0x4bf c || within 0x4d0 0x52f c ||
    within 0x1e00 0x1e95 c || within 0x1ea0 0x1eff c

/-- Blocks in which capital letters have odd code points. -/
def oddCapital (c : Char) : Bool :=
  within 0x139 0x148 c || within 0x179 0x17e c || within 0x1cd 0x1dc c || within 0x4c1 0x4ce c

/-- Characters that give way to others, one by one. -/
def replacements : List (Nat × List Nat) :=
  [(0xa0, [0x20]), (0xa8, [0x20, 0x308]), (0xaa, [0x61]), (0xaf, [0x20, 0x304]), (0xb2, [0x32]),
    (0xb3, [0x33]), (0xb4, [0x20, 0x301]), (0xb5, [0x3bc]), (0xb8, [0x20, 0x327]), (0xb9, [0x31]),
    (0xba, [0x6f]), (0xbc, [0x31, 0x2044, 0x34]), (0xbd, [0x31, 0x2044, 0x32]),
    (0xbe, [0x33, 0x2044, 0x34]), (0x130, [0x69, 0x307]), (0x132, [0x69, 0x6a]),
    (0x133, [0x69, 0x6a]), (0x13f, [0x6c, 0xb7]), (0x140, [0x6c, 0xb7]), (0x149, [0x2bc, 0x6e]),
    (0x178, [0xff]), (0x17f, [0x73]), (0x1c4, [0x64, 0x17e]), (0x1c5, [0x64, 0x17e]),
    (0x1c6, [0x64, 0x17e]), (0x1c7, [0x6c, 0x6a]), (0x1c8, [0x6c, 0x6a]), (0x1c9, [0x6c, 0x6a]),
    (0x1ca, [0x6e, 0x6a]), (0x1cb, [0x6e, 0x6a]), (0x1cc, [0x6e, 0x6a]), (0x386, [0x3ac]),
    (0x388, [0x3ad]), (0x389, [0x3ae]), (0x38a, [0x3af]), (0x38c, [0x3cc]), (0x38e, [0x3cd]),
    (0x38f, [0x3ce]), (0x4c0, [0x4cf]), (0x1e9e, [0x73, 0x73]), (0x2122, [0x74, 0x6d]),
    (0x3002, [0x2e]), (0xff0e, [0x2e]), (0xff61, [0x2e]), (0xfb00, [0x66, 0x66]),
    (0xfb01, [0x66, 0x69]), (0xfb02, [0x66, 0x6c]), (0x2126, [0x3c9]), (0x212a, [0x6b]),
    (0x212b, [0xe5])]

/-- What a character becomes. -/
def mapped (c : Char) : Text :=
  let n := c.toNat
  match replacements.lookup n with
  | some ns => ns.map Char.ofNat
  | none =>
    if isIgnored c then []
    else if n < 128 then [c.toLower]
    else if (within 0xc0 0xde c && n != 0xd7) || within 0x391 0x3a9 c || within 0x410 0x42f c then
      [Char.ofNat (n + 32)]
    else if within 0x400 0x40f c then [Char.ofNat (n + 80)]
    else if within 0x531 0x556 c then [Char.ofNat (n + 48)]
    else if (evenCapital c && n % 2 == 0) || (oddCapital c && n % 2 == 1) then
      [Char.ofNat (n + 1)]
    else if within 0x2160 0x216f c then [Char.ofNat (n + 16)]
    else if within 0x24b6 0x24cf c then [Char.ofNat (n - 0x24b6 + 97)]
    else if within 0x24d0 0x24e9 c then [Char.ofNat (n - 0x24d0 + 97)]
    else if within 0xff01 0xff5e c then [(Char.ofNat (n - 0xfee0)).toLower]
    else [c]

/-! ## Accents -/

/-- Rows of an accent: the letters it joins and the letters it makes of them. -/
def accents : List (Nat × String × String) :=
  [(0x300, "aeinouwy", "àèìǹòùẁỳ"), (0x301, "acegiklmnoprsuwyzæø", "áćéǵíḱĺḿńóṕŕśúẃýźǽǿ"),
    (0x302, "aceghijosuwyz", "âĉêĝĥîĵôŝûŵŷẑ"), (0x303, "aeinouvy", "ãẽĩñõũṽỹ"),
    (0x304, "aegiouy", "āēḡīōūȳ"), (0x306, "aegiouи", "ăĕğĭŏŭй"), (0x307, "acegnz", "ȧċėġṅż"),
    (0x308, "aehiotuwxyеі", "äëḧïöẗüẅẍÿёї"), (0x30a, "auwy", "åůẘẙ"), (0x30b, "ou", "őű"),
    (0x30c, "acdeghijklnorstuz", "ǎčďěǧȟǐǰǩľňǒřšťǔž"), (0x327, "cdeghklnrst", "çḑȩģḩķļņŗşţ"),
    (0x328, "aeiou", "ąęįǫų")]

/-- The letter that a letter and an accent after it make. -/
def joined? (letter accent : Char) : Option Char := do
  let (letters, results) ← accents.lookup accent.toNat
  (letters.toList.zip results.toList).lookup letter

def joinAccents : Text → Text
  | [] => []
  | c :: r =>
    match joinAccents r with
    | [] => [c]
    | d :: s =>
      match joined? c d with
      | some e => e :: s
      | none => c :: d :: s

/-! ## Labels -/

/-- Letters of scripts that run from right to left. -/
def isRightToLeft (c : Char) : Bool :=
  within 0x5be 0x5ff c || within 0x608 0x8ff c || within 0xfb1d 0xfdcf c || within 0xfe70 0xfefc c

def isMark (c : Char) : Bool :=
  within 0x300 0x36f c || within 0x483 0x489 c || within 0x1ab0 0x1aff c ||
    within 0x1dc0 0x1dff c || within 0x20d0 0x20ff c || within 0xfe20 0xfe2f c

/-- A label with letters of right-to-left scripts starts with one and holds no ASCII letters. -/
def oneDirection (label : Text) : Bool :=
  !label.any isRightToLeft || (label.head?.any isRightToLeft && !label.any Char.isAlpha)

/-- Whether a label in its final form is allowed. -/
def isAllowed (label : Text) : Bool :=
  !label.any isForbidden && !label.head?.any isMark && oneDirection label

def normal (label : Text) : Text :=
  joinAccents (label.flatMap mapped)

def aceLead : Text :=
  "xn--".toList

/-- The ASCII form of a label that is in its mapped form. -/
def labelAscii? (label : Text) : Option Text :=
  if label.all Punycode.isAscii then
    match Text.after? aceLead label with
    | none => some label
    | some code => do
      let plain ← Punycode.decode? code
      if !plain.all Punycode.isAscii && normal plain == plain && isAllowed plain &&
          Punycode.encode plain == code
      then some label
      else none
  else if aceLead.isPrefixOf label || !isAllowed label then none
  else some (aceLead ++ Punycode.encode label)

/-- The ASCII form of labels parted by dots. -/
def ascii? (t : Text) : Option Text :=
  ((Text.split (· == '.') (normal t)).mapM labelAscii?).map (Text.join ['.'])

end SplitDns.Idna
