import RuleScan.Text.Property

/-! Emoji, among them those that are written as several characters: with a variation selector, a skin tone or a
joiner between parts. -/

namespace RuleScan.Text

/-- A set of strings; those of one character are given as ranges. -/
structure StringSet where
  ranges : Ranges := []
  strings : List (List Nat) := []

namespace StringSet

def append (a b : StringSet) : StringSet := ⟨a.ranges ++ b.ranges, a.strings ++ b.strings⟩

end StringSet

namespace Emoji

def codes (s : String) : List Nat := s.toList.map (·.toNat)

/-- The selector that asks for a colourful form. -/
def selector : Nat := 0xFE0F

def joiner : Nat := 0x200D

def tones : List Nat := [0x1F3FB, 0x1F3FC, 0x1F3FD, 0x1F3FE, 0x1F3FF]

def plain (s : String) : List (List Nat) := (codes s).map ([·])

def selected (s : String) : List (List Nat) := (codes s).map ([·, selector])

def inTones (s : String) : List (List Nat) := (codes s).flatMap fun c => tones.map ([c, ·])

/-- Each character without a skin tone and in each of them. -/
def toned (s : String) : List (List Nat) := plain s ++ inTones s

/-- One choice for each part, with joiners between them. -/
def joined : List (List (List Nat)) → List (List Nat)
  | [] => []
  | [last] => last
  | first :: rest => first.flatMap fun a => (joined rest).map fun b => a ++ joiner :: b

/-- Two people in skin tones that differ. -/
def unlike (first : Nat) (between : List (List Nat)) (last : Nat) : List (List Nat) :=
  tones.flatMap fun a =>
    (tones.filter (· != a)).flatMap fun b => joined ([[first, a]] :: between.map ([·]) ++ [[[last, b]]])

/-- Two people in any skin tones, or in none. -/
def couple (first : Nat) (between : List (List Nat)) (last : Nat) : List (List Nat) :=
  joined ([[first]] :: between.map ([·]) ++ [[[last]]]) ++
    tones.flatMap fun a => tones.flatMap fun b => joined ([[first, a]] :: between.map ([·]) ++ [[[last, b]]])

def man : Nat := 0x1F468

def woman : Nat := 0x1F469

def person : Nat := 0x1F9D1

def genders : List (List Nat) := selected "♀♂"

def toTheRight : List (List Nat) := selected "➡"

/-- People with what they work with or what their hair is like. -/
def roles : List (List Nat) :=
  joined [toned "👨👩🧑", selected "⚕⚖✈" ++ plain "🌾🍳🍼🎓🎤🎨🏫🏭💻💼🔧🔬🚀🚒🦯🦰🦱🦲🦳🦼🦽"] ++
    joined [toned "🧑", plain "🎄🩰"] ++ joined [toned "👨👩🧑", plain "🦯🦼🦽", toTheRight]

/-- What men and women do. -/
def activities : List (List Nat) :=
  joined [toned "🏃🏄🏊👮👯👰👱👳👷💁💂💆💇🙅🙆🙇🙋🙍🙎🚣🚴🚵🚶🤦🤵🤷🤸🤹🤼🤽🤾🦸🦹🧍🧎🧏🧔🧖🧗🧘🧙🧚🧛🧜🧝" ++ plain "🧞🧟", genders] ++
    joined [selected "⛹🏋🏌🕵" ++ inTones "⛹🏋🏌🕵", genders] ++
    joined [toned "🏃🚶🧎", toTheRight] ++ joined [toned "🏃🚶🧎", genders, toTheRight]

/-- A heart between two people, or a heart and a kiss. -/
def couples : List (List Nat) :=
  [[[0x2764, selector]], [[0x2764, selector], [0x1F48B]]].flatMap fun between =>
    couple man between man ++ couple woman between man ++ couple woman between woman ++ unlike person between person

/-- Two people hand in hand, as dancers or in a fight, and a handshake. -/
def pairs : List (List Nat) :=
  couple person [[0x1F91D]] person ++ unlike man [[0x1F91D]] man ++ unlike woman [[0x1F91D]] man ++
    unlike woman [[0x1F91D]] woman ++
    ([0x1F430, 0x1FAEF].flatMap fun between => [man, woman, person].flatMap fun c => unlike c [[between]] c) ++
    unlike 0x1FAF1 [] 0x1FAF2

/-- One or two parents with one or two children. -/
def families : List (List Nat) :=
  let parents := plain "👨👩" ++ joined [plain "👨", plain "👨👩"] ++ joined [plain "👩", plain "👩"]
  let children := plain "👦👧" ++ joined [plain "👧", plain "👦👧"] ++ joined [plain "👦", plain "👦"]
  joined [parents, children] ++
    joined [plain "🧑" ++ joined [plain "🧑", plain "🧑"], plain "🧒" ++ joined [plain "🧒", plain "🧒"]]

def compounds : List (List Nat) :=
  joined [selected "⛓", plain "💥"] ++ joined [selected "❤", plain "🔥🩹"] ++ joined [plain "🍄", plain "🟫"] ++
    joined [plain "🍋", plain "🟩"] ++ joined [selected "🏳", selected "⚧" ++ plain "🌈"] ++
    joined [plain "🏴", selected "☠"] ++ joined [plain "🐈", plain "⬛"] ++ joined [plain "🐕", plain "🦺"] ++
    joined [plain "🐦", plain "⬛🔥"] ++ joined [plain "🐻", selected "❄"] ++ joined [selected "👁", selected "🗨"] ++
    joined [plain "😮", plain "💨"] ++ joined [plain "😵", plain "💫"] ++ joined [plain "😶", selected "🌫"] ++
    joined [plain "🙂", selected "↔↕"]

/-- The regions that have a flag, by two letters. -/
def regions : List String :=
  ["AC AD AE AF AG AI AL AM AO AQ AR AS AT AU AW AX AZ BA BB BD BE BF BG BH BI BJ BL BM BN BO BQ BR BS BT BV BW BY BZ",
   "CA CC CD CF CG CH CI CK CL CM CN CO CP CQ CR CU CV CW CX CY CZ DE DG DJ DK DM DO DZ EA EC EE EG EH ER ES ET EU FI",
   "FJ FK FM FO FR GA GB GD GE GF GG GH GI GL GM GN GP GQ GR GS GT GU GW GY HK HM HN HR HT HU IC ID IE IL IM IN IO IQ",
   "IR IS IT JE JM JO JP KE KG KH KI KM KN KP KR KW KY KZ LA LB LC LI LK LR LS LT LU LV LY MA MC MD ME MF MG MH MK ML",
   "MM MN MO MP MQ MR MS MT MU MV MW MX MY MZ NA NC NE NF NG NI NL NO NP NR NU NZ OM PA PE PF PG PH PK PL PM PN PR PS",
   "PT PW PY QA RE RO RS RU RW SA SB SC SD SE SG SH SI SJ SK SL SM SN SO SR SS ST SV SX SY SZ TA TC TD TF TG TH TJ TK",
   "TL TM TN TO TR TT TV TW TZ UA UG UM UN US UY UZ VA VC VE VG VI VN VU WF WS XK YE YT ZA ZM ZW"]

/-- A flag is written with the indicators of the letters of its region. -/
def flags : List (List Nat) := (regions.flatMap (·.splitOn " ")).map fun region => (codes region).map (· + 0x1F1A5)

/-- The flags of parts of a country are a black flag with letters as tags. -/
def taggedFlags : List (List Nat) :=
  ["gbeng", "gbsct", "gbwls"].map fun part => 0x1F3F4 :: (codes part).map (· + 0xE0000) ++ [0xE007F]

def keycaps : List (List Nat) := (codes "#*0123456789").map ([·, selector, 0x20E3])

/-- Single emoji: those that are colourful by themselves, and the others with a selector. -/
def basic : StringSet where
  ranges := (primary "Emoji_Presentation").minus (primary "Regional_Indicator")
  strings :=
    let pale := (primary "Emoji").minus (primary "Emoji_Presentation" ++ [(35, 35), (42, 42), (48, 57)])
    pale.flatMap fun (first, last) => (List.range' first (last + 1 - first)).map ([·, selector])

/-- A family has no skin tone. -/
def modified : List (List Nat) :=
  let bases := (primary "Emoji_Modifier_Base").without (0x1F46A, 0x1F46A)
  bases.flatMap fun (first, last) => (List.range' first (last + 1 - first)).flatMap fun c => tones.map ([c, ·])

def sequences : List (List Nat) := roles ++ activities ++ couples ++ pairs ++ families ++ compounds

end Emoji

/-- The properties of strings by name. -/
def stringProperties : List (String × StringSet) :=
  let parts : List (String × StringSet) :=
    [("Basic_Emoji", Emoji.basic), ("Emoji_Keycap_Sequence", ⟨[], Emoji.keycaps⟩),
      ("RGI_Emoji_Modifier_Sequence", ⟨[], Emoji.modified⟩), ("RGI_Emoji_Flag_Sequence", ⟨[], Emoji.flags⟩),
      ("RGI_Emoji_Tag_Sequence", ⟨[], Emoji.taggedFlags⟩), ("RGI_Emoji_ZWJ_Sequence", ⟨[], Emoji.sequences⟩)]
  parts ++ [("RGI_Emoji", parts.foldl (fun all part => all.append part.2) ⟨[], []⟩)]

end RuleScan.Text
