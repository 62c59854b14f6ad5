import RuleScan.Text.Ranges

/-! Scripts of characters, and the characters that a script shares with others. -/

namespace RuleScan.Text

def namedScripts : List NamedRanges :=
  [
    ⟨["Adlm", "Adlam"], Ranges.ofText "2olc.23 4.9 4.1"⟩,
    ⟨["Aghb", "Caucasian_Albanian"], Ranges.ofText "1flc.1f b"⟩,
    ⟨["Ahom"], Ranges.ofText "1j40.q 2.e 4.m"⟩,
    ⟨["Arab", "Arabic"],
      Ranges.ofLines
        ["16o.4 1.5 1.d 1.2 1.v 1.9 b.p 1.2z 1.x 28.1b 6o.x 5.22 1.s 1bv4.dp 2.3z w.f 34.4 1.3q",
         "31f.u 1v.5 8.8 x.5 181s.3 1.q 1.1 1 2 1.9 1.3 1 1 6 4 1 1 1.2 1.1 1 2 1 1 1 1 1.1 1 2.3",
         "1.6 1.3 1.3 1 1.9 1.g 5.2 1.4 1.g 1g.1"]⟩,
    ⟨["Armi", "Imperial_Aramaic"], Ranges.ofText "1g74.l 1.8"⟩,
    ⟨["Armn", "Armenian"], Ranges.ofText "10x.11 2.1d 2.2 1chv.4"⟩,
    ⟨["Avst", "Avestan"], Ranges.ofText "1gqo.1h 3.6"⟩,
    ⟨["Bali", "Balinese"], Ranges.ofText "5c0.24 1.1d"⟩,
    ⟨["Bamu", "Bamum"], Ranges.ofText "www.2f 124o.fs"⟩,
    ⟨["Bass", "Bassa_Vah"], Ranges.ofText "1zo0.t 2.5"⟩,
    ⟨["Batk", "Batak"], Ranges.ofText "5hc.1f 8.3"⟩,
    ⟨["Beng", "Bengali"], Ranges.ofText "1vk.3 1.7 2.1 2.l 1.6 1 3.3 2.8 2.1 2.3 8 4.1 1.4 2.o"⟩,
    ⟨["Bhks", "Bhaiksuki"], Ranges.ofText "1k3k.8 1.18 1.d a.s"⟩,
    ⟨["Bopo", "Bopomofo"], Ranges.ofText "kq.1 93t.16 34.v"⟩,
    ⟨["Brah", "Brahmi"], Ranges.ofText "1hq8.25 4.z 9"⟩,
    ⟨["Brai", "Braille"], Ranges.ofText "7wg.73"⟩,
    ⟨["Bugi", "Buginese"], Ranges.ofText "54w.r 2.1"⟩,
    ⟨["Buhd", "Buhid"], Ranges.ofText "4lc.j"⟩,
    ⟨["Cakm", "Chakma"], Ranges.ofText "1hxc.1g 1.h"⟩,
    ⟨["Cans", "Canadian_Aboriginal"], Ranges.ofText "3y8.hr fk.1x 1ewq.f"⟩,
    ⟨["Cari", "Carian"], Ranges.ofText "1f34.1c"⟩,
    ⟨["Cham"], Ranges.ofText "xkw.1i 9.d 2.9 2.3"⟩,
    ⟨["Cher", "Cherokee"], Ranges.ofText "3vk.2d 2.5 twy.27"⟩,
    ⟨["Chrs", "Chorasmian"], Ranges.ofText "1ho0.r"⟩,
    ⟨["Copt", "Coptic", "Qaac"], Ranges.ofText "rm.d 80g.37 5.6"⟩,
    ⟨["Cpmn", "Cypro_Minoan"], Ranges.ofText "1nyo.2q"⟩,
    ⟨["Cprt", "Cypriot"], Ranges.ofText "1g5c.5 2 1.17 1.1 3 2"⟩,
    ⟨["Cyrl", "Cyrillic"], Ranges.ofText "sg.3o 2.4o 4ls.a 4g 24 38n.v nr4.2n ham.1 18n4.1p x"⟩,
    ⟨["Deva", "Devanagari"], Ranges.ofText "1s0.28 4.e 2.p vhc.v mio.9"⟩,
    ⟨["Diak", "Dives_Akuru"], Ranges.ofText "1ji8.6 2 2.7 1.1 1.t 1.1 2.b 9.9"⟩,
    ⟨["Dogr", "Dogra"], Ranges.ofText "1jb4.1n"⟩,
    ⟨["Dsrt", "Deseret"], Ranges.ofText "1fcw.27"⟩,
    ⟨["Dupl", "Duployan"], Ranges.ofText "2fpc.2y 5.c 3.8 7.9 2.3"⟩,
    ⟨["Egyp", "Egyptian_Hieroglyphs"], Ranges.ofText "1o1s.ut a.32y"⟩,
    ⟨["Elba", "Elbasan"], Ranges.ofText "1fk0.13"⟩,
    ⟨["Elym", "Elymaic"], Ranges.ofText "1hpc.m"⟩,
    ⟨["Ethi", "Ethiopic"],
      Ranges.ofLines
        ["3k0.20 1.3 2.6 1 1.3 2.14 1.3 2.w 1.3 2.6 1 1.3 2.e 1.1k 1.3 2.1u 2.v 3.p 546.m 9.6 1.6",
         "1.6 1.6 1.6 1.6 1.6 1.6 opu.5 2.5 2.5 9.6 1.6 1qk1.6 1.3 1.1 1.e"]⟩,
    ⟨["Geor", "Georgian"], Ranges.ofText "3a8.11 1 5 2.16 1.3 2a8.16 2.2 37k.11 1 5"⟩,
    ⟨["Glag", "Glagolitic"], Ranges.ofText "8ow.2n 2e1s.6 1.g 2.6 1.1 1.4"⟩,
    ⟨["Gong", "Gunjala_Gondi"], Ranges.ofText "1kdc.5 1.1 1.10 1.1 1.5 7.9"⟩,
    ⟨["Gonm", "Masaram_Gondi"], Ranges.ofText "1kao.6 1.1 1.17 3 1.1 1.8 8.9"⟩,
    ⟨["Goth", "Gothic"], Ranges.ofText "1f74.q"⟩,
    ⟨["Gran", "Grantha"], Ranges.ofText "1ibk.3 1.7 2.1 2.l 1.6 1.1 1.4 2.8 2.1 2.2 2 6 5.6 2.6 3.4"⟩,
    ⟨["Grek", "Greek"],
      Ranges.ofLines
        ["og.3 1.2 2.3 1 4 1 1.2 1 1.j 1.1q e.f 4yu.4 1e.4 4.4 2c 8w.l 2.5 2.11 2.5 2.7 1 1 1 1.u",
         "2.1g 1.e 1.d 2.5 1.i 2.2 1.8 87 rb2 gyi.26 h 155r.1x"]⟩,
    ⟨["Gujr", "Gujarati"], Ranges.ofText "22p.2 1.8 1.2 1.l 1.6 1.1 1.4 2.9 1.2 1.2 2 f.3 2.b 7.6"⟩,
    ⟨["Guru", "Gurmukhi"], Ranges.ofText "1z5.2 1.5 4.1 2.l 1.6 1.1 1.1 1.1 2 1.4 4.1 2.2 3 7.3 1 7.g"⟩,
    ⟨["Hang", "Hangul"],
      Ranges.ofText "3cw.73 5ym.1 75.2l 35.u 1t.u nhd.s hv.8mb c.m 4.1c 7tw.u 3.5 2.5 2.5 2.2"⟩,
    ⟨["Hani", "Han"],
      Ranges.ofLines
        ["96o.p 1.2g c.5x 1b 1 p.8 e.3 qs.533 1s.g73 hkw.a5 2.2x n48.1 c.6 sg9.wyn w.3dp 2.4gd",
         "2.5rk f.h9 1wi.f1 15u.3t6 5.6jt"]⟩,
    ⟨["Hano", "Hanunoo"], Ranges.ofText "4kg.k"⟩,
    ⟨["Hatr", "Hatran"], Ranges.ofText "1gbk.i 1.1 5.4"⟩,
    ⟨["Hebr", "Hebrew"], Ranges.ofText "13l.1i 8.q 4.5 1cfc.p 1.4 1 1.1 1.1 1.9"⟩,
    ⟨["Hira", "Hiragana"], Ranges.ofText "9j5.2d 6.2 23q9.7y i t.2 crx"⟩,
    ⟨["Hluw", "Anatolian_Hieroglyphs"], Ranges.ofText "1s00.g6"⟩,
    ⟨["Hmng", "Pahawh_Hmong"], Ranges.ofText "1zpc.1x a.9 1.6 1.k 5.i"⟩,
    ⟨["Hmnp", "Nyiakeng_Puachue_Hmong"], Ranges.ofText "2n0g.18 3.d 2.9 4.1"⟩,
    ⟨["Hung", "Old_Hungarian"], Ranges.ofText "1h1c.1e d.1e 7.5"⟩,
    ⟨["Ital", "Old_Italic"], Ranges.ofText "1f5s.z 9.2"⟩,
    ⟨["Java", "Javanese"], Ranges.ofText "xhc.25 2.9 4.1"⟩,
    ⟨["Kali", "Kayah_Li"], Ranges.ofText "xds.19 1"⟩,
    ⟨["Kana", "Katakana"], Ranges.ofText "9lt.2h 2.2 6o.f 5s.1a 1.2f 14b2.9 1.18 ytu.3 1.6 1.1 1 7z.2 1e e.3"⟩,
    ⟨["Kawi"], Ranges.ofText "1kow.g 1.14 3.s"⟩,
    ⟨["Khar", "Kharoshthi"], Ranges.ofText "1gjk.3 1.1 5.7 1.2 1.s 2.2 4.9 7.8"⟩,
    ⟨["Khmr", "Khmer"], Ranges.ofText "4n4.2l 2.9 6.9 di.v"⟩,
    ⟨["Khoj", "Khojki"], Ranges.ofText "1i4g.h 1.1a"⟩,
    ⟨["Kits", "Khitan_Small_Script"], Ranges.ofText "20o4 5cr.d1 15"⟩,
    ⟨["Knda", "Kannada"], Ranges.ofText "2gw.c 1.2 1.m 1.9 1.4 2.8 1.2 1.3 7.1 5.2 1.3 2.9 1.2"⟩,
    ⟨["Kthi", "Kaithi"], Ranges.ofText "1hts.1u a"⟩,
    ⟨["Lana", "Tai_Tham"], Ranges.ofText "55s.1q 1.s 2.a 6.9 6.d"⟩,
    ⟨["Laoo", "Lao"], Ranges.ofText "2v5.1 1 1.4 1.n 1 1.m 2.4 1 1.6 1.9 2.3"⟩,
    ⟨["Latn", "Latin"],
      Ranges.ofLines
        ["1t.p 6.p 1b f 5.m 1.u 1.cg 13.4 55n.11 6.1c 5.3 5.c 1.1x 1t.73 a9 d g.c 3x.1 6 r h.14",
         "253.v o82.2t 3.29 k.e mo.16 1.8 1.3 fpy.6 t6.p 6.p 1lx.5 1.15 1.8 16it.u 6.5"]⟩,
    ⟨["Lepc", "Lepcha"], Ranges.ofText "5j4.1j 3.e 3.2"⟩,
    ⟨["Limb", "Limbu"], Ranges.ofText "4xs.u 1.b 4.b 4 3.b"⟩,
    ⟨["Lina", "Linear_A"], Ranges.ofText "1fr4.8m 9.l a.7"⟩,
    ⟨["Linb", "Linear_B"], Ranges.ofText "1ekg.b 1.p 1.i 1.1 1.e 2.d y.3e"⟩,
    ⟨["Lisu"], Ranges.ofText "wk0.1b o8g"⟩,
    ⟨["Lyci", "Lycian"], Ranges.ofText "1f28.s"⟩,
    ⟨["Lydi", "Lydian"], Ranges.ofText "1gdc.p 5"⟩,
    ⟨["Mahj", "Mahajani"], Ranges.ofText "1hzk.12"⟩,
    ⟨["Maka", "Makasar"], Ranges.ofText "1ko0.o"⟩,
    ⟨["Mand", "Mandaic"], Ranges.ofText "1mo.r 2"⟩,
    ⟨["Mani", "Manichaean"], Ranges.ofText "1gow.12 4.b"⟩,
    ⟨["Marc", "Marchen"], Ranges.ofText "1k6o.v 2.l 1.d"⟩,
    ⟨["Medf", "Medefaidrin"], Ranges.ofText "20cg.2i"⟩,
    ⟨["Mend", "Mende_Kikakui"], Ranges.ofText "2oe8.5g 2.f"⟩,
    ⟨["Merc", "Meroitic_Cursive"], Ranges.ofText "1ggw.n 4.j 2.19"⟩,
    ⟨["Mero", "Meroitic_Hieroglyphs"], Ranges.ofText "1gg0.v"⟩,
    ⟨["Mlym", "Malayalam"], Ranges.ofText "2kg.c 1.2 1.1e 1.2 1.5 4.f 2.p"⟩,
    ⟨["Modi"], Ranges.ofText "1iww.1w b.9"⟩,
    ⟨["Mong", "Mongolian"], Ranges.ofText "4qo.1 2 1.j 6.2g 7.16 1e45.c"⟩,
    ⟨["Mroo", "Mro"], Ranges.ofText "1zk0.u 1.9 4.1"⟩,
    ⟨["Mtei", "Meetei_Mayek"], Ranges.ofText "xr4.m 5l.19 2.9"⟩,
    ⟨["Mult", "Multani"], Ranges.ofText "1i80.6 1 1.3 1.e 1.a"⟩,
    ⟨["Mymr", "Myanmar"], Ranges.ofText "35s.4f u9s.u 2p.v le8.j"⟩,
    ⟨["Nagm", "Nag_Mundari"], Ranges.ofText "2nrk.15"⟩,
    ⟨["Nand", "Nandinagari"], Ranges.ofText "1jmo.7 2.19 2.a"⟩,
    ⟨["Narb", "Old_North_Arabian"], Ranges.ofText "1gn4.v"⟩,
    ⟨["Nbat", "Nabataean"], Ranges.ofText "1g8w.u 8.8"⟩,
    ⟨["Newa"], Ranges.ofText "1iio.2j 1.4"⟩,
    ⟨["Nkoo", "Nko"], Ranges.ofText "1j4.1m 2.2"⟩,
    ⟨["Nshu", "Nushu"], Ranges.ofText "20o1 cy6.az"⟩,
    ⟨["Ogam", "Ogham"], Ranges.ofText "4g0.s"⟩,
    ⟨["Olck", "Ol_Chiki"], Ranges.ofText "5lc.1b"⟩,
    ⟨["Orkh", "Old_Turkic"], Ranges.ofText "1gxs.20"⟩,
    ⟨["Orya", "Oriya"], Ranges.ofText "269.2 1.7 2.1 2.l 1.6 1.1 1.4 2.8 2.1 2.2 7.2 4.1 1.4 2.h"⟩,
    ⟨["Osge", "Osage"], Ranges.ofText "1fhs.z 4.z"⟩,
    ⟨["Osma", "Osmanya"], Ranges.ofText "1fgg.t 2.9"⟩,
    ⟨["Ougr", "Old_Uyghur"], Ranges.ofText "1hm8.p"⟩,
    ⟨["Palm", "Palmyrene"], Ranges.ofText "1g80.v"⟩,
    ⟨["Pauc", "Pau_Cin_Hau"], Ranges.ofText "1juo.1k"⟩,
    ⟨["Perm", "Old_Permic"], Ranges.ofText "1f80.16"⟩,
    ⟨["Phag", "Phags_Pa"], Ranges.ofText "x8g.1j"⟩,
    ⟨["Phli", "Inscriptional_Pahlavi"], Ranges.ofText "1gtc.i 5.7"⟩,
    ⟨["Phlp", "Psalter_Pahlavi"], Ranges.ofText "1gu8.h 7.3 c.6"⟩,
    ⟨["Phnx", "Phoenician"], Ranges.ofText "1gcg.r 3"⟩,
    ⟨["Plrd", "Miao"], Ranges.ofText "20hs.22 4.1k 7.g"⟩,
    ⟨["Prti", "Inscriptional_Parthian"], Ranges.ofText "1gsg.l 2.7"⟩,
    ⟨["Rjng", "Rejang"], Ranges.ofText "xf4.z b"⟩,
    ⟨["Rohg", "Hanifi_Rohingya"], Ranges.ofText "1h4w.13 8.9"⟩,
    ⟨["Runr", "Runic"], Ranges.ofText "4gw.22 3.a"⟩,
    ⟨["Samr", "Samaritan"], Ranges.ofText "1kw.19 2.e"⟩,
    ⟨["Sarb", "Old_South_Arabian"], Ranges.ofText "1gm8.v"⟩,
    ⟨["Saur", "Saurashtra"], Ranges.ofText "xa8.1x 8.b"⟩,
    ⟨["Sgnw", "SignWriting"], Ranges.ofText "2l8g.i3 f.4 1.e"⟩,
    ⟨["Shaw", "Shavian"], Ranges.ofText "1ff4.1b"⟩,
    ⟨["Shrd", "Sharada"], Ranges.ofText "1i0w.2n 1vk.7"⟩,
    ⟨["Sidd", "Siddham"], Ranges.ofText "1itc.1h 2.11"⟩,
    ⟨["Sind", "Khudawadi"], Ranges.ofText "1i9c.1m 5.9"⟩,
    ⟨["Sinh", "Sinhala"], Ranges.ofText "2o1.2 1.h 3.n 1.8 1 2.6 3 4.5 1 1.7 6.9 2.2 1fcc.j"⟩,
    ⟨["Sogd", "Sogdian"], Ranges.ofText "1hkg.15"⟩,
    ⟨["Sogo", "Old_Sogdian"], Ranges.ofText "1hj4.13"⟩,
    ⟨["Sora", "Sora_Sompeng"], Ranges.ofText "1hw0.o 7.9"⟩,
    ⟨["Soyo", "Soyombo"], Ranges.ofText "1jrk.2a"⟩,
    ⟨["Sund", "Sundanese"], Ranges.ofText "5fk.1r 74.7"⟩,
    ⟨["Sylo", "Syloti_Nagri"], Ranges.ofText "x6o.18"⟩,
    ⟨["Syrc", "Syriac"], Ranges.ofText "1ds.d 1.1n 2.2 7k.a"⟩,
    ⟨["Tagb", "Tagbanwa"], Ranges.ofText "4m8.c 1.2 1.1"⟩,
    ⟨["Takr", "Takri"], Ranges.ofText "1j0g.1l 6.9"⟩,
    ⟨["Tale", "Tai_Le"], Ranges.ofText "500.t 2.4"⟩,
    ⟨["Talu", "New_Tai_Lue"], Ranges.ofText "51c.17 4.p 6.a 3.1"⟩,
    ⟨["Taml", "Tamil"], Ranges.ofText "29u.1 1.5 3.2 1.3 3.1 1 1.1 3.1 3.2 3.b 4.4 3.2 1.3 2 6 e.k 1ih1.1d d"⟩,
    ⟨["Tang", "Tangut"], Ranges.ofText "20o0 v.5bz e8.u 2p.36"⟩,
    ⟨["Tavt", "Tai_Viet"], Ranges.ofText "xog.1u o.4"⟩,
    ⟨["Telu", "Telugu"], Ranges.ofText "2dc.c 1.2 1.m 1.f 2.8 1.2 1.3 7.1 1.2 1.1 2.3 2.9 7.8"⟩,
    ⟨["Tfng", "Tifinagh"], Ranges.ofText "8xc.1j 7.1 e"⟩,
    ⟨["Tglg", "Tagalog"], Ranges.ofText "4jk.l 9"⟩,
    ⟨["Thaa", "Thaana"], Ranges.ofText "1hc.1d"⟩,
    ⟨["Thai"], Ranges.ofText "2rl.1l 5.r"⟩,
    ⟨["Tibt", "Tibetan"], Ranges.ofText "2yo.1z 1.z 4.12 1.z 1.e 1.6 4.1"⟩,
    ⟨["Tirh", "Tirhuta"], Ranges.ofText "1im8.1z 8.9"⟩,
    ⟨["Tnsa", "Tangsa"], Ranges.ofText "1zlc.26 1.9"⟩,
    ⟨["Toto"], Ranges.ofText "2nbk.u"⟩,
    ⟨["Ugar", "Ugaritic"], Ranges.ofText "1f9c.t 1"⟩,
    ⟨["Vaii", "Vai"], Ranges.ofText "wlc.8b"⟩,
    ⟨["Vith", "Vithkuqi"], Ranges.ofText "1fn4.a 1.e 1.6 1.1 1.a 1.e 1.6 1.1"⟩,
    ⟨["Wara", "Warang_Citi"], Ranges.ofText "1jfk.2a c"⟩,
    ⟨["Wcho", "Wancho"], Ranges.ofText "2ncw.1l 5"⟩,
    ⟨["Xpeo", "Old_Persian"], Ranges.ofText "1fa8.z 4.d"⟩,
    ⟨["Xsux", "Cuneiform"], Ranges.ofText "1kw0.pl 2u.32 1.4 b.5f"⟩,
    ⟨["Yezi", "Yezidi"], Ranges.ofText "1hfk.15 1.2 2.1"⟩,
    ⟨["Yiii", "Yi"], Ranges.ofText "vls.wc 3.1i"⟩,
    ⟨["Zanb", "Zanabazar_Square"], Ranges.ofText "1jpc.1z"⟩,
    ⟨["Zinh", "Inherited", "Qaai"],
      Ranges.ofLines
        ["lc.33 7p.1 ck.a q kg.3 3ff.19 2.b dg.2 1.c 1.6 4 6 3.1 5i.1r ek.1 5e.w 309.3 2z.1 14kl.f",
         "g.d r3 6a 38a 1138.19 2.m f4.2 h.7 2.6 u.3 h45u.6n"]⟩,
    ⟨["Zyyy", "Common"],
      Ranges.ofLines
        ["0.1s q.5 q.1a 1.e 1.4 n v ch.12 5.4 2.j 38 9 6 1 hp 6 e 3 w 4c ec 3l.1 yh b9.3 82 167.2",
         "1z.1 5n.1 1 y5 d 7.3 1.5 1.2 2 lh.b 2.2e 1.a 3.a 1.e h.x 1q.11 1.2 2.5 1.q 1.g 15.2 4.ih",
         "m.a l.pr 74.hf 2.3t e8.2l b6.k 1 1.o f.7 4.3 2j.1 3 2i.1 43.f w.11 9 1c.1r v.28 1b 2g.4n",
         "534.1r hkw.x 2u.2 4l.9 6s 4g az e.1 g5u.1 5s.9 m.y 1.i 1.3 43 1.v q.5 q.a a 19.1 1s.6",
         "1.6 a.4 76.2 4.18 3.8 28.c 1f.18 6c.q 10o4.3 318.70 3.c3 6.m f.g 2n.37 1o.6t a.12 2.1p",
         "3.g 8.1 7.t 4.1o 5x.j c.j c.2e 9.o 3r.2c 1.1y 1.1 2 2.1 2.3 1.b 1 1.6 1.1s 1.3 2.7 1.6",
         "1.r 1.3 1.4 1 3.6 1.9f 2.83 2.1d 41d.1v 24.1o jm.17 4.2r c.e 2.e 1.e 1.10 a.4t 1k.p 1.1",
         "d.17 4.8 7.1 e.5 4a.rc 3.g 3.c 3.61 6.b 4 f.b 4.1j 8.9 6.13 8.t 2.b 4.1 e.8 13.9j 8.d",
         "2.c 3.a 3.1k 1 4.f 2.b 4.9 7.42 1.2u gvly u.2n"]⟩,
    ⟨["Gara", "Garay"], Ranges.ofText "1h6o.11 3.s 8.1"⟩,
    ⟨["Gukh", "Gurung_Khema"], Ranges.ofText "1xq8.1l"⟩,
    ⟨["Krai", "Kirat_Rai"], Ranges.ofText "205c.1l"⟩,
    ⟨["Onao", "Ol_Onal"], Ranges.ofText "2nyo.16 4"⟩,
    ⟨["Sunu", "Sunuwar"], Ranges.ofText "1k1s.x e.9"⟩,
    ⟨["Todr", "Todhri"], Ranges.ofText "1fpc.1f"⟩,
    ⟨["Tutg", "Tulu_Tigalari"], Ranges.ofText "1if4.9 1 2 1.11 1.9 1 2 1.3 1.9 1.1 8.1"⟩,
    ⟨["Berf", "Beria_Erfe"], Ranges.ofText "20f4.o 2.o"⟩,
    ⟨["Sidt", "Sidetic"], Ranges.ofText "1ge8.p"⟩,
    ⟨["Tayo", "Tai_Yo"], Ranges.ofText "2o5c.u 1.l 8.1"⟩,
    ⟨["Tols", "Tolong_Siki"], Ranges.ofText "1kfk.17 4.9"⟩
  ]

/-- The scripts, with that of the characters that have none. -/
def scripts : List NamedRanges :=
  namedScripts ++ [⟨["Zzzz", "Unknown"], Ranges.all.minus (namedScripts.flatMap (·.ranges))⟩]

/-- Characters of other scripts, common ones or inherited ones that a script uses too. -/
def sharedCharacters : List NamedRanges :=
  [
    ⟨["Adlm"], Ranges.ofText "17j w 55a 2r5"⟩,
    ⟨["Aghb"], Ranges.ofText "lg 18 18"⟩,
    ⟨["Arab"], Ranges.ofText "170 e 3 w a.a q 53y 2r5 14vw.1 140.r"⟩,
    ⟨["Armn"], Ranges.ofText "lk"⟩,
    ⟨["Avst"], Ranges.ofText "53 8zc.1"⟩,
    ⟨["Beng"], Ranges.ofText "jg 1as.1 h.1 3u2 1 2.1 1 8 8 2 4 2.2 rnd"⟩,
    ⟨["Bopo"], Ranges.ofText "jr 1.2 d 8x3.2 4.9 1.c a.3 2 6 5f 14jt.1 7u.4"⟩,
    ⟨["Bugi"], Ranges.ofText "xjj"⟩,
    ⟨["Buhd"], Ranges.ofText "4l1.1"⟩,
    ⟨["Cakm"], Ranges.ofText "1ye.9 18w.9"⟩,
    ⟨["Cari"], Ranges.ofText "53 68y 2 2qb"⟩,
    ⟨["Cher"], Ranges.ofText "lc.2 1 6.1 m.1 b.1"⟩,
    ⟨["Copt"], Ranges.ofText "53 g8 3.1 1 30.1 8f5 1614.r"⟩,
    ⟨["Cpmn"], Ranges.ofText "1erk.1"⟩,
    ⟨["Cprt"], Ranges.ofText "1erk.2 4.18 3.8"⟩,
    ⟨["Cyrl"], Ranges.ofText "jg 1v.2 1 1 1 2 5 ab.1 50x 37u"⟩,
    ⟨["Deva"], Ranges.ofText "jg 1as.1 h.1 3u2.12 1.1 s6 qpr.9"⟩,
    ⟨["Dogr"], Ranges.ofText "1us.b vcw.9"⟩,
    ⟨["Dupl"], Ranges.ofText "53 gf.1 1 o.1 8if 26oz.3"⟩,
    ⟨["Elba"], Ranges.ofText "53 gd"⟩,
    ⟨["Ethi"], Ranges.ofText "lq"⟩,
    ⟨["Geor"], Ranges.ofText "53 y9 29d 31a 2qe"⟩,
    ⟨["Glag"], Ranges.ofText "53 gb 1 am 2 75 29d 31a 2qw nqj"⟩,
    ⟨["Gong"], Ranges.ofText "53 1po.1"⟩,
    ⟨["Gonm"], Ranges.ofText "1us.1"⟩,
    ⟨["Goth"], Ranges.ofText "53 gc.1 2 14"⟩,
    ⟨["Gran"], Ranges.ofText "1u9.1 h.1 hs.d 3bw 1.1 u.2 3.1 s6 1buy 2hg.1 1"⟩,
    ⟨["Grek"], Ranges.ofText "53 g8.1 2 1 1 a 1a 2 1a 56z.1 ij"⟩,
    ⟨["Gujr"], Ranges.ofText "1u9.1 h.1 vd6.9"⟩,
    ⟨["Guru"], Ranges.ofText "1u9.1 h.1 vd6.9"⟩,
    ⟨["Hang"], Ranges.ofText "9hd.2 4.9 1.c g 6 5f 14jt.1 7u.4"⟩,
    ⟨["Hani"],
      Ranges.ofLines
        ["53 9bs.f 1.2 2 1.9 1.c a.3 2 6 4.3 57 44.f w.11 9 1c.13 1k.1c f.b 1f 2g.o a.4 2o.u mpt.7",
         "h8d.1 7u.4 15ve.h 63i.1"]⟩,
    ⟨["Hano"], Ranges.ofText "4l1.1"⟩,
    ⟨["Hebr"], Ranges.ofText "lj.1"⟩,
    ⟨["Hira"], Ranges.ofText "9hd.2 4.9 1.c g.5 1 4.1 2j.3 3 2i.1 14js.1 7u.4 a 19.1"⟩,
    ⟨["Hung"], Ranges.ofText "6e2 2 2qb f"⟩,
    ⟨["Java"], Ranges.ofText "xjj"⟩,
    ⟨["Kali"], Ranges.ofText "xf2"⟩,
    ⟨["Kana"], Ranges.ofText "lh t 8v1.2 4.9 1.c g.5 1 4.1 2j.3 3 2i.1 14js.1 7u.4 a 19.1"⟩,
    ⟨["Khoj"], Ranges.ofText "25i.9 v28.9"⟩,
    ⟨["Knda"], Ranges.ofText "1u9.1 h.1 3u2 1.1 6 n 1 ri3.5"⟩,
    ⟨["Kthi"], Ranges.ofText "1uu.9 79d o3i.9"⟩,
    ⟨["Latn"],
      Ranges.ofText "53 ec a 1.2 1 9 1 12.e 1.1 1 f.2 7.1 1.1 12 5 4.c 7p.1 y2.1 1ig 2kc fq 5c 2li nvs.7 fa"⟩,
    ⟨["Limb"], Ranges.ofText "1ut"⟩,
    ⟨["Lina"], Ranges.ofText "1err.18"⟩,
    ⟨["Linb"], Ranges.ofText "1erk.2 4.18 3.8"⟩,
    ⟨["Lisu"], Ranges.ofText "jg g 8xo.1"⟩,
    ⟨["Lyci"], Ranges.ofText "6e2"⟩,
    ⟨["Lydi"], Ranges.ofText "53 8zd"⟩,
    ⟨["Mahj"], Ranges.ofText "53 1po.b vcw.9"⟩,
    ⟨["Mand"], Ranges.ofText "18g"⟩,
    ⟨["Mani"], Ranges.ofText "18g"⟩,
    ⟨["Mero"], Ranges.ofText "6e5"⟩,
    ⟨["Mlym"], Ranges.ofText "1u9.1 h.1 3uc n ri5.2"⟩,
    ⟨["Modi"], Ranges.ofText "x80.9"⟩,
    ⟨["Mong"], Ranges.ofText "4qq.1 1 1m1 34h.1 5.3"⟩,
    ⟨["Mult"], Ranges.ofText "21y.9"⟩,
    ⟨["Mymr"], Ranges.ofText "xf2"⟩,
    ⟨["Nand"], Ranges.ofText "1u9 i.1 ow.9 35l 8 7 rhx.5"⟩,
    ⟨["Newa"], Ranges.ofText "1u9.1 3uq 1.1 9 6 1 1"⟩,
    ⟨["Nkoo"], Ranges.ofText "170 e 3 1cta.1"⟩,
    ⟨["Orkh"], Ranges.ofText "6e2 2qd"⟩,
    ⟨["Orya"], Ranges.ofText "1u9.1 h.1 3uc n"⟩,
    ⟨["Osge"], Ranges.ofText "ld 2 6 24"⟩,
    ⟨["Ougr"], Ranges.ofText "18g 1fht"⟩,
    ⟨["Perm"], Ranges.ofText "53 g8 5.2 a a7"⟩,
    ⟨["Phag"], Ranges.ofText "4qq.1 1 1m1 34i"⟩,
    ⟨["Phlp"], Ranges.ofText "18g"⟩,
    ⟨["Rohg"], Ranges.ofText "170 e 3 w 43"⟩,
    ⟨["Runr"], Ranges.ofText "4iz.2"⟩,
    ⟨["Samr"], Ranges.ofText "94h"⟩,
    ⟨["Shaw"], Ranges.ofText "53"⟩,
    ⟨["Shrd"], Ranges.ofText "1u9 3ut 1 2.1 2 9 2 ria.5 2"⟩,
    ⟨["Sind"], Ranges.ofText "1us.1 vd6.9"⟩,
    ⟨["Sinh"], Ranges.ofText "1us.1 3v0"⟩,
    ⟨["Sogd"], Ranges.ofText "18g"⟩,
    ⟨["Sylo"], Ranges.ofText "1us.1 3k.9"⟩,
    ⟨["Syrc"], Ranges.ofText "lf.1 2.1 1 o.2 7.1 1.1 ka e.1 2 w a.a q 4nb 1"⟩,
    ⟨["Tagb"], Ranges.ofText "4l1.1"⟩,
    ⟨["Takr"], Ranges.ofText "1us.1 vd6.9"⟩,
    ⟨["Tale"], Ranges.ofText "lc.1 5.1 3 2lv.9"⟩,
    ⟨["Taml"], Ranges.ofText "1u9.1 h.1 3uc ro8 ky5 1 1j.1"⟩,
    ⟨["Tang"], Ranges.ofText "9gw.f dr"⟩,
    ⟨["Telu"], Ranges.ofText "1u9.1 h.1 3u7.1 1 1 n"⟩,
    ⟨["Tfng"], Ranges.ofText "le 1 1.3 p"⟩,
    ⟨["Tglg"], Ranges.ofText "4l1.1"⟩,
    ⟨["Thaa"], Ranges.ofText "170 e.1 2 1s.9 1cw8 a"⟩,
    ⟨["Thai"], Ranges.ofText "jg q 17 19"⟩,
    ⟨["Tibt"], Ranges.ofText "9hk.3"⟩,
    ⟨["Tirh"], Ranges.ofText "1u9.1 h.1 3u7 c f ri5.9"⟩,
    ⟨["Toto"], Ranges.ofText "jg"⟩,
    ⟨["Yezi"], Ranges.ofText "170 e 3 1s.9"⟩,
    ⟨["Yiii"], Ranges.ofText "9hd.1 5.9 2.7 67 14rp.4"⟩,
    ⟨["Gara"], Ranges.ofText "170 e 3"⟩,
    ⟨["Gukh"], Ranges.ofText "1ut"⟩,
    ⟨["Onao"], Ranges.ofText "1us.1"⟩,
    ⟨["Sunu"], Ranges.ofText "lc.1 1 9 2 s 3"⟩,
    ⟨["Todr"], Ranges.ofText "ld 2 2 9 1 22"⟩,
    ⟨["Tutg"], Ranges.ofText "2jq.9 35u 1 ri3.5 57"⟩
  ]

/-- The characters that a script uses. What is common or inherited is left out where the scripts that use it are
known. -/
def NamedRanges.extended (s : NamedRanges) : NamedRanges :=
  if s.names.contains "Zyyy" || s.names.contains "Zinh" then
    { s with ranges := s.ranges.minus (sharedCharacters.flatMap (·.ranges)) }
  else { s with ranges := s.ranges ++ (s.names.findSome? (NamedRanges.find? sharedCharacters)).getD [] }

def scriptExtensions : List NamedRanges := scripts.map (·.extended)

end RuleScan.Text
