import CodeIndex.Text.Ranges
import CodeIndex.Text.Utf8

/-!
# Search terms

Full text search compares terms, not characters. A term is a maximal run of letters and numbers,
written without capitals and, for Latin letters, without accents, so that a query finds every
spelling of a word. An accent that stands as a character of its own inside a term leaves no trace.

  isTermChar   the characters a term starts with
  fold         the small letter without accent that stands for a character
  terms        the terms of a text, in order
-/

namespace CodeIndex.Text

/-! ## §1. The tables. -/

/-- Boundaries of the letters, numbers and private use characters that make up terms. -/
def termBounds : Array Nat := #[
  48, 58, 65, 91, 97, 123, 170, 171, 178, 180, 181, 182, 185, 187, 188, 191, 192, 215, 216, 247,
  248, 706, 710, 722, 736, 741, 748, 749, 750, 751, 880, 885, 886, 894, 895, 900, 902, 903, 904,
  1014, 1015, 1154, 1162, 1370, 1376, 1417, 1419, 1423, 1424, 1425, 1480, 1523, 1525, 1536, 1541,
  1542, 1564, 1566, 1568, 1611, 1632, 1642, 1646, 1648, 1649, 1748, 1749, 1750, 1765, 1767, 1774,
  1789, 1791, 1792, 1806, 1807, 1808, 1809, 1810, 1840, 1867, 1958, 1969, 2027, 2036, 2038, 2042,
  2070, 2074, 2075, 2084, 2085, 2088, 2089, 2094, 2096, 2111, 2137, 2140, 2142, 2143, 2276, 2303,
  2304, 2308, 2362, 2365, 2366, 2384, 2385, 2392, 2402, 2406, 2416, 2417, 2433, 2436, 2492, 2493,
  2494, 2501, 2503, 2505, 2507, 2510, 2519, 2520, 2530, 2532, 2546, 2548, 2554, 2556, 2561, 2564,
  2620, 2621, 2622, 2627, 2631, 2633, 2635, 2638, 2641, 2642, 2672, 2674, 2677, 2678, 2689, 2692,
  2748, 2749, 2750, 2758, 2759, 2762, 2763, 2766, 2786, 2788, 2800, 2802, 2817, 2820, 2876, 2877,
  2878, 2885, 2887, 2889, 2891, 2894, 2902, 2904, 2914, 2916, 2928, 2929, 2946, 2947, 3006, 3011,
  3014, 3017, 3018, 3022, 3031, 3032, 3059, 3067, 3073, 3076, 3134, 3141, 3142, 3145, 3146, 3150,
  3157, 3159, 3170, 3172, 3199, 3200, 3202, 3204, 3260, 3261, 3262, 3269, 3270, 3273, 3274, 3278,
  3285, 3287, 3298, 3300, 3330, 3332, 3390, 3397, 3398, 3401, 3402, 3406, 3415, 3416, 3426, 3428,
  3449, 3450, 3458, 3460, 3530, 3531, 3535, 3541, 3542, 3543, 3544, 3552, 3570, 3573, 3633, 3634,
  3636, 3643, 3647, 3648, 3655, 3664, 3674, 3676, 3761, 3762, 3764, 3770, 3771, 3773, 3784, 3790,
  3841, 3872, 3892, 3904, 3953, 3976, 3981, 3992, 3993, 4029, 4030, 4045, 4046, 4059, 4139, 4159,
  4170, 4176, 4182, 4186, 4190, 4193, 4194, 4197, 4199, 4206, 4209, 4213, 4226, 4238, 4239, 4240,
  4250, 4256, 4347, 4348, 4957, 4969, 5008, 5018, 5120, 5121, 5741, 5743, 5760, 5761, 5787, 5789,
  5867, 5870, 5906, 5909, 5938, 5943, 5970, 5972, 6002, 6004, 6068, 6103, 6104, 6108, 6109, 6110,
  6144, 6159, 6313, 6314, 6432, 6444, 6448, 6460, 6464, 6465, 6468, 6470, 6576, 6593, 6600, 6602,
  6622, 6656, 6679, 6684, 6686, 6688, 6741, 6751, 6752, 6781, 6783, 6784, 6816, 6823, 6824, 6830,
  6912, 6917, 6964, 6981, 7002, 7037, 7040, 7043, 7073, 7086, 7142, 7156, 7164, 7168, 7204, 7224,
  7227, 7232, 7294, 7296, 7360, 7368, 7376, 7401, 7405, 7406, 7410, 7413, 7616, 7655, 7676, 7680,
  8125, 8126, 8127, 8130, 8141, 8144, 8157, 8160, 8173, 8176, 8189, 8191, 8192, 8293, 8298, 8304,
  8314, 8319, 8330, 8335, 8352, 8378, 8400, 8433, 8448, 8450, 8451, 8455, 8456, 8458, 8468, 8469,
  8470, 8473, 8478, 8484, 8485, 8486, 8487, 8488, 8489, 8490, 8494, 8495, 8506, 8508, 8512, 8517,
  8522, 8526, 8527, 8528, 8592, 9204, 9216, 9255, 9280, 9291, 9372, 9450, 9472, 9984, 9985, 10102,
  10132, 11085, 11088, 11098, 11493, 11499, 11503, 11506, 11513, 11517, 11518, 11520, 11632,
  11633, 11647, 11648, 11744, 11823, 11824, 11836, 11904, 11930, 11931, 12020, 12032, 12246,
  12272, 12284, 12288, 12293, 12296, 12321, 12330, 12337, 12342, 12344, 12349, 12352, 12441,
  12445, 12448, 12449, 12539, 12540, 12688, 12690, 12694, 12704, 12736, 12772, 12800, 12831,
  12842, 12872, 12880, 12881, 12896, 12928, 12938, 12977, 12992, 13055, 13056, 13312, 19904,
  19968, 42128, 42183, 42238, 42240, 42509, 42512, 42607, 42623, 42655, 42656, 42736, 42744,
  42752, 42775, 42784, 42786, 42889, 42891, 43010, 43011, 43014, 43015, 43019, 43020, 43043,
  43052, 43062, 43066, 43124, 43128, 43136, 43138, 43188, 43205, 43214, 43216, 43232, 43250,
  43256, 43259, 43302, 43312, 43335, 43348, 43359, 43360, 43392, 43396, 43443, 43470, 43486,
  43488, 43561, 43575, 43587, 43588, 43596, 43598, 43612, 43616, 43639, 43642, 43643, 43644,
  43696, 43697, 43698, 43701, 43703, 43705, 43710, 43712, 43713, 43714, 43742, 43744, 43755,
  43762, 43765, 43767, 44003, 44014, 55296, 57344, 64286, 64287, 64297, 64298, 64434, 64450,
  64830, 64832, 65020, 65022, 65024, 65050, 65056, 65063, 65072, 65107, 65108, 65127, 65128,
  65132, 65279, 65280, 65281, 65296, 65306, 65313, 65339, 65345, 65371, 65382, 65504, 65511,
  65512, 65519, 65529, 65536, 65792, 65795, 65847, 65856, 65913, 65930, 65936, 65948, 66000,
  66046, 66463, 66464, 66512, 66513, 67671, 67672, 67871, 67872, 67903, 67904, 68097, 68100,
  68101, 68103, 68108, 68112, 68152, 68155, 68159, 68160, 68176, 68185, 68223, 68224, 68409,
  68416, 69632, 69635, 69688, 69710, 69760, 69763, 69808, 69826, 69888, 69891, 69927, 69941,
  69952, 69956, 70016, 70019, 70067, 70081, 70085, 70089, 71339, 71352, 74864, 74868, 94033,
  94079, 94095, 94099, 118784, 119030, 119040, 119079, 119081, 119262, 119296, 119366, 119552,
  119639, 120513, 120514, 120539, 120540, 120571, 120572, 120597, 120598, 120629, 120630, 120655,
  120656, 120687, 120688, 120713, 120714, 120745, 120746, 120771, 120772, 126704, 126706, 126976,
  127020, 127024, 127124, 127136, 127151, 127153, 127167, 127169, 127184, 127185, 127200, 127248,
  127279, 127280, 127340, 127344, 127387, 127462, 127491, 127504, 127547, 127552, 127561, 127568,
  127570, 127744, 127777, 127792, 127798, 127799, 127869, 127872, 127892, 127904, 127941, 127942,
  127947, 127968, 127985, 128000, 128063, 128064, 128065, 128066, 128248, 128249, 128253, 128256,
  128318, 128320, 128324, 128336, 128360, 128507, 128577, 128581, 128592, 128640, 128710, 128768,
  128884, 917505, 917506, 917536, 917632, 917760, 918000, 1114112]

/-- Runs of accented Latin letters of either case: first and last code point, and the bare small
letter. -/
def accentedRuns : Array (Nat × Nat × Nat) := #[
  (192, 197, 97), (199, 199, 99), (200, 203, 101), (204, 207, 105), (209, 209, 110),
  (210, 214, 111), (217, 220, 117), (221, 221, 121), (224, 229, 97), (231, 231, 99),
  (232, 235, 101), (236, 239, 105), (241, 241, 110), (242, 246, 111), (249, 252, 117),
  (253, 253, 121), (255, 255, 121), (256, 261, 97), (262, 269, 99), (270, 271, 100),
  (274, 283, 101), (284, 291, 103), (292, 293, 104), (296, 304, 105), (308, 309, 106),
  (310, 311, 107), (313, 318, 108), (323, 328, 110), (332, 337, 111), (340, 345, 114),
  (346, 353, 115), (354, 357, 116), (360, 371, 117), (372, 373, 119), (374, 376, 121),
  (377, 382, 122), (383, 383, 115), (416, 417, 111), (431, 432, 117), (461, 462, 97),
  (463, 464, 105), (465, 466, 111), (467, 468, 117), (486, 487, 103), (488, 489, 107),
  (490, 491, 111), (496, 496, 106), (500, 501, 103), (504, 505, 110), (512, 515, 97),
  (516, 519, 101), (520, 523, 105), (524, 527, 111), (528, 531, 114), (532, 535, 117),
  (536, 537, 115), (538, 539, 116), (542, 543, 104), (550, 551, 97), (552, 553, 101),
  (558, 559, 111), (562, 563, 121), (7680, 7681, 97), (7682, 7687, 98), (7690, 7699, 100),
  (7704, 7707, 101), (7710, 7711, 102), (7712, 7713, 103), (7714, 7723, 104), (7724, 7725, 105),
  (7728, 7733, 107), (7734, 7735, 108), (7738, 7741, 108), (7742, 7747, 109), (7748, 7755, 110),
  (7764, 7767, 112), (7768, 7771, 114), (7774, 7775, 114), (7776, 7779, 115), (7786, 7793, 116),
  (7794, 7799, 117), (7804, 7807, 118), (7808, 7817, 119), (7818, 7821, 120), (7822, 7823, 121),
  (7824, 7829, 122), (7830, 7830, 104), (7831, 7831, 116), (7832, 7832, 119), (7833, 7833, 121),
  (7835, 7835, 115), (7840, 7843, 97), (7864, 7869, 101), (7880, 7883, 105), (7884, 7887, 111),
  (7908, 7911, 117), (7922, 7929, 121), (8490, 8490, 107), (8491, 8491, 97)]

/-- A run of capital letters: every `step`-th code point from `first` to `last` has its small letter
`offset` code points further on. -/
structure CapitalRun where
  first : Nat
  last : Nat
  step : Nat
  offset : Int

/-- The runs of capital letters, other than the accented Latin ones. -/
def capitalRuns : Array CapitalRun := #[
  ⟨65, 90, 1, 32⟩, ⟨181, 181, 1, 775⟩, ⟨198, 198, 1, 32⟩, ⟨208, 208, 1, 32⟩, ⟨216, 216, 1, 32⟩,
  ⟨222, 222, 1, 32⟩, ⟨272, 272, 1, 1⟩, ⟨294, 294, 1, 1⟩, ⟨306, 306, 1, 1⟩, ⟨319, 321, 2, 1⟩,
  ⟨330, 330, 1, 1⟩, ⟨338, 338, 1, 1⟩, ⟨358, 358, 1, 1⟩, ⟨385, 385, 1, 210⟩, ⟨386, 388, 2, 1⟩,
  ⟨390, 390, 1, 206⟩, ⟨391, 391, 1, 1⟩, ⟨393, 394, 1, 205⟩, ⟨395, 395, 1, 1⟩, ⟨398, 398, 1, 79⟩,
  ⟨399, 399, 1, 202⟩, ⟨400, 400, 1, 203⟩, ⟨401, 401, 1, 1⟩, ⟨403, 403, 1, 205⟩,
  ⟨404, 404, 1, 207⟩, ⟨406, 406, 1, 211⟩, ⟨407, 407, 1, 209⟩, ⟨408, 408, 1, 1⟩,
  ⟨412, 412, 1, 211⟩, ⟨413, 413, 1, 213⟩, ⟨415, 415, 1, 214⟩, ⟨418, 420, 2, 1⟩,
  ⟨422, 422, 1, 218⟩, ⟨423, 423, 1, 1⟩, ⟨425, 425, 1, 218⟩, ⟨428, 428, 1, 1⟩, ⟨430, 430, 1, 218⟩,
  ⟨433, 434, 1, 217⟩, ⟨435, 437, 2, 1⟩, ⟨439, 439, 1, 219⟩, ⟨440, 440, 1, 1⟩, ⟨444, 444, 1, 1⟩,
  ⟨452, 452, 1, 2⟩, ⟨453, 453, 1, 1⟩, ⟨455, 455, 1, 2⟩, ⟨456, 456, 1, 1⟩, ⟨458, 458, 1, 2⟩,
  ⟨459, 459, 1, 1⟩, ⟨469, 475, 2, 1⟩, ⟨478, 484, 2, 1⟩, ⟨492, 494, 2, 1⟩, ⟨497, 497, 1, 2⟩,
  ⟨498, 498, 1, 1⟩, ⟨502, 502, 1, -97⟩, ⟨503, 503, 1, -56⟩, ⟨506, 510, 2, 1⟩, ⟨540, 540, 1, 1⟩,
  ⟨544, 544, 1, -130⟩, ⟨546, 548, 2, 1⟩, ⟨554, 556, 2, 1⟩, ⟨560, 560, 1, 1⟩, ⟨570, 570, 1, 10795⟩,
  ⟨571, 571, 1, 1⟩, ⟨573, 573, 1, -163⟩, ⟨574, 574, 1, 10792⟩, ⟨577, 577, 1, 1⟩,
  ⟨579, 579, 1, -195⟩, ⟨580, 580, 1, 69⟩, ⟨581, 581, 1, 71⟩, ⟨582, 590, 2, 1⟩, ⟨880, 882, 2, 1⟩,
  ⟨886, 886, 1, 1⟩, ⟨902, 902, 1, 38⟩, ⟨904, 906, 1, 37⟩, ⟨908, 908, 1, 64⟩, ⟨910, 911, 1, 63⟩,
  ⟨913, 929, 1, 32⟩, ⟨931, 939, 1, 32⟩, ⟨962, 962, 1, 1⟩, ⟨975, 975, 1, 8⟩, ⟨976, 976, 1, -30⟩,
  ⟨977, 977, 1, -25⟩, ⟨981, 981, 1, -15⟩, ⟨982, 982, 1, -22⟩, ⟨984, 1006, 2, 1⟩,
  ⟨1008, 1008, 1, -54⟩, ⟨1009, 1009, 1, -48⟩, ⟨1012, 1012, 1, -60⟩, ⟨1013, 1013, 1, -64⟩,
  ⟨1015, 1015, 1, 1⟩, ⟨1017, 1017, 1, -7⟩, ⟨1018, 1018, 1, 1⟩, ⟨1021, 1023, 1, -130⟩,
  ⟨1024, 1039, 1, 80⟩, ⟨1040, 1071, 1, 32⟩, ⟨1120, 1152, 2, 1⟩, ⟨1162, 1214, 2, 1⟩,
  ⟨1216, 1216, 1, 15⟩, ⟨1217, 1229, 2, 1⟩, ⟨1232, 1318, 2, 1⟩, ⟨1329, 1366, 1, 48⟩,
  ⟨4256, 4293, 1, 7264⟩, ⟨4295, 4295, 1, 7264⟩, ⟨4301, 4301, 1, 7264⟩, ⟨7688, 7688, 1, 1⟩,
  ⟨7700, 7702, 2, 1⟩, ⟨7708, 7708, 1, 1⟩, ⟨7726, 7726, 1, 1⟩, ⟨7736, 7736, 1, 1⟩,
  ⟨7756, 7762, 2, 1⟩, ⟨7772, 7772, 1, 1⟩, ⟨7780, 7784, 2, 1⟩, ⟨7800, 7802, 2, 1⟩,
  ⟨7838, 7838, 1, -7615⟩, ⟨7844, 7862, 2, 1⟩, ⟨7870, 7878, 2, 1⟩, ⟨7888, 7906, 2, 1⟩,
  ⟨7912, 7920, 2, 1⟩, ⟨7930, 7934, 2, 1⟩, ⟨7944, 7951, 1, -8⟩, ⟨7960, 7965, 1, -8⟩,
  ⟨7976, 7983, 1, -8⟩, ⟨7992, 7999, 1, -8⟩, ⟨8008, 8013, 1, -8⟩, ⟨8025, 8031, 2, -8⟩,
  ⟨8040, 8047, 1, -8⟩, ⟨8072, 8079, 1, -8⟩, ⟨8088, 8095, 1, -8⟩, ⟨8104, 8111, 1, -8⟩,
  ⟨8120, 8121, 1, -8⟩, ⟨8122, 8123, 1, -74⟩, ⟨8124, 8124, 1, -9⟩, ⟨8126, 8126, 1, -7173⟩,
  ⟨8136, 8139, 1, -86⟩, ⟨8140, 8140, 1, -9⟩, ⟨8152, 8153, 1, -8⟩, ⟨8154, 8155, 1, -100⟩,
  ⟨8168, 8169, 1, -8⟩, ⟨8170, 8171, 1, -112⟩, ⟨8172, 8172, 1, -7⟩, ⟨8184, 8185, 1, -128⟩,
  ⟨8186, 8187, 1, -126⟩, ⟨8188, 8188, 1, -9⟩, ⟨8486, 8486, 1, -7517⟩, ⟨8498, 8498, 1, 28⟩,
  ⟨8544, 8559, 1, 16⟩, ⟨8579, 8579, 1, 1⟩, ⟨11264, 11310, 1, 48⟩, ⟨11360, 11360, 1, 1⟩,
  ⟨11362, 11362, 1, -10743⟩, ⟨11363, 11363, 1, -3814⟩, ⟨11364, 11364, 1, -10727⟩,
  ⟨11367, 11371, 2, 1⟩, ⟨11373, 11373, 1, -10780⟩, ⟨11374, 11374, 1, -10749⟩,
  ⟨11375, 11375, 1, -10783⟩, ⟨11376, 11376, 1, -10782⟩, ⟨11378, 11378, 1, 1⟩,
  ⟨11381, 11381, 1, 1⟩, ⟨11390, 11391, 1, -10815⟩, ⟨11392, 11490, 2, 1⟩, ⟨11499, 11501, 2, 1⟩,
  ⟨11506, 11506, 1, 1⟩, ⟨42560, 42604, 2, 1⟩, ⟨42624, 42646, 2, 1⟩, ⟨42786, 42798, 2, 1⟩,
  ⟨42802, 42862, 2, 1⟩, ⟨42873, 42875, 2, 1⟩, ⟨42877, 42877, 1, -35332⟩, ⟨42878, 42886, 2, 1⟩,
  ⟨42891, 42891, 1, 1⟩, ⟨42893, 42893, 1, -42280⟩, ⟨42896, 42898, 2, 1⟩, ⟨42912, 42920, 2, 1⟩,
  ⟨42922, 42922, 1, -42308⟩, ⟨65313, 65338, 1, 32⟩, ⟨66560, 66599, 1, 40⟩]

/-- The combining accents that a term absorbs. -/
def absorbedAccents : List Nat :=
  [0x300, 0x301, 0x302, 0x303, 0x304, 0x306, 0x307, 0x308, 0x309, 0x30A, 0x30B, 0x30C, 0x30F,
   0x311, 0x31B, 0x323, 0x324, 0x325, 0x326, 0x327, 0x328, 0x32D, 0x32E, 0x330, 0x331]

/-! ## §2. Characters. -/

/-- A character that belongs to a term wherever it stands. -/
def isTermChar (c : Char) : Bool := inRanges termBounds c

/-- A combining accent, which continues a term but does not start one. -/
def isAccent (c : Char) : Bool := absorbedAccents.contains c.toNat

/-- The small letter without accent that stands for a character; a character that has none stands
for itself. -/
def fold (c : Char) : Char :=
  let n := c.toNat
  if n < 128 then (if 65 ≤ n && n ≤ 90 then Char.ofNat (n + 32) else c)
  else
    match accentedRuns.find? fun (first, last, _) => first ≤ n && n ≤ last with
    | some (_, _, bare) => Char.ofNat bare
    | none =>
      match capitalRuns.find? fun r => r.first ≤ n && n ≤ r.last && (n - r.first) % r.step == 0 with
      | some r => Char.ofNat (n + r.offset).toNat
      | none => c

/-! ## §3. Terms. -/

/-- The state of a reading: finished terms, newest first, and the characters of the term being
read, newest first. -/
structure TermsRead where
  done : List (List Char)
  current : List Char

/-- The bytes of a term that count; what is longer is cut. -/
def maxTermBytes : Nat := 32768

/-- The characters at the front that fit into `room` bytes. -/
def fitting (room : Nat) : List Char → List Char
  | [] => []
  | c :: rest =>
    if byteLength [c] ≤ room then c :: fitting (room - byteLength [c]) rest else []

/-- Close the term being read, if there is one. -/
def TermsRead.close (r : TermsRead) : TermsRead :=
  if r.current.isEmpty then r else ⟨fitting maxTermBytes r.current.reverse :: r.done, []⟩

/-- Read one character. -/
def TermsRead.step (r : TermsRead) (c : Char) : TermsRead :=
  if isTermChar c then ⟨r.done, fold c :: r.current⟩
  else if isAccent c && !r.current.isEmpty then r
  else r.close

/-- The terms of a text, in order. -/
def terms (s : List Char) : List (List Char) :=
  (s.foldl TermsRead.step ⟨[], []⟩).close.done.reverse

end CodeIndex.Text
