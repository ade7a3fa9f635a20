/-!
# Upper and lower case

The simple case mapping of Unicode: a character has at most one upper and one lower case
counterpart. The tables list runs of characters, every `step`-th from `first` on, that move by the
same distance. Most counterparts lead back.
-/

namespace ShaderGraph

namespace Text

/-- A run of `count` characters, every `step`-th from `first` on, whose counterparts are `shift`
away. -/
structure CaseRun where
  first : Nat
  count : Nat
  step : Nat
  shift : Int

/-- The characters with an upper case counterpart that has them as its lower case one. -/
def pairedRuns : List CaseRun :=
  [⟨97, 26, 1, -32⟩, ⟨224, 23, 1, -32⟩, ⟨248, 7, 1, -32⟩, ⟨255, 1, 1, 121⟩, ⟨257, 24, 2, -1⟩,
   ⟨307, 3, 2, -1⟩, ⟨314, 8, 2, -1⟩, ⟨331, 23, 2, -1⟩, ⟨378, 3, 2, -1⟩, ⟨384, 1, 1, 195⟩,
   ⟨387, 2, 2, -1⟩, ⟨392, 1, 1, -1⟩, ⟨396, 1, 1, -1⟩, ⟨402, 1, 1, -1⟩, ⟨405, 1, 1, 97⟩,
   ⟨409, 1, 1, -1⟩, ⟨410, 1, 1, 163⟩, ⟨411, 1, 1, 42561⟩, ⟨414, 1, 1, 130⟩, ⟨417, 3, 2, -1⟩,
   ⟨424, 1, 1, -1⟩, ⟨429, 1, 1, -1⟩, ⟨432, 1, 1, -1⟩, ⟨436, 2, 2, -1⟩, ⟨441, 1, 1, -1⟩,
   ⟨445, 1, 1, -1⟩, ⟨447, 1, 1, 56⟩, ⟨454, 1, 1, -2⟩, ⟨457, 1, 1, -2⟩, ⟨460, 1, 1, -2⟩,
   ⟨462, 8, 2, -1⟩, ⟨477, 1, 1, -79⟩, ⟨479, 9, 2, -1⟩, ⟨499, 1, 1, -2⟩, ⟨501, 1, 1, -1⟩,
   ⟨505, 20, 2, -1⟩, ⟨547, 9, 2, -1⟩, ⟨572, 1, 1, -1⟩, ⟨575, 2, 1, 10815⟩, ⟨578, 1, 1, -1⟩,
   ⟨583, 5, 2, -1⟩, ⟨592, 1, 1, 10783⟩, ⟨593, 1, 1, 10780⟩, ⟨594, 1, 1, 10782⟩, ⟨595, 1, 1, -210⟩,
   ⟨596, 1, 1, -206⟩, ⟨598, 2, 1, -205⟩, ⟨601, 1, 1, -202⟩, ⟨603, 1, 1, -203⟩, ⟨604, 1, 1, 42319⟩,
   ⟨608, 1, 1, -205⟩, ⟨609, 1, 1, 42315⟩, ⟨611, 1, 1, -207⟩, ⟨612, 1, 1, 42343⟩, ⟨613, 1, 1, 42280⟩,
   ⟨614, 1, 1, 42308⟩, ⟨616, 1, 1, -209⟩, ⟨617, 1, 1, -211⟩, ⟨618, 1, 1, 42308⟩, ⟨619, 1, 1, 10743⟩,
   ⟨620, 1, 1, 42305⟩, ⟨623, 1, 1, -211⟩, ⟨625, 1, 1, 10749⟩, ⟨626, 1, 1, -213⟩, ⟨629, 1, 1, -214⟩,
   ⟨637, 1, 1, 10727⟩, ⟨640, 1, 1, -218⟩, ⟨642, 1, 1, 42307⟩, ⟨643, 1, 1, -218⟩, ⟨647, 1, 1, 42282⟩,
   ⟨648, 1, 1, -218⟩, ⟨649, 1, 1, -69⟩, ⟨650, 2, 1, -217⟩, ⟨652, 1, 1, -71⟩, ⟨658, 1, 1, -219⟩,
   ⟨669, 1, 1, 42261⟩, ⟨670, 1, 1, 42258⟩, ⟨881, 2, 2, -1⟩, ⟨887, 1, 1, -1⟩, ⟨891, 3, 1, 130⟩,
   ⟨940, 1, 1, -38⟩, ⟨941, 3, 1, -37⟩, ⟨945, 17, 1, -32⟩, ⟨963, 9, 1, -32⟩, ⟨972, 1, 1, -64⟩,
   ⟨973, 2, 1, -63⟩, ⟨983, 1, 1, -8⟩, ⟨985, 12, 2, -1⟩, ⟨1010, 1, 1, 7⟩, ⟨1011, 1, 1, -116⟩,
   ⟨1016, 1, 1, -1⟩, ⟨1019, 1, 1, -1⟩, ⟨1072, 32, 1, -32⟩, ⟨1104, 16, 1, -80⟩, ⟨1121, 17, 2, -1⟩,
   ⟨1163, 27, 2, -1⟩, ⟨1218, 7, 2, -1⟩, ⟨1231, 1, 1, -15⟩, ⟨1233, 48, 2, -1⟩, ⟨1377, 38, 1, -48⟩,
   ⟨4304, 43, 1, 3008⟩, ⟨4349, 3, 1, 3008⟩, ⟨5112, 6, 1, -8⟩, ⟨7306, 1, 1, -1⟩, ⟨7545, 1, 1, 35332⟩,
   ⟨7549, 1, 1, 3814⟩, ⟨7566, 1, 1, 35384⟩, ⟨7681, 75, 2, -1⟩, ⟨7841, 48, 2, -1⟩, ⟨7936, 8, 1, 8⟩,
   ⟨7952, 6, 1, 8⟩, ⟨7968, 8, 1, 8⟩, ⟨7984, 8, 1, 8⟩, ⟨8000, 6, 1, 8⟩, ⟨8017, 4, 2, 8⟩,
   ⟨8032, 8, 1, 8⟩, ⟨8048, 2, 1, 74⟩, ⟨8050, 4, 1, 86⟩, ⟨8054, 2, 1, 100⟩, ⟨8056, 2, 1, 128⟩,
   ⟨8058, 2, 1, 112⟩, ⟨8060, 2, 1, 126⟩, ⟨8064, 8, 1, 8⟩, ⟨8080, 8, 1, 8⟩, ⟨8096, 8, 1, 8⟩,
   ⟨8112, 2, 1, 8⟩, ⟨8115, 1, 1, 9⟩, ⟨8131, 1, 1, 9⟩, ⟨8144, 2, 1, 8⟩, ⟨8160, 2, 1, 8⟩,
   ⟨8165, 1, 1, 7⟩, ⟨8179, 1, 1, 9⟩, ⟨8526, 1, 1, -28⟩, ⟨8560, 16, 1, -16⟩, ⟨8580, 1, 1, -1⟩,
   ⟨9424, 26, 1, -26⟩, ⟨11312, 48, 1, -48⟩, ⟨11361, 1, 1, -1⟩, ⟨11365, 1, 1, -10795⟩,
   ⟨11366, 1, 1, -10792⟩, ⟨11368, 3, 2, -1⟩, ⟨11379, 1, 1, -1⟩, ⟨11382, 1, 1, -1⟩,
   ⟨11393, 50, 2, -1⟩, ⟨11500, 2, 2, -1⟩, ⟨11507, 1, 1, -1⟩, ⟨11520, 38, 1, -7264⟩,
   ⟨11559, 1, 1, -7264⟩, ⟨11565, 1, 1, -7264⟩, ⟨42561, 23, 2, -1⟩, ⟨42625, 14, 2, -1⟩,
   ⟨42787, 7, 2, -1⟩, ⟨42803, 31, 2, -1⟩, ⟨42874, 2, 2, -1⟩, ⟨42879, 5, 2, -1⟩, ⟨42892, 1, 1, -1⟩,
   ⟨42897, 2, 2, -1⟩, ⟨42900, 1, 1, 48⟩, ⟨42903, 10, 2, -1⟩, ⟨42933, 8, 2, -1⟩, ⟨42952, 2, 2, -1⟩,
   ⟨42957, 8, 2, -1⟩, ⟨42998, 1, 1, -1⟩, ⟨43859, 1, 1, -928⟩, ⟨43888, 80, 1, -38864⟩,
   ⟨65345, 26, 1, -32⟩, ⟨66600, 40, 1, -40⟩, ⟨66776, 36, 1, -40⟩, ⟨66967, 11, 1, -39⟩,
   ⟨66979, 15, 1, -39⟩, ⟨66995, 7, 1, -39⟩, ⟨67003, 2, 1, -39⟩, ⟨68800, 51, 1, -64⟩,
   ⟨68976, 22, 1, -32⟩, ⟨71872, 32, 1, -32⟩, ⟨93792, 32, 1, -32⟩, ⟨93883, 25, 1, -27⟩,
   ⟨125218, 34, 1, -34⟩]

/-- The characters with an upper case counterpart. -/
def upperRuns : List CaseRun :=
  pairedRuns ++
    [⟨181, 1, 1, 743⟩, ⟨305, 1, 1, -232⟩, ⟨383, 1, 1, -300⟩, ⟨453, 1, 1, -1⟩, ⟨456, 1, 1, -1⟩,
     ⟨459, 1, 1, -1⟩, ⟨498, 1, 1, -1⟩, ⟨837, 1, 1, 84⟩, ⟨962, 1, 1, -31⟩, ⟨976, 1, 1, -62⟩,
     ⟨977, 1, 1, -57⟩, ⟨981, 1, 1, -47⟩, ⟨982, 1, 1, -54⟩, ⟨1008, 1, 1, -86⟩, ⟨1009, 1, 1, -80⟩,
     ⟨1013, 1, 1, -96⟩, ⟨7296, 1, 1, -6254⟩, ⟨7297, 1, 1, -6253⟩, ⟨7298, 1, 1, -6244⟩,
     ⟨7299, 2, 1, -6242⟩, ⟨7301, 1, 1, -6243⟩, ⟨7302, 1, 1, -6236⟩, ⟨7303, 1, 1, -6181⟩,
     ⟨7304, 1, 1, 35266⟩, ⟨7835, 1, 1, -59⟩, ⟨8126, 1, 1, -7205⟩]

/-- The run back from the counterparts. -/
def CaseRun.back (run : CaseRun) : CaseRun :=
  ⟨((run.first : Int) + run.shift).toNat, run.count, run.step, -run.shift⟩

/-- The characters with a lower case counterpart. -/
def lowerRuns : List CaseRun :=
  pairedRuns.map .back ++
    [⟨304, 1, 1, -199⟩, ⟨453, 1, 1, 1⟩, ⟨456, 1, 1, 1⟩, ⟨459, 1, 1, 1⟩, ⟨498, 1, 1, 1⟩,
     ⟨1012, 1, 1, -60⟩, ⟨7838, 1, 1, -7615⟩, ⟨8486, 1, 1, -7517⟩, ⟨8490, 1, 1, -8383⟩,
     ⟨8491, 1, 1, -8262⟩]

/-- Whether a code point is in a run. -/
def CaseRun.contains (run : CaseRun) (code : Nat) : Bool :=
  run.first ≤ code && code < run.first + run.count * run.step && (code - run.first) % run.step == 0

/-- The character moved by the run that it is in. -/
def shiftCase (runs : List CaseRun) (c : Char) : Char :=
  match runs.find? fun run => run.contains c.toNat with
  | some run => Char.ofNat ((c.toNat : Int) + run.shift).toNat
  | none => c

/-- The text in upper case. -/
def upper (s : String) : String := String.ofList (s.toList.map (shiftCase upperRuns))

/-- The text in lower case. -/
def lower (s : String) : String := String.ofList (s.toList.map (shiftCase lowerRuns))

/-- Whether a character equals an ASCII character but for case. Of the other characters only the
long s and the Kelvin sign fold to ASCII. -/
def foldsTo (c ascii : Char) : Bool :=
  let plain := if c.toNat = 0x17f then 's' else if c.toNat = 0x212a then 'k' else c
  plain.toLower == ascii.toLower

/-- Whether a text equals an ASCII text but for case. -/
def equalFold (s ascii : String) : Bool :=
  s.toList.length == ascii.toList.length &&
    (s.toList.zip ascii.toList).all fun (c, a) => foldsTo c a

end Text

end ShaderGraph
