import Reckon.Unicode.Case

/-!
Characters that are the same but for their case.

Each such family of characters is named by its first member; a character outside all families is alone in
its own.
-/

namespace Reckon

/-- The members of families other than the first, with the first as image. -/
def foldRuns : List CaseRun := CaseRun.ofNumbers <| hexRows
  ["61 1a 1 41 e0 17 1 c0 f8 7 1 d8 101 18 2 100 133 3 2 132 13a 8 2 139 14b 17 2 14a 178 1 1 ff",
   "17a 3 2 179 17f 1 1 53 183 2 2 182 188 1 1 187 18c 1 1 18b 192 1 1 191 199 1 1 198 1a1 3 2",
   "1a0 1a8 1 1 1a7 1ad 1 1 1ac 1b0 1 1 1af 1b4 2 2 1b3 1b9 1 1 1b8 1bd 1 1 1bc 1c5 1 1 1c4 1c6",
   "1 1 1c4 1c8 1 1 1c7 1c9 1 1 1c7 1cb 1 1 1ca 1cc 1 1 1ca 1ce 8 2 1cd 1dd 1 1 18e 1df 9 2 1de",
   "1f2 1 1 1f1 1f3 1 1 1f1 1f5 1 1 1f4 1f6 1 1 195 1f7 1 1 1bf 1f9 14 2 1f8 220 1 1 19e 223 9 2",
   "222 23c 1 1 23b 23d 1 1 19a 242 1 1 241 243 1 1 180 247 5 2 246 253 1 1 181 254 1 1 186 256",
   "2 1 189 259 1 1 18f 25b 1 1 190 260 1 1 193 263 1 1 194 268 1 1 197 269 1 1 196 26f 1 1 19c",
   "272 1 1 19d 275 1 1 19f 280 1 1 1a6 283 1 1 1a9 288 1 1 1ae 289 1 1 244 28a 2 1 1b1 28c 1 1",
   "245 292 1 1 1b7 371 2 2 370 377 1 1 376 399 1 1 345 39c 1 1 b5 3ac 1 1 386 3ad 3 1 388 3b1 8",
   "1 391 3b9 1 1 345 3ba 2 1 39a 3bc 1 1 b5 3bd 5 1 39d 3c2 1 1 3a3 3c3 9 1 3a3 3cc 1 1 38c 3cd",
   "2 1 38e 3d0 1 1 392 3d1 1 1 398 3d5 1 1 3a6 3d6 1 1 3a0 3d7 1 1 3cf 3d9 c 2 3d8 3f0 1 1 39a",
   "3f1 1 1 3a1 3f3 1 1 37f 3f4 1 1 398 3f5 1 1 395 3f8 1 1 3f7 3f9 1 1 3f2 3fb 1 1 3fa 3fd 3 1",
   "37b 430 20 1 410 450 10 1 400 461 11 2 460 48b 1b 2 48a 4c2 7 2 4c1 4cf 1 1 4c0 4d1 30 2 4d0",
   "561 26 1 531 13f8 6 1 13f0 1c80 1 1 412 1c81 1 1 414 1c82 1 1 41e 1c83 2 1 421 1c85 1 1 422",
   "1c86 1 1 42a 1c87 1 1 462 1c8a 1 1 1c89 1c90 2b 1 10d0 1cbd 3 1 10fd 1e01 4b 2 1e00 1e9b 1 1",
   "1e60 1e9e 1 1 df 1ea1 30 2 1ea0 1f08 8 1 1f00 1f18 6 1 1f10 1f28 8 1 1f20 1f38 8 1 1f30 1f48",
   "6 1 1f40 1f59 4 2 1f51 1f68 8 1 1f60 1f88 8 1 1f80 1f98 8 1 1f90 1fa8 8 1 1fa0 1fb8 2 1 1fb0",
   "1fba 2 1 1f70 1fbc 1 1 1fb3 1fbe 1 1 345 1fc8 4 1 1f72 1fcc 1 1 1fc3 1fd3 1 1 390 1fd8 2 1",
   "1fd0 1fda 2 1 1f76 1fe3 1 1 3b0 1fe8 2 1 1fe0 1fea 2 1 1f7a 1fec 1 1 1fe5 1ff8 2 1 1f78 1ffa",
   "2 1 1f7c 1ffc 1 1 1ff3 2126 1 1 3a9 212a 1 1 4b 212b 1 1 c5 214e 1 1 2132 2170 10 1 2160",
   "2184 1 1 2183 24d0 1a 1 24b6 2c30 30 1 2c00 2c61 1 1 2c60 2c62 1 1 26b 2c63 1 1 1d7d 2c64 1",
   "1 27d 2c65 1 1 23a 2c66 1 1 23e 2c68 3 2 2c67 2c6d 1 1 251 2c6e 1 1 271 2c6f 1 1 250 2c70 1",
   "1 252 2c73 1 1 2c72 2c76 1 1 2c75 2c7e 2 1 23f 2c81 32 2 2c80 2cec 2 2 2ceb 2cf3 1 1 2cf2",
   "2d00 26 1 10a0 2d27 1 1 10c7 2d2d 1 1 10cd a641 5 2 a640 a64a 1 1 1c88 a64b 1 1 1c88 a64d 11",
   "2 a64c a681 e 2 a680 a723 7 2 a722 a733 1f 2 a732 a77a 2 2 a779 a77d 1 1 1d79 a77f 5 2 a77e",
   "a78c 1 1 a78b a78d 1 1 265 a791 2 2 a790 a797 a 2 a796 a7aa 1 1 266 a7ab 1 1 25c a7ac 1 1",
   "261 a7ad 1 1 26c a7ae 1 1 26a a7b0 1 1 29e a7b1 1 1 287 a7b2 1 1 29d a7b5 8 2 a7b4 a7c4 1 1",
   "a794 a7c5 1 1 282 a7c6 1 1 1d8e a7c8 2 2 a7c7 a7cb 1 1 264 a7cd 8 2 a7cc a7dc 1 1 19b a7f6 1",
   "1 a7f5 ab53 1 1 a7b3 ab70 50 1 13a0 fb06 1 1 fb05 ff41 1a 1 ff21 10428 28 1 10400 104d8 24 1",
   "104b0 10597 b 1 10570 105a3 f 1 1057c 105b3 7 1 1058c 105bb 2 1 10594 10cc0 33 1 10c80 10d70",
   "16 1 10d50 118c0 20 1 118a0 16e60 20 1 16e40 16ebb 19 1 16ea0 1e922 22 1 1e900"]

/-- The characters that a run holds, each with its image. -/
def CaseRun.pairs (run : CaseRun) : List (Nat × Nat) :=
  (List.range run.count).map fun i => (run.first + i * run.step, run.image + i * run.step)

/-- The characters with another first member of their family. -/
def foldPairs : List (Nat × Nat) := foldRuns.flatMap CaseRun.pairs

/-- Adds the families of all members. -/
def CharSet.foldCase (s : CharSet) : CharSet :=
  let firsts := foldPairs.filterMap fun (member, first) =>
    if s.contains member && !s.contains first then some first else none
  let withFirsts := s.union ⟨firsts.map fun n => (n, n)⟩
  let members := foldPairs.filterMap fun (member, first) =>
    if withFirsts.contains first && !withFirsts.contains member then some member else none
  withFirsts.union ⟨members.map fun n => (n, n)⟩

end Reckon
