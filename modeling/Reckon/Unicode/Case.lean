import Reckon.Unicode.CharSet

/-!
Full case conversion.

A character maps to one or more characters. Lower-casing a text treats the capital sigma by its
place: at the end of a word it becomes the final form. The tables hold the characters outside ASCII
only, those within follow the ASCII rule.
-/

namespace Reckon

/-- Every `step`-th of `count` characters from `first` on, with images in the same order from `image`
on, each as far from the next as the characters are. -/
structure CaseRun where
  first : Nat
  count : Nat
  step : Nat
  image : Nat
deriving Repr

namespace CaseRun

/-- Runs of four numbers each. -/
def ofNumbers : List Nat → List CaseRun
  | first :: count :: step :: image :: rest => ⟨first, count, step, image⟩ :: ofNumbers rest
  | _ => []

/-- The image of a character that the run holds. -/
def image? (run : CaseRun) (n : Nat) : Option Nat :=
  if run.first ≤ n ∧ (n - run.first) % run.step = 0 ∧ (n - run.first) / run.step < run.count then
    some (run.image + (n - run.first))
  else none

end CaseRun

/-- Characters outside ASCII with a single lower-case character. -/
def lowerRuns : List CaseRun := CaseRun.ofNumbers <| hexRows
  ["c0 17 1 e0 d8 7 1 f8 100 18 2 101 132 3 2 133 139 8 2 13a 14a 17 2 14b 178 1 1 ff 179 3 2",
   "17a 181 1 1 253 182 2 2 183 186 1 1 254 187 1 1 188 189 2 1 256 18b 1 1 18c 18e 1 1 1dd 18f",
   "1 1 259 190 1 1 25b 191 1 1 192 193 1 1 260 194 1 1 263 196 1 1 269 197 1 1 268 198 1 1 199",
   "19c 1 1 26f 19d 1 1 272 19f 1 1 275 1a0 3 2 1a1 1a6 1 1 280 1a7 1 1 1a8 1a9 1 1 283 1ac 1 1",
   "1ad 1ae 1 1 288 1af 1 1 1b0 1b1 2 1 28a 1b3 2 2 1b4 1b7 1 1 292 1b8 1 1 1b9 1bc 1 1 1bd 1c4",
   "1 1 1c6 1c5 1 1 1c6 1c7 1 1 1c9 1c8 1 1 1c9 1ca 1 1 1cc 1cb 9 2 1cc 1de 9 2 1df 1f1 1 1 1f3",
   "1f2 2 2 1f3 1f6 1 1 195 1f7 1 1 1bf 1f8 14 2 1f9 220 1 1 19e 222 9 2 223 23a 1 1 2c65 23b 1",
   "1 23c 23d 1 1 19a 23e 1 1 2c66 241 1 1 242 243 1 1 180 244 1 1 289 245 1 1 28c 246 5 2 247",
   "370 2 2 371 376 1 1 377 37f 1 1 3f3 386 1 1 3ac 388 3 1 3ad 38c 1 1 3cc 38e 2 1 3cd 391 11 1",
   "3b1 3a3 9 1 3c3 3cf 1 1 3d7 3d8 c 2 3d9 3f4 1 1 3b8 3f7 1 1 3f8 3f9 1 1 3f2 3fa 1 1 3fb 3fd",
   "3 1 37b 400 10 1 450 410 20 1 430 460 11 2 461 48a 1b 2 48b 4c0 1 1 4cf 4c1 7 2 4c2 4d0 30 2",
   "4d1 531 26 1 561 10a0 26 1 2d00 10c7 1 1 2d27 10cd 1 1 2d2d 13a0 50 1 ab70 13f0 6 1 13f8",
   "1c89 1 1 1c8a 1c90 2b 1 10d0 1cbd 3 1 10fd 1e00 4b 2 1e01 1e9e 1 1 df 1ea0 30 2 1ea1 1f08 8",
   "1 1f00 1f18 6 1 1f10 1f28 8 1 1f20 1f38 8 1 1f30 1f48 6 1 1f40 1f59 4 2 1f51 1f68 8 1 1f60",
   "1f88 8 1 1f80 1f98 8 1 1f90 1fa8 8 1 1fa0 1fb8 2 1 1fb0 1fba 2 1 1f70 1fbc 1 1 1fb3 1fc8 4 1",
   "1f72 1fcc 1 1 1fc3 1fd8 2 1 1fd0 1fda 2 1 1f76 1fe8 2 1 1fe0 1fea 2 1 1f7a 1fec 1 1 1fe5",
   "1ff8 2 1 1f78 1ffa 2 1 1f7c 1ffc 1 1 1ff3 2126 1 1 3c9 212a 1 1 6b 212b 1 1 e5 2132 1 1 214e",
   "2160 10 1 2170 2183 1 1 2184 24b6 1a 1 24d0 2c00 30 1 2c30 2c60 1 1 2c61 2c62 1 1 26b 2c63 1",
   "1 1d7d 2c64 1 1 27d 2c67 3 2 2c68 2c6d 1 1 251 2c6e 1 1 271 2c6f 1 1 250 2c70 1 1 252 2c72 1",
   "1 2c73 2c75 1 1 2c76 2c7e 2 1 23f 2c80 32 2 2c81 2ceb 2 2 2cec 2cf2 1 1 2cf3 a640 17 2 a641",
   "a680 e 2 a681 a722 7 2 a723 a732 1f 2 a733 a779 2 2 a77a a77d 1 1 1d79 a77e 5 2 a77f a78b 1",
   "1 a78c a78d 1 1 265 a790 2 2 a791 a796 a 2 a797 a7aa 1 1 266 a7ab 1 1 25c a7ac 1 1 261 a7ad",
   "1 1 26c a7ae 1 1 26a a7b0 1 1 29e a7b1 1 1 287 a7b2 1 1 29d a7b3 1 1 ab53 a7b4 8 2 a7b5 a7c4",
   "1 1 a794 a7c5 1 1 282 a7c6 1 1 1d8e a7c7 2 2 a7c8 a7cb 1 1 264 a7cc 8 2 a7cd a7dc 1 1 19b",
   "a7f5 1 1 a7f6 ff21 1a 1 ff41 10400 28 1 10428 104b0 24 1 104d8 10570 13 2 10597 10571 5 2",
   "10598 1057d 7 2 105a4 1058d 3 2 105b4 10595 1 1 105bc 10c80 33 1 10cc0 10d50 16 1 10d70",
   "118a0 20 1 118c0 16e40 20 1 16e60 16ea0 19 1 16ebb 1e900 22 1 1e922"]

/-- Characters outside ASCII with a single upper-case character. -/
def upperRuns : List CaseRun := CaseRun.ofNumbers <| hexRows
  ["b5 1 1 39c e0 17 1 c0 f8 7 1 d8 ff 1 1 178 101 18 2 100 131 1 1 49 133 3 2 132 13a 8 2 139",
   "14b 17 2 14a 17a 3 2 179 17f 1 1 53 180 1 1 243 183 2 2 182 188 1 1 187 18c 1 1 18b 192 1 1",
   "191 195 1 1 1f6 199 1 1 198 19a 1 1 23d 19b 1 1 a7dc 19e 1 1 220 1a1 3 2 1a0 1a8 1 1 1a7 1ad",
   "1 1 1ac 1b0 1 1 1af 1b4 2 2 1b3 1b9 1 1 1b8 1bd 1 1 1bc 1bf 1 1 1f7 1c5 1 1 1c4 1c6 1 1 1c4",
   "1c8 1 1 1c7 1c9 1 1 1c7 1cb 1 1 1ca 1cc 1 1 1ca 1ce 8 2 1cd 1dd 1 1 18e 1df 9 2 1de 1f2 1 1",
   "1f1 1f3 1 1 1f1 1f5 1 1 1f4 1f9 14 2 1f8 223 9 2 222 23c 1 1 23b 23f 2 1 2c7e 242 1 1 241",
   "247 5 2 246 250 1 1 2c6f 251 1 1 2c6d 252 1 1 2c70 253 1 1 181 254 1 1 186 256 2 1 189 259 1",
   "1 18f 25b 1 1 190 25c 1 1 a7ab 260 1 1 193 261 1 1 a7ac 263 1 1 194 264 1 1 a7cb 265 1 1",
   "a78d 266 1 1 a7aa 268 1 1 197 269 1 1 196 26a 1 1 a7ae 26b 1 1 2c62 26c 1 1 a7ad 26f 1 1 19c",
   "271 1 1 2c6e 272 1 1 19d 275 1 1 19f 27d 1 1 2c64 280 1 1 1a6 282 1 1 a7c5 283 1 1 1a9 287 1",
   "1 a7b1 288 1 1 1ae 289 1 1 244 28a 2 1 1b1 28c 1 1 245 292 1 1 1b7 29d 1 1 a7b2 29e 1 1 a7b0",
   "345 1 1 399 371 2 2 370 377 1 1 376 37b 3 1 3fd 3ac 1 1 386 3ad 3 1 388 3b1 11 1 391 3c2 1 1",
   "3a3 3c3 9 1 3a3 3cc 1 1 38c 3cd 2 1 38e 3d0 1 1 392 3d1 1 1 398 3d5 1 1 3a6 3d6 1 1 3a0 3d7",
   "1 1 3cf 3d9 c 2 3d8 3f0 1 1 39a 3f1 1 1 3a1 3f2 1 1 3f9 3f3 1 1 37f 3f5 1 1 395 3f8 1 1 3f7",
   "3fb 1 1 3fa 430 20 1 410 450 10 1 400 461 11 2 460 48b 1b 2 48a 4c2 7 2 4c1 4cf 1 1 4c0 4d1",
   "30 2 4d0 561 26 1 531 10d0 2b 1 1c90 10fd 3 1 1cbd 13f8 6 1 13f0 1c80 1 1 412 1c81 1 1 414",
   "1c82 1 1 41e 1c83 2 1 421 1c85 1 1 422 1c86 1 1 42a 1c87 1 1 462 1c88 1 1 a64a 1c8a 1 1 1c89",
   "1d79 1 1 a77d 1d7d 1 1 2c63 1d8e 1 1 a7c6 1e01 4b 2 1e00 1e9b 1 1 1e60 1ea1 30 2 1ea0 1f00 8",
   "1 1f08 1f10 6 1 1f18 1f20 8 1 1f28 1f30 8 1 1f38 1f40 6 1 1f48 1f51 4 2 1f59 1f60 8 1 1f68",
   "1f70 2 1 1fba 1f72 4 1 1fc8 1f76 2 1 1fda 1f78 2 1 1ff8 1f7a 2 1 1fea 1f7c 2 1 1ffa 1fb0 2 1",
   "1fb8 1fbe 1 1 399 1fd0 2 1 1fd8 1fe0 2 1 1fe8 1fe5 1 1 1fec 214e 1 1 2132 2170 10 1 2160",
   "2184 1 1 2183 24d0 1a 1 24b6 2c30 30 1 2c00 2c61 1 1 2c60 2c65 1 1 23a 2c66 1 1 23e 2c68 3 2",
   "2c67 2c73 1 1 2c72 2c76 1 1 2c75 2c81 32 2 2c80 2cec 2 2 2ceb 2cf3 1 1 2cf2 2d00 26 1 10a0",
   "2d27 1 1 10c7 2d2d 1 1 10cd a641 17 2 a640 a681 e 2 a680 a723 7 2 a722 a733 1f 2 a732 a77a 2",
   "2 a779 a77f 5 2 a77e a78c 1 1 a78b a791 2 2 a790 a794 1 1 a7c4 a797 a 2 a796 a7b5 8 2 a7b4",
   "a7c8 2 2 a7c7 a7cd 8 2 a7cc a7f6 1 1 a7f5 ab53 1 1 a7b3 ab70 50 1 13a0 ff41 1a 1 ff21 10428",
   "28 1 10400 104d8 24 1 104b0 10597 13 2 10570 10598 5 2 10571 105a4 7 2 1057d 105b4 3 2 1058d",
   "105bc 1 1 10595 10cc0 33 1 10c80 10d70 16 1 10d50 118c0 20 1 118a0 16e60 20 1 16e40 16ebb 19",
   "1 16ea0 1e922 22 1 1e900"]

/-- Images of up to three characters, filled up with zeros. -/
def expansionsOf : List Nat → List (Nat × List Nat)
  | c :: x :: y :: z :: rest => (c, [x, y, z].filter (· ≠ 0)) :: expansionsOf rest
  | _ => []

/-- Characters whose upper-case form has more than one character. -/
def upperExpansions : List (Nat × List Nat) := expansionsOf <| hexRows
  ["df 53 53 0 149 2bc 4e 0 1f0 4a 30c 0 390 399 308 301 3b0 3a5 308 301 587 535 552 0 1e96 48",
   "331 0 1e97 54 308 0 1e98 57 30a 0 1e99 59 30a 0 1e9a 41 2be 0 1f50 3a5 313 0 1f52 3a5 313",
   "300 1f54 3a5 313 301 1f56 3a5 313 342 1f80 1f08 399 0 1f81 1f09 399 0 1f82 1f0a 399 0 1f83",
   "1f0b 399 0 1f84 1f0c 399 0 1f85 1f0d 399 0 1f86 1f0e 399 0 1f87 1f0f 399 0 1f88 1f08 399 0",
   "1f89 1f09 399 0 1f8a 1f0a 399 0 1f8b 1f0b 399 0 1f8c 1f0c 399 0 1f8d 1f0d 399 0 1f8e 1f0e",
   "399 0 1f8f 1f0f 399 0 1f90 1f28 399 0 1f91 1f29 399 0 1f92 1f2a 399 0 1f93 1f2b 399 0 1f94",
   "1f2c 399 0 1f95 1f2d 399 0 1f96 1f2e 399 0 1f97 1f2f 399 0 1f98 1f28 399 0 1f99 1f29 399 0",
   "1f9a 1f2a 399 0 1f9b 1f2b 399 0 1f9c 1f2c 399 0 1f9d 1f2d 399 0 1f9e 1f2e 399 0 1f9f 1f2f",
   "399 0 1fa0 1f68 399 0 1fa1 1f69 399 0 1fa2 1f6a 399 0 1fa3 1f6b 399 0 1fa4 1f6c 399 0 1fa5",
   "1f6d 399 0 1fa6 1f6e 399 0 1fa7 1f6f 399 0 1fa8 1f68 399 0 1fa9 1f69 399 0 1faa 1f6a 399 0",
   "1fab 1f6b 399 0 1fac 1f6c 399 0 1fad 1f6d 399 0 1fae 1f6e 399 0 1faf 1f6f 399 0 1fb2 1fba",
   "399 0 1fb3 391 399 0 1fb4 386 399 0 1fb6 391 342 0 1fb7 391 342 399 1fbc 391 399 0 1fc2 1fca",
   "399 0 1fc3 397 399 0 1fc4 389 399 0 1fc6 397 342 0 1fc7 397 342 399 1fcc 397 399 0 1fd2 399",
   "308 300 1fd3 399 308 301 1fd6 399 342 0 1fd7 399 308 342 1fe2 3a5 308 300 1fe3 3a5 308 301",
   "1fe4 3a1 313 0 1fe6 3a5 342 0 1fe7 3a5 308 342 1ff2 1ffa 399 0 1ff3 3a9 399 0 1ff4 38f 399 0",
   "1ff6 3a9 342 0 1ff7 3a9 342 399 1ffc 3a9 399 0 fb00 46 46 0 fb01 46 49 0 fb02 46 4c 0 fb03",
   "46 46 49 fb04 46 46 4c fb05 53 54 0 fb06 53 54 0 fb13 544 546 0 fb14 544 535 0 fb15 544 53b",
   "0 fb16 54e 546 0 fb17 544 53d 0"]

/-- Letters with case, the property `Cased`. -/
def cased : CharSet := CharSet.ofRows
  ["41 1a 6 1a 2f 1 a 1 4 1 5 17 1 1f 1 c3 1 4 4 d0 2 23 7 2 1e 5 60 1 2a 4 2 2 2 4 1 1 6 1 1 3",
   "1 1 1 14 1 53 1 8b 8 a6 1 26 9 29 b17 26 1 1 5 1 2 2b 1 4 2a0 56 2 6 882 b 5 2b 2 3 40 c0 40",
   "116 2 6 2 26 2 6 2 8 1 1 1 1 1 1 1 1f 2 35 1 7 1 1 3 3 1 7 3 4 2 6 4 d 5 3 1 7 74 1 d 1 10 d",
   "65 1 4 1 2 a 1 1 3 5 6 1 1 1 1 1 1 4 1 6 4 1 2 4 5 5 4 1 11 20 3 2 331 34 716 e5 6 4 3 2 c",
   "26 1 1 5 1 7912 2e 12 1e 84 66 3 4 1 4d 14 6 1 3 335 2b 1 e 6 50 4f40 7 c 5 409 1a 6 1a 4a5",
   "50 60 24 4 24 74 b 1 f 1 7 1 2 1 b 1 f 1 7 1 2 1c3 1 2 3 1 2a 1 9 4c5 33 d 33 5d 16 a 16 b1a",
   "40 5560 40 20 19 2 19 652c 55 1 47 1 2 2 1 2 2 2 4 1 c 1 1 1 7 1 41 1 4 2 8 1 7 1 1c 1 4 1 5",
   "1 1 3 7 1 154 2 19 1 19 1 1f 1 19 1 1f 1 19 1 1f 1 19 1 1f 1 19 1 8 734 a 1 14 6 6 105 3e",
   "892 44 7ec 1a 6 1a 6 1a"]

/-- Characters that case conversion looks past, the property `Case_Ignorable`. -/
def caseIgnorable : CharSet := CharSet.ofRows
  ["27 1 6 1 b 1 23 1 1 1 47 1 4 1 1 1 4 1 2 2 1f7 c0 4 2 4 1 9 2 1 1 fb 7 cf 1 5 1 31 2d 1 1 1",
   "2 1 2 1 1 2c 1 b 6 a b 1 1 23 1 a 15 10 1 65 8 1 a 1 4 21 1 1 1 1e 1b 5b b 3a b 4 1 2 1 18",
   "18 2b 3 2c 1 7 2 5 9 29 3a 37 1 1 1 4 8 4 1 3 7 a 2 d 1 f 1 3a 1 4 4 8 1 14 2 1a 1 2 2 39 1",
   "4 2 4 2 2 3 3 1 1e 2 3 1 b 2 39 1 4 5 1 2 4 1 14 2 16 6 1 1 3a 1 2 1 1 4 8 1 7 2 b 2 1e 1 3d",
   "1 c 1 32 1 3 1 37 1 1 3 5 3 1 4 7 2 b 2 1d 1 3a 1 2 1 6 1 5 2 14 2 1c 2 39 2 4 4 8 1 14 2 1d",
   "1 48 1 7 3 1 1 5a 1 2 7 b 9 62 1 2 9 9 1 1 7 49 2 1b 1 1 1 1 1 37 e 1 5 1 2 5 b 1 24 9 1 66",
   "4 1 6 1 2 2 2 19 2 4 3 10 4 d 1 2 2 6 1 f 1 5e 1 260 3 3b2 3 1d 2 1e 2 1e 2 40 2 1 7 8 1 2 b",
   "3 1 5 1 2d 5 33 1 41 2 22 1 76 3 4 2 9 1 6 3 db 2 2 1 3a 1 1 7 1 1 1 1 2 8 6 a 2 1 27 1 8 2e",
   "2 c 14 4 30 1 1 5 1 1 5 1 28 9 c 2 20 4 2 2 1 3 38 1 1 2 3 1 1 3 3a 8 2 2 40 6 52 3 1 d 1 7",
   "4 1 6 1 3 2 32 3f d 1 22 65 1bd 1 1 3 b 3 d 3 d 3 d 2 c 5 8 2 a 1 2 1 2 5 31 5 1 a 1 1 d 1",
   "10 d 33 21 b8b 2 71 3 7d 1 f 1 60 20 2f 1 1d5 1 24 4 3 5 5 1 5d 6 5d 3 6f16 1 4e2 6 10e 1 62",
   "4 1 a 1 1 1c 4 50 2 e 22 4e 1 17 3 66 4 3 2 8 1 3 1 4 1 19 2 5 1 97 2 1a 12 d 1 26 8 19 b 2e",
   "3 30 1 2 4 2 2 11 1 15 2 42 6 2 2 2 2 c 1 8 1 23 1 b 1 33 1 1 3 2 2 5 2 1 1 1b 1 e 2 5 2 1 1",
   "64 5 9 3 79 1 2 1 4 1 4f30 1 93 11 23d 10 3 1 c 10 22 1 2 1 a9 1 7 1 6 1 b 1 23 1 1 1 2f 1",
   "2d 2 43 1 15 3 201 1 e2 1 95 5 405 6 1 2a 1 9 246 3 1 2 5 4 28 3 4 1 a5 2 23d 4 26 1 1a 5 1",
   "1 13b 2 18 1 34 6 46 b 31 4 7b 1 36 f 29 1 2 2 a 3 31 4 2 2 2 1 4 1 a 1 32 3 24 5 1 8 3e 1 c",
   "2 34 9 a 4 2 1 5f 3 2 1 1 2 6 1 2 1 9d 1 3 8 15 2 39 2 3 1 25 7 3 5 46 6 d 1 1 1 1 1 e 2 55",
   "8 2 3 1 1 17 1 54 6 1 1 4 2 1 2 ee 4 6 2 1 2 1b 2 55 8 2 1 1 2 6a 1 1 1 2 6 1 1 65 1 1 1 2 4",
   "1 5 103 9 1 2 100 2 1 1 4 1 90 4 2 2 4 1 20 a 28 6 2 4 8 1 9 6 2 3 2e d 1 2 c6 1 1 3 1 1 c9",
   "7 1 6 1 1 52 16 2 7 1 2 1 2 7a 6 3 1 1 2 1 7 1 1 48 2 3 1 1 1 41 1 119 2 b 2 34 5 5 1 1 1 17",
   "1 14d5 11 6 f 2cc8 c 3 3 9c0 5 3b 7 9 4 1fc 3 28 2 1e2 1 3f 11 40 2 1 2 d 2 3ffc 4 1 7 1 2",
   "c9e 2 1 4 125c 2e 2 17 220 3 9 10 2 7 1e 4 94 3 7bb 37 4 32 8 1 e 1 16 5 1 f 550 7 1 11 2 7",
   "1 2 1 5 5 3e 21 1 a0 e 170 1 3d 4 1fb 5 fe 2 f3 1 2 1 7 2 5 1 9 1 1d0 7 6d 8 aaf 5 c0c01 1",
   "1e 60 80 f0"]

/-- The lower-case form of a character by itself. -/
def lowerChar (c : Char) : List Char :=
  if c.toNat < 0x80 then [c.toLower]
  else if c.toNat = 0x130 then ['i', Char.ofNat 0x307]
  else match lowerRuns.findSome? (·.image? c.toNat) with
    | some image => [Char.ofNat image]
    | none => [c]

/-- The upper-case form of a character. -/
def upperChar (c : Char) : List Char :=
  if c.toNat < 0x80 then [c.toUpper]
  else match upperExpansions.find? (·.1 == c.toNat) with
    | some (_, images) => images.map Char.ofNat
    | none => match upperRuns.findSome? (·.image? c.toNat) with
      | some image => [Char.ofNat image]
      | none => [c]

/-- The capital letter whose lower-case form depends on its place. -/
def capitalSigma : Char := Char.ofNat 0x3a3

/-- Whether the first character not looked past is a letter with case. -/
def meetsCased (cs : List Char) : Bool :=
  match cs.dropWhile fun c => caseIgnorable.contains c.toNat with
  | c :: _ => cased.contains c.toNat
  | [] => false

/-- Lower-cases a text, given what stands before it in reverse. -/
def lowerFrom (before : List Char) : List Char → List Char
  | [] => []
  | c :: rest =>
    let image :=
      if c = capitalSigma then
        if meetsCased before && !meetsCased rest then [Char.ofNat 0x3c2] else [Char.ofNat 0x3c3]
      else lowerChar c
    image ++ lowerFrom (c :: before) rest

/-- The lower-case form of a text. -/
def lowerText (s : String) : String := String.ofList (lowerFrom [] s.toList)

/-- The upper-case form of a text. -/
def upperText (s : String) : String := String.ofList (s.toList.flatMap upperChar)

end Reckon
