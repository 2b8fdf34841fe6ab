/-!
Base64 with padding, in its standard alphabet.

Reading accepts canonical text only: full groups of four, no bits set beyond the last byte. Errors name
the offending byte and its place, and the first one in the order of reading wins, but for a last byte
that stands alone in its group and is no symbol.
-/

namespace Reckon

namespace Base64

/-- Why a text is not canonical Base64. -/
inductive DecodeError where
  | invalidByte (offset : Nat) (byte : UInt8)
  | invalidLength (length : Nat)
  | invalidLastSymbol (offset : Nat) (byte : UInt8)
  | invalidPadding
deriving Repr, DecidableEq

def DecodeError.message : DecodeError → String
  | invalidByte offset byte =>
    "Invalid symbol " ++ toString byte.toNat ++ ", offset " ++ toString offset ++ "."
  | invalidLength length => "Invalid input length: " ++ toString length
  | invalidLastSymbol offset byte =>
    "Invalid last symbol " ++ toString byte.toNat ++ ", offset " ++ toString offset ++ "."
  | invalidPadding => "Invalid padding"

/-- The symbol of a number below 64. -/
def symbol (n : Nat) : Char :=
  if n < 26 then Char.ofNat (n + 'A'.toNat)
  else if n < 52 then Char.ofNat (n - 26 + 'a'.toNat)
  else if n < 62 then Char.ofNat (n - 52 + '0'.toNat)
  else if n = 62 then '+' else '/'

/-- The number of a symbol. -/
def number? (b : UInt8) : Option Nat :=
  let n := b.toNat
  if 0x41 ≤ n ∧ n ≤ 0x5a then some (n - 0x41)
  else if 0x61 ≤ n ∧ n ≤ 0x7a then some (n - 0x61 + 26)
  else if 0x30 ≤ n ∧ n ≤ 0x39 then some (n - 0x30 + 52)
  else if n = 0x2b then some 62
  else if n = 0x2f then some 63
  else none

/-- The padding byte, an equals sign. -/
def pad : UInt8 := 0x3d

def encode : List UInt8 → List Char
  | a :: b :: c :: rest =>
    let n := a.toNat * 65536 + b.toNat * 256 + c.toNat
    symbol (n / 262144) :: symbol (n / 4096 % 64) :: symbol (n / 64 % 64) :: symbol (n % 64) ::
      encode rest
  | [a, b] =>
    let n := a.toNat * 1024 + b.toNat * 4
    [symbol (n / 4096), symbol (n / 64 % 64), symbol (n % 64), '=']
  | [a] =>
    let n := a.toNat * 16
    [symbol (n / 64), symbol (n % 64), '=', '=']
  | [] => []

/-- The symbols of the last group before its padding, with their bytes. `padding?` is the offset of the
first padding byte. -/
def lastSymbols (offset index : Nat) (padding? : Option Nat) :
    List UInt8 → Except DecodeError (List (Nat × UInt8) × Nat)
  | [] => .ok ([], 0)
  | b :: rest =>
    if b = pad then
      if index < 2 then .error (.invalidByte (offset + index) b)
      else do
        let (symbols, count) ← lastSymbols offset (index + 1) (some (padding?.getD index)) rest
        .ok (symbols, count + 1)
    else match padding? with
      | some first => .error (.invalidByte (offset + first) pad)
      | none => match number? b with
        | none => .error (.invalidByte (offset + index) b)
        | some n => do
          let (symbols, count) ← lastSymbols offset (index + 1) none rest
          .ok ((n, b) :: symbols, count)

/-- Reads the last group, of at most four bytes, at an offset. -/
def decodeLast (offset : Nat) (group : List UInt8) : Except DecodeError (List UInt8) := do
  let (symbols, padding) ← lastSymbols offset 0 none group
  if symbols.length < 2 then throw (.invalidLength (offset + symbols.length))
  if (padding + symbols.length) % 4 ≠ 0 then throw .invalidPadding
  let bits := symbols.foldl (fun n (m, _) => 64 * n + m) 0
  let count := symbols.length * 6 / 8
  let spare := symbols.length * 6 % 8
  if bits % Nat.pow 2 spare ≠ 0 then
    throw (.invalidLastSymbol (offset + symbols.length - 1)
      ((symbols.getLast?.map (·.2)).getD 0))
  let bytes := bits / Nat.pow 2 spare
  pure ((List.range count).map fun i => UInt8.ofNat (bytes / Nat.pow 256 (count - 1 - i)))

/-- Reads groups of four, the last one apart. -/
def decodeGroups (offset : Nat) : List UInt8 → Except DecodeError (List UInt8)
  | a :: b :: c :: d :: e :: rest => do
    let symbols ← [a, b, c, d].zipIdx.mapM fun (x, i) =>
      match number? x with
      | some n => Except.ok n
      | none => .error (.invalidByte (offset + i) x)
    let n := symbols.foldl (fun n m => 64 * n + m) 0
    let bytes ← decodeGroups (offset + 4) (e :: rest)
    .ok (UInt8.ofNat (n / 65536) :: UInt8.ofNat (n / 256) :: UInt8.ofNat n :: bytes)
  | [] => .ok []
  | group => decodeLast offset group

def decode (bytes : List UInt8) : Except DecodeError (List UInt8) :=
  match bytes.getLast? with
  | some last =>
    if bytes.length % 4 = 1 ∧ last ≠ pad ∧ (number? last).isNone then
      .error (.invalidByte (bytes.length - 1) last)
    else decodeGroups 0 bytes
  | none => .ok []

end Base64
end Reckon
