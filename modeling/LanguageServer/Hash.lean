/-! The 64-bit XXH64 hash of a text. -/
namespace LanguageServer.Hash

def prime1 : UInt64 := 0x9E3779B185EBCA87
def prime2 : UInt64 := 0xC2B2AE3D27D4EB4F
def prime3 : UInt64 := 0x165667B19E3779F9
def prime4 : UInt64 := 0x85EBCA77C2B2AE63
def prime5 : UInt64 := 0x27D4EB2F165667C5

def rotate (x : UInt64) (k : UInt64) : UInt64 := (x <<< k) ||| (x >>> (64 - k))

/-- Bytes as a number, the least significant first. -/
def littleEndian (bytes : List UInt8) : UInt64 :=
  bytes.foldr (fun b n => n <<< 8 ||| b.toUInt64) 0

def round (lane word : UInt64) : UInt64 := rotate (lane + word * prime2) 31 * prime1

def merge (hash lane : UInt64) : UInt64 := (hash ^^^ round 0 lane) * prime1 + prime4

structure Lanes where
  first : UInt64
  second : UInt64
  third : UInt64
  fourth : UInt64

def Lanes.start (seed : UInt64) : Lanes :=
  ⟨seed + prime1 + prime2, seed + prime2, seed, seed - prime1⟩

/-- Takes in 32 bytes, eight to a lane. -/
def Lanes.absorb (l : Lanes) (stripe : List UInt8) : Lanes :=
  let word (k : Nat) := littleEndian ((stripe.drop (8 * k)).take 8)
  ⟨round l.first (word 0), round l.second (word 1), round l.third (word 2), round l.fourth (word 3)⟩

def Lanes.join (l : Lanes) : UInt64 :=
  let mixed := rotate l.first 1 + rotate l.second 7 + rotate l.third 12 + rotate l.fourth 18
  merge (merge (merge (merge mixed l.first) l.second) l.third) l.fourth

/-- The lanes after all whole stripes, and the bytes left over. -/
def stripes : Nat → Lanes → List UInt8 → Lanes × List UInt8
  | 0, l, bytes => (l, bytes)
  | n + 1, l, bytes => stripes n (l.absorb (bytes.take 32)) (bytes.drop 32)

/-- Mixes in fewer than 32 bytes: by eight, then four, then one. -/
def tail : Nat → UInt64 → List UInt8 → UInt64
  | 0, hash, _ => hash
  | fuel + 1, hash, bytes =>
    if 8 ≤ bytes.length then
      let word := round 0 (littleEndian (bytes.take 8))
      tail fuel (rotate (hash ^^^ word) 27 * prime1 + prime4) (bytes.drop 8)
    else if 4 ≤ bytes.length then
      let word := littleEndian (bytes.take 4) * prime1
      tail fuel (rotate (hash ^^^ word) 23 * prime2 + prime3) (bytes.drop 4)
    else match bytes with
      | [] => hash
      | b :: rest => tail fuel (rotate (hash ^^^ (b.toUInt64 * prime5)) 11 * prime1) rest

def avalanche (h : UInt64) : UInt64 :=
  let h := (h ^^^ (h >>> 33)) * prime2
  let h := (h ^^^ (h >>> 29)) * prime3
  h ^^^ (h >>> 32)

/-- The hash of a list of bytes. -/
def ofBytes (seed : UInt64) (bytes : List UInt8) : UInt64 :=
  let (start, rest) :=
    if 32 ≤ bytes.length then
      let (lanes, rest) := stripes (bytes.length / 32) (Lanes.start seed) bytes
      (lanes.join, rest)
    else (seed + prime5, bytes)
  avalanche (tail 32 (start + bytes.length.toUInt64) rest)

/-- The hash of a text: of its UTF-8 bytes and a byte 255 that no text holds. -/
def ofText (text : String) : UInt64 := ofBytes 0 (text.toUTF8.toList ++ [255])

end LanguageServer.Hash
