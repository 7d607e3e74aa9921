/-! Text as bytes in UTF-8, and bytes that may or may not be text. -/
namespace LanguageServer.Text.Utf8

def encodeChar (c : Char) : List UInt8 := (String.singleton c).toUTF8.toList

def encode (s : String) : List UInt8 := s.toUTF8.toList

/-- A byte that may only follow another in UTF-8. -/
def isContinuation (b : UInt8) : Bool := 0x80 ≤ b && b < 0xC0

/-- The first character of a byte list that is UTF-8, and the bytes after it; else the number of
bytes that could have begun one. -/
def nextChar (bytes : List UInt8) : Except Nat (Char × List UInt8) :=
  let char (n : Nat) (rest : List UInt8) : Except Nat (Char × List UInt8) := .ok (Char.ofNat n, rest)
  match bytes with
  | [] => .error 0
  | a :: rest =>
    let x := a.toNat
    if x < 0x80 then char x rest
    else if 0xC2 ≤ x ∧ x ≤ 0xDF then
      match rest with
      | b :: rest => if isContinuation b then char ((x - 0xC0) * 64 + (b.toNat - 128)) rest else .error 1
      | [] => .error 1
    else if 0xE0 ≤ x ∧ x ≤ 0xEF then
      match rest with
      | b :: rest =>
        -- neither longer than needed nor a surrogate
        if isContinuation b ∧ (x ≠ 0xE0 ∨ 0xA0 ≤ b) ∧ (x ≠ 0xED ∨ b < 0xA0) then
          match rest with
          | c :: rest =>
            if isContinuation c then
              char ((x - 0xE0) * 4096 + (b.toNat - 128) * 64 + (c.toNat - 128)) rest
            else .error 2
          | [] => .error 2
        else .error 1
      | [] => .error 1
    else if 0xF0 ≤ x ∧ x ≤ 0xF4 then
      match rest with
      | b :: rest =>
        -- neither longer than needed nor beyond the last code point
        if isContinuation b ∧ (x ≠ 0xF0 ∨ 0x90 ≤ b) ∧ (x ≠ 0xF4 ∨ b < 0x90) then
          match rest with
          | c :: rest =>
            if isContinuation c then
              match rest with
              | d :: rest =>
                if isContinuation d then
                  char ((x - 0xF0) * 262144 + (b.toNat - 128) * 4096 + (c.toNat - 128) * 64
                    + (d.toNat - 128)) rest
                else .error 3
              | [] => .error 3
            else .error 2
          | [] => .error 2
        else .error 1
      | [] => .error 1
    else .error 1

/-- The text of bytes; those that are no UTF-8 become replacement characters, one for every
longest run that could have begun a character. -/
def lossyText (bytes : List UInt8) : String := String.ofList (go bytes.length bytes)
where
  go : Nat → List UInt8 → List Char
    | 0, _ => []
    | fuel + 1, bytes =>
      match nextChar bytes with
      | .ok (c, rest) => c :: go fuel rest
      | .error 0 => []
      | .error n => '\uFFFD' :: go fuel (bytes.drop n)

def text? (bytes : List UInt8) : Option String := (go bytes.length bytes).map String.ofList
where
  go : Nat → List UInt8 → Option (List Char)
    | _, [] => some []
    | 0, _ => none
    | fuel + 1, bytes =>
      match nextChar bytes with
      | .ok (c, rest) => (go fuel rest).map (c :: ·)
      | .error _ => none

end LanguageServer.Text.Utf8
