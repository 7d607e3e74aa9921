/-! Labels beyond ASCII written in ASCII: what is ASCII comes first, then, in the order of the other
characters, how far each stands from the one before it. -/
namespace LanguageServer.Url.Punycode

def digit (n : Nat) : Char := if n < 26 then Char.ofNat (97 + n) else Char.ofNat (22 + n)

def digitValue? (c : Char) : Option Nat :=
  if c.isLower then some (c.toNat - 97)
  else if c.isUpper then some (c.toNat - 65)
  else if c.isDigit then some (c.toNat - 22)
  else none

/-- A digit that is written is read back. -/
theorem digitValue?_digit {n : Nat} (h : n < 36) : digitValue? (digit n) = some n := by
  have all : ∀ m ∈ List.range 36, digitValue? (digit m) = some m := by decide
  exact all n (List.mem_range.2 h)

/-- From which value on a digit is followed by another. -/
def threshold (bias k : Nat) : Nat := if k ≤ bias then 1 else if bias + 26 ≤ k then 26 else k - bias

theorem threshold_pos (bias k : Nat) : 1 ≤ threshold bias k := by
  unfold threshold
  split
  · omega
  · split <;> omega

theorem threshold_le (bias k : Nat) : threshold bias k ≤ 26 := by
  unfold threshold
  split
  · omega
  · split <;> omega

/-- The bias after a distance, when `count` characters stand. -/
def adapt (distance count : Nat) (first : Bool) : Nat :=
  let d := if first then distance / 700 else distance / 2
  settle (d + d / count) 0
where
  settle (d k : Nat) : Nat := if 455 < d then settle (d / 35) (k + 36) else k + 36 * d / (d + 38)
  termination_by d

/-- A distance in digits, the lowest first; the weights of the digits follow the bias. -/
def writeDistance (bias k q : Nat) : List Char :=
  let t := threshold bias k
  if q < t then [digit q]
  else digit (t + (q - t) % (36 - t)) :: writeDistance bias (k + 36) ((q - t) / (36 - t))
termination_by q
decreasing_by
  have := threshold_pos bias k
  have := threshold_le bias k
  calc (q - threshold bias k) / (36 - threshold bias k)
      ≤ q - threshold bias k := Nat.div_le_self _ _
    _ < q := by omega

structure Writer where
  distance : Nat := 0
  bias : Nat := 72
  written : Nat
  /-- The digits so far, from the last. -/
  digits : List Char := []

/-- Passes a character: one that is less than `next` adds to the distance, `next` is written. -/
def Writer.pass (basic next : Nat) (w : Writer) (c : Nat) : Writer :=
  if c < next then { w with distance := w.distance + 1 }
  else if c = next then
    { distance := 0
      bias := adapt w.distance (w.written + 1) (w.written = basic)
      written := w.written + 1
      digits := (writeDistance w.bias 36 w.distance).reverse ++ w.digits }
  else w

/-- Writes the characters of `order`, each once for every time it is in the label. -/
def Writer.run (label : List Nat) (basic : Nat) : List Nat → Nat → Writer → Writer
  | [], _, w => w
  | next :: order, from_, w =>
    let w := { w with distance := w.distance + (next - from_) * (w.written + 1) }
    let w := label.foldl (Writer.pass basic next) w
    run label basic order (next + 1) { w with distance := w.distance + 1 }

/-- A list in order, without what follows itself. -/
def ascending (ns : List Nat) : List Nat :=
  (ns.mergeSort (· ≤ ·)).foldr (fun n rest => if rest.head? = some n then rest else n :: rest) []

/-- A label in ASCII. -/
def encode (label : List Char) : List Char :=
  let basic := label.filter fun c => c.toNat < 128
  let order := ascending ((label.map Char.toNat).filter (128 ≤ ·))
  let w := Writer.run (label.map Char.toNat) basic.length order 128 { written := basic.length }
  basic ++ (if basic.isEmpty then [] else ['-']) ++ w.digits.reverse

/-- Numbers that are as large as this are refused. -/
def bound : Nat := 0x100000000

/-- Reads a distance and adds it to `i`; what is left is what follows its last digit. -/
def readDistance (bias : Nat) : List Char → Nat → Nat → Nat → Option (Nat × List Char)
  | [], _, _, _ => none
  | c :: rest, k, weight, i => do
    let d ← digitValue? c
    let i := i + d * weight
    if bound ≤ i then none
    else if d < threshold bias k then some (i, rest)
    else
      let weight := weight * (36 - threshold bias k)
      if bound ≤ weight then none else readDistance bias rest (k + 36) weight i

theorem length_lt_of_readDistance {bias : Nat} : ∀ {cs : List Char} {k weight i : Nat}
    {r : Nat × List Char}, readDistance bias cs k weight i = some r → r.2.length < cs.length
  | [], _, _, _, _, h => by simp [readDistance] at h
  | c :: rest, k, weight, i, r, h => by
    simp only [readDistance, Option.bind_eq_bind, Option.bind_eq_some_iff] at h
    obtain ⟨d, _, h⟩ := h
    split at h
    · simp at h
    · split at h
      · rw [← Option.some.inj h]; simp
      · split at h
        · simp at h
        · have := length_lt_of_readDistance h
          simp only [List.length_cons]
          omega

/-- Puts in one character after another. -/
def readAll (bias n i : Nat) (label : List Char) (cs : List Char) : Option (List Char) :=
  match cs with
  | [] => some label
  | c :: rest =>
    match _h : readDistance bias (c :: rest) 36 1 i with
    | none => none
    | some (j, rest) =>
      let count := label.length + 1
      let m := n + j / count
      if m.isValidChar then
        readAll (adapt (j - i) count (i = 0)) m (j % count + 1)
          (label.insertIdx (j % count) (Char.ofNat m)) rest
      else none
termination_by cs.length
decreasing_by exact length_lt_of_readDistance _h

/-- The label that ASCII stands for. What comes before the last hyphen stands for itself. -/
def decode (cs : List Char) : Option (List Char) :=
  let digits := (cs.reverse.takeWhile (· ≠ '-')).reverse
  let basic := cs.take (cs.length - digits.length - 1)
  if basic.isEmpty then readAll 72 128 0 [] cs else readAll 72 128 0 basic digits

end LanguageServer.Url.Punycode
