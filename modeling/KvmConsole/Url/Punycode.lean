/-!
# Punycode

How a label of a domain name that is not all ASCII is written in ASCII: the ASCII characters, a
hyphen, and then the others in the order of their code points, each as the distance from the one
before it in a number system whose weights adapt to the distances.
-/

namespace KvmConsole.Url.Punycode

/-- The digits are the letters and then the decimal digits. -/
def digitChar (d : Nat) : Char :=
  if d < 26 then Char.ofNat ('a'.toNat + d) else Char.ofNat ('0'.toNat + d - 26)

def digitValue? (c : Char) : Option Nat :=
  if 'a' ≤ c ∧ c ≤ 'z' then some (c.toNat - 'a'.toNat)
  else if 'A' ≤ c ∧ c ≤ 'Z' then some (c.toNat - 'A'.toNat)
  else if '0' ≤ c ∧ c ≤ '9' then some (c.toNat - '0'.toNat + 26)
  else none

/-- The value from which on a digit at place `k` is not the last one. -/
def threshold (k bias : Nat) : Nat :=
  if k ≤ bias then 1 else if bias + 26 ≤ k then 26 else k - bias

theorem threshold_pos (k bias : Nat) : 1 ≤ threshold k bias := by
  unfold threshold
  split
  · omega
  · split <;> omega

theorem threshold_le (k bias : Nat) : threshold k bias ≤ 26 := by
  unfold threshold
  split
  · omega
  · split <;> omega

/-- Brings a distance down to 455, a digit at a time. -/
def reduce (delta k : Nat) : Nat × Nat :=
  if 455 < delta then reduce (delta / 35) (k + 36) else (delta, k)
termination_by delta
decreasing_by exact Nat.div_lt_self (by omega) (by omega)

/-- The bias after a distance, with `count` characters in place. -/
def adapt (delta count : Nat) (first : Bool) : Nat :=
  let delta := if first then delta / 700 else delta / 2
  let (delta, k) := reduce (delta + delta / count) 0
  k + 36 * delta / (delta + 38)

/-- The digits of a distance, the last one below its threshold. -/
def encodeDistance (bias k q : Nat) : List Char :=
  let t := threshold k bias
  if q < t then [digitChar q]
  else digitChar (t + (q - t) % (36 - t)) :: encodeDistance bias (k + 36) ((q - t) / (36 - t))
termination_by q
decreasing_by
  have h1 := threshold_pos k bias
  have h2 := threshold_le k bias
  exact Nat.lt_of_le_of_lt (Nat.div_le_self _ _) (by omega)

/-- The state of writing: the digits so far, the distance that has built up, the bias, and the
    number of characters in place. -/
structure Writer where
  digits : List Char
  delta : Nat
  bias : Nat
  placed : Nat

/-- Passes one character while the code point `n` is placed. -/
def Writer.pass (basic n : Nat) (w : Writer) (c : Char) : Writer :=
  if c.toNat < n then { w with delta := w.delta + 1 }
  else if c.toNat = n then
    { digits := w.digits ++ encodeDistance w.bias 36 w.delta
      delta := 0
      bias := adapt w.delta (w.placed + 1) (w.placed = basic)
      placed := w.placed + 1 }
  else w

/-- Places the code points of a list, which are ascending and not below `n`. -/
def Writer.placeAll (label : List Char) (basic : Nat) : List Nat → Nat → Writer → Writer
  | [], _, w => w
  | m :: rest, n, w =>
    let w := { w with delta := w.delta + (m - n) * (w.placed + 1) }
    let w := label.foldl (Writer.pass basic m) w
    placeAll label basic rest (m + 1) { w with delta := w.delta + 1 }

/-- Puts a number into an ascending list, once. -/
def insertAscending (n : Nat) : List Nat → List Nat
  | [] => [n]
  | m :: rest =>
    if n < m then n :: m :: rest else if n = m then m :: rest else m :: insertAscending n rest

/-- Writes a label in ASCII. -/
def encode (label : List Char) : List Char :=
  let basic := label.filter (·.toNat < 0x80)
  let others := (label.filter (0x80 ≤ ·.toNat)).foldl (fun l c => insertAscending c.toNat l) []
  let w := Writer.placeAll label basic.length others 0x80 ⟨[], 0, 72, basic.length⟩
  basic ++ (if basic.isEmpty then [] else ['-']) ++ w.digits

/-- A distance at the front of a text, added to `sum`, and the text after it. -/
def decodeDistance (bias : Nat) : List Char → Nat → Nat → Nat → Option (Nat × List Char)
  | [], _, _, _ => none
  | c :: rest, k, weight, sum =>
    match digitValue? c with
    | none => none
    | some d =>
      if d < threshold k bias then some (sum + d * weight, rest)
      else decodeDistance bias rest (k + 36) (weight * (36 - threshold k bias)) (sum + d * weight)

theorem length_of_decodeDistance {bias : Nat} {s rest : List Char} {k weight sum n : Nat}
    (h : decodeDistance bias s k weight sum = some (n, rest)) : rest.length < s.length := by
  induction s generalizing k weight sum with
  | nil => exact nomatch h
  | cons c s ih =>
    rw [decodeDistance] at h
    split at h
    · exact nomatch h
    · split at h
      · simp only [Option.some.injEq, Prod.mk.injEq] at h
        obtain ⟨-, rfl⟩ := h
        simp only [List.length_cons]; omega
      · have := ih h
        simp only [List.length_cons]; omega

/-- Puts the characters that a text of distances describes into a label. -/
def placeDecoded (bias n i : Nat) (label s : List Char) : Option (List Char) :=
  match s with
  | [] => some label
  | c :: t =>
    match hd : decodeDistance bias (c :: t) 36 1 i with
    | none => none
    | some (j, rest) =>
      let count := label.length + 1
      let code := n + j / count
      let place := j % count
      if code.isValidChar then
        placeDecoded (adapt (j - i) count (i = 0)) code (place + 1)
          (label.insertIdx place (Char.ofNat code)) rest
      else none
termination_by s.length
decreasing_by exact length_of_decodeDistance hd

/-- Reads a label back: what is before the last hyphen is ASCII. -/
def decode (s : List Char) : Option (List Char) :=
  let tail := (s.reverse.takeWhile (· ≠ '-')).reverse
  let basic := (s.take (s.length - tail.length)).dropLast
  if basic.all (·.toNat < 0x80) then placeDecoded 72 0x80 0 basic tail else none

end KvmConsole.Url.Punycode
