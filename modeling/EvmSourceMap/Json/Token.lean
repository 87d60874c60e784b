import EvmSourceMap.Bytes.Hex
import EvmSourceMap.Bytes.Utf8
import EvmSourceMap.Decimal
import EvmSourceMap.Json

/-!
The tokens of a JSON text. Reading one token leaves a shorter text, which is why the whole text
comes to an end.
-/

namespace EvmSourceMap.Json

/-- The smallest parts of a JSON text. -/
inductive Token
  | openArray
  | closeArray
  | openObject
  | closeObject
  | colon
  | comma
  /-- A value that is no container. -/
  | scalar (value : Json)
  /-- A number beyond the range of double precision. -/
  | tooLarge
  /-- No token begins here; nothing behind this place is read. -/
  | malformed

namespace Token

/-- The blanks between tokens. -/
def isSpace (b : UInt8) : Bool :=
  b == 0x20 || b == 0x09 || b == 0x0a || b == 0x0d

/-- The value of four hexadecimal digits, and the text behind them. -/
def hexUnit? : Bytes → Option (Nat × Bytes)
  | a :: b :: c :: d :: rest => do
    let a ← Hex.digitValue? a
    let b ← Hex.digitValue? b
    let c ← Hex.digitValue? c
    let d ← Hex.digitValue? d
    some (((a.toNat * 16 + b.toNat) * 16 + c.toNat) * 16 + d.toNat, rest)
  | _ => none

/-- The byte that a one-letter escape stands for. -/
def simpleEscape? (letter : UInt8) : Option UInt8 :=
  [(0x22, 0x22), (0x5c, 0x5c), (0x2f, 0x2f), (0x62, 0x08), (0x66, 0x0c), (0x6e, 0x0a),
    (0x72, 0x0d), (0x74, 0x09)].lookup letter

/-- The code point of an escape with four digits, and the text behind it. A high surrogate has to
be followed by the escape of a low one, and together they are one code point. -/
def unicodeEscape? (digits : Bytes) : Option (Nat × Bytes) := do
  let (unit, rest) ← hexUnit? digits
  if 0xd800 ≤ unit ∧ unit < 0xdc00 then
    match rest with
    | 0x5c :: 0x75 :: lowDigits =>
      let (low, rest) ← hexUnit? lowDigits
      if 0xdc00 ≤ low ∧ low < 0xe000 then
        some (0x10000 + (unit - 0xd800) * 0x400 + (low - 0xdc00), rest)
      else none
    | _ => none
  else if 0xdc00 ≤ unit ∧ unit < 0xe000 then none
  else some (unit, rest)

theorem hexUnit?_length {s : Bytes} {n : Nat} {rest : Bytes} (h : hexUnit? s = some (n, rest)) :
    rest.length < s.length := by
  unfold hexUnit? at h
  split at h
  · simp only [Option.bind_eq_bind, Option.bind_eq_some_iff, Option.some.injEq, Prod.mk.injEq] at h
    obtain ⟨_, _, _, _, _, _, _, _, _, rfl⟩ := h
    simp only [List.length_cons]
    omega
  · simp at h

theorem unicodeEscape?_length {s : Bytes} {n : Nat} {rest : Bytes}
    (h : unicodeEscape? s = some (n, rest)) : rest.length < s.length := by
  simp only [unicodeEscape?, Option.bind_eq_bind, Option.bind_eq_some_iff] at h
  obtain ⟨⟨unit, tail⟩, hunit, h⟩ := h
  have htail := hexUnit?_length hunit
  simp only at h
  split at h
  · split at h
    · next lowDigits =>
      simp only [Option.bind_eq_some_iff] at h
      obtain ⟨⟨low, tail'⟩, hlow, h⟩ := h
      have hlow' := hexUnit?_length hlow
      simp only at h
      split at h
      · simp only [Option.some.injEq, Prod.mk.injEq] at h
        obtain ⟨_, rfl⟩ := h
        simp only [List.length_cons] at htail
        omega
      · simp at h
    · simp at h
  · split at h
    · simp at h
    · simp only [Option.some.injEq, Prod.mk.injEq] at h
      obtain ⟨_, rfl⟩ := h
      exact htail

/-- The text of a string behind its opening quote, as far as it was read, and what follows the
closing quote. Control characters have to be escaped. -/
def stringBody? (done : Bytes) (s : Bytes) : Option (Bytes × Bytes) :=
  match s with
  | [] => none
  | 0x22 :: rest => some (done.reverse, rest)
  | 0x5c :: 0x75 :: digits =>
    match _h : unicodeEscape? digits with
    | some (c, rest) => stringBody? ((Utf8.encode c).reverse ++ done) rest
    | none => none
  | 0x5c :: letter :: rest =>
    match simpleEscape? letter with
    | some b => stringBody? (b :: done) rest
    | none => none
  | b :: rest => if b < 0x20 || b == 0x5c then none else stringBody? (b :: done) rest
termination_by s.length
decreasing_by
  · have := unicodeEscape?_length _h
    simp only [List.length_cons]
    omega
  · simp only [List.length_cons]
    omega
  · simp only [List.length_cons]
    omega

/-- Reads one or more digits; what is behind them comes with them. -/
def digits? (text : Bytes) : Option (Bytes × Bytes) :=
  let digits := text.takeWhile Decimal.isDigit
  if digits.isEmpty then none else some (digits, text.dropWhile Decimal.isDigit)

/-- Reads the integer part of a number. A zero in front is the whole of it. -/
def whole? : Bytes → Option (Bytes × Bytes)
  | 0x30 :: rest => some ([0x30], rest)
  | text => digits? text

/-- Reads what may follow the integer part of a number: a point, which needs digits behind it. -/
def fraction? : Bytes → Option (Option Bytes × Bytes)
  | 0x2e :: text => (digits? text).map fun (digits, rest) => (some digits, rest)
  | text => some (none, text)

/-- Reads digits with either sign or none. -/
def signed? : Bytes → Option (Int × Bytes)
  | 0x2b :: text => (digits? text).map fun (digits, rest) => (Decimal.digitsValue digits, rest)
  | 0x2d :: text => (digits? text).map fun (digits, rest) => (-Decimal.digitsValue digits, rest)
  | text => (digits? text).map fun (digits, rest) => (Decimal.digitsValue digits, rest)

/-- Reads what may come last in a number: the letter of an exponent, which needs digits behind
it. -/
def exponent? : Bytes → Option (Option Int × Bytes)
  | [] => some (none, [])
  | b :: text =>
    if b == 0x65 || b == 0x45 then (signed? text).map fun (value, rest) => (some value, rest)
    else some (none, b :: text)

/-- The number with the given parts. Without a fraction and an exponent it is an integer if it fits
into 64 bits, with or without a sign. -/
def ofNumber (negative : Bool) (whole : Bytes) (fraction : Option Bytes) (exponent : Option Int) :
    Token :=
  let size : Int := Decimal.digitsValue whole
  let value := if negative then -size else size
  if fraction.isNone ∧ exponent.isNone ∧ Int64.minValue.toInt ≤ value ∧ value < UInt64.size then
    scalar (integer value)
  else
    let digits := fraction.getD []
    let result := Binary64.ofDecimal negative (Decimal.digitsValue (whole ++ digits))
      (exponent.getD 0 - digits.length)
    if result.isFinite then scalar (real result) else tooLarge

/-- Reads a number: an optional minus sign, the integer part, and what may follow it. The number
ends where its grammar ends; what is behind it belongs to other tokens. -/
def number? (text : Bytes) : Option (Token × Bytes) := do
  let negative := text.head? == some 0x2d
  let (whole, text) ← whole? (if negative then text.drop 1 else text)
  let (fraction, text) ← fraction? text
  let (exponent, text) ← exponent? text
  return (ofNumber negative whole fraction exponent, text)

/-- The words that are values, by their letters. -/
def word? (letters : Bytes) : Option Json :=
  [(Bytes.ofString "null", null), ("true", bool true), ("false", bool false)].lookup letters

/-- Whether a byte may be part of a word. -/
def isLetter (b : UInt8) : Bool :=
  0x61 ≤ b && b ≤ 0x7a

/-- The tokens that are one character. -/
def punctuation? (b : UInt8) : Option Token :=
  match b with
  | 0x5b => some openArray
  | 0x5d => some closeArray
  | 0x7b => some openObject
  | 0x7d => some closeObject
  | 0x3a => some colon
  | 0x2c => some comma
  | _ => none

/-- The token at the start of a text that begins with the byte `b` and goes on with `rest`, and
what is behind it, if a token begins there. A string has to be valid UTF-8. -/
def next? (b : UInt8) (rest : Bytes) : Option (Token × Bytes) :=
  match punctuation? b with
  | some token => some (token, rest)
  | none =>
    if b == 0x22 then
      (stringBody? [] rest).bind fun (text, behind) =>
        if Utf8.isValid text then some (scalar (string text), behind) else none
    else if b == 0x2d || Decimal.isDigit b then
      number? (b :: rest)
    else
      (word? (b :: rest.takeWhile isLetter)).map fun value =>
        (scalar value, rest.dropWhile isLetter)

theorem stringBody?_length {done s text rest : Bytes} (h : stringBody? done s = some (text, rest)) :
    rest.length ≤ s.length := by
  fun_induction stringBody? done s with
  | case1 => simp at h
  | case2 done rest' =>
    simp only [Option.some.injEq, Prod.mk.injEq] at h
    obtain ⟨_, rfl⟩ := h
    simp
  | case3 done digits c rest' hescape ih =>
    have := ih h
    have := unicodeEscape?_length hescape
    simp only [List.length_cons]
    omega
  | case4 => simp at h
  | case5 done letter rest' _ b _ ih =>
    have := ih h
    simp only [List.length_cons]
    omega
  | case6 => simp at h
  | case7 => simp at h
  | case8 done b rest' _ _ _ _ ih =>
    have := ih h
    simp only [List.length_cons]
    omega

theorem digits?_length {text digits rest : Bytes} (h : digits? text = some (digits, rest)) :
    rest.length < text.length := by
  simp only [digits?, Option.ite_none_left_eq_some, Option.some.injEq, Prod.mk.injEq] at h
  obtain ⟨hne, rfl, rfl⟩ := h
  have hparts := congrArg List.length
    (List.takeWhile_append_dropWhile (p := Decimal.isDigit) (l := text))
  have hpos := List.length_pos_iff.2 (mt List.isEmpty_iff.2 hne)
  rw [List.length_append] at hparts
  omega

theorem whole?_length {text digits rest : Bytes} (h : whole? text = some (digits, rest)) :
    rest.length < text.length := by
  unfold whole? at h
  split at h
  · simp only [Option.some.injEq, Prod.mk.injEq] at h
    obtain ⟨_, rfl⟩ := h
    simp
  · exact digits?_length h

theorem fraction?_length {text rest : Bytes} {fraction : Option Bytes}
    (h : fraction? text = some (fraction, rest)) : rest.length ≤ text.length := by
  unfold fraction? at h
  split at h
  · simp only [Option.map_eq_some_iff, Prod.mk.injEq] at h
    obtain ⟨⟨_, _⟩, hdigits, _, rfl⟩ := h
    have := digits?_length hdigits
    simp only [List.length_cons]
    omega
  · simp only [Option.some.injEq, Prod.mk.injEq] at h
    obtain ⟨_, rfl⟩ := h
    exact Nat.le_refl _

theorem signed?_length {text rest : Bytes} {value : Int} (h : signed? text = some (value, rest)) :
    rest.length < text.length := by
  unfold signed? at h
  split at h <;> simp only [Option.map_eq_some_iff, Prod.mk.injEq] at h <;>
    obtain ⟨⟨_, _⟩, hdigits, _, rfl⟩ := h <;> have := digits?_length hdigits
  · simp only [List.length_cons]
    omega
  · simp only [List.length_cons]
    omega
  · exact this

theorem exponent?_length {text rest : Bytes} {exponent : Option Int}
    (h : exponent? text = some (exponent, rest)) : rest.length ≤ text.length := by
  unfold exponent? at h
  split at h
  · simp_all
  · split at h
    · simp only [Option.map_eq_some_iff, Prod.mk.injEq] at h
      obtain ⟨⟨_, _⟩, hsigned, _, rfl⟩ := h
      have := signed?_length hsigned
      simp only [List.length_cons]
      omega
    · simp only [Option.some.injEq, Prod.mk.injEq] at h
      obtain ⟨_, rfl⟩ := h
      exact Nat.le_refl _

theorem number?_length {text rest : Bytes} {token : Token}
    (h : number? text = some (token, rest)) : rest.length < text.length := by
  simp only [number?, Option.bind_eq_bind, Option.bind_eq_some_iff] at h
  obtain ⟨⟨_, text₁⟩, hwhole, ⟨_, text₂⟩, hfraction, ⟨_, text₃⟩, hexponent, h⟩ := h
  simp only [Option.pure_def, Option.some.injEq, Prod.mk.injEq] at h
  obtain ⟨_, rfl⟩ := h
  have hunsigned : (if (text.head? == some 0x2d) = true then text.drop 1 else text).length ≤
      text.length := by
    split
    · simp
    · exact Nat.le_refl _
  have := whole?_length hwhole
  have : text₂.length ≤ text₁.length := fraction?_length hfraction
  have : text₃.length ≤ text₂.length := exponent?_length hexponent
  omega

theorem next?_length {b : UInt8} {rest behind : Bytes} {token : Token}
    (h : next? b rest = some (token, behind)) : behind.length ≤ rest.length := by
  unfold next? at h
  split at h
  · simp_all
  · split at h
    · simp only [Option.bind_eq_some_iff] at h
      obtain ⟨⟨text, tail⟩, hbody, h⟩ := h
      simp only [Option.ite_none_right_eq_some, Option.some.injEq, Prod.mk.injEq] at h
      obtain ⟨_, _, rfl⟩ := h
      exact stringBody?_length hbody
    · split at h
      · have := number?_length h
        simp only [List.length_cons] at this
        omega
      · simp only [Option.map_eq_some_iff, Prod.mk.injEq] at h
        obtain ⟨_, _, _, rfl⟩ := h
        exact (List.dropWhile_sublist isLetter).length_le

/-- The tokens of a text, up to the first place where none begins. -/
def ofText (s : Bytes) : List Token :=
  match s with
  | [] => []
  | b :: rest =>
    if isSpace b then ofText rest
    else
      match _h : next? b rest with
      | some (token, behind) => token :: ofText behind
      | none => [malformed]
termination_by s.length
decreasing_by
  · simp only [List.length_cons]
    omega
  · have := next?_length _h
    simp only [List.length_cons]
    omega

end Token

end EvmSourceMap.Json
