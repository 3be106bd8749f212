import Rerun.Json.Number

/-!
# JSON tokens

A document is cut into tokens from left to right. The first bytes that start no token become a
`fault`, and nothing is read behind it.

A string is kept in pieces until it is asked for as text, since a string that nobody asks for may
hold what is no text.
-/

namespace Rerun.Json

/-- A piece of a string: a byte, or a code unit given by its number. -/
inductive Piece where
  | byte (b : UInt8)
  | unit (u : Nat)
  deriving DecidableEq

/-- A lexical unit of a document. -/
inductive Token where
  | openArray
  | closeArray
  | openObject
  | closeObject
  | comma
  | colon
  | null
  | bool (b : Bool)
  | number (n : Number)
  | string (pieces : List Piece)
  | fault

/-! ## Strings -/

/-- The bytes of some pieces. A high surrogate has to be followed by a low one, which has no other
place. -/
def pieceBytes? : List Piece → Option Bytes
  | [] => some []
  | .byte b :: rest => (b :: ·) <$> pieceBytes? rest
  | .unit u :: rest =>
    if 0xD800 ≤ u ∧ u < 0xDC00 then
      match rest with
      | .unit v :: rest =>
        if 0xDC00 ≤ v ∧ v < 0xE000 then
          let c := 0x10000 + (u - 0xD800) * 0x400 + (v - 0xDC00)
          (String.utf8EncodeChar (Char.ofNat c) ++ ·) <$> pieceBytes? rest
        else none
      | _ => none
    else if 0xDC00 ≤ u ∧ u < 0xE000 then none
    else (String.utf8EncodeChar (Char.ofNat u) ++ ·) <$> pieceBytes? rest

/-- The text of some pieces. -/
def pieceText? (ps : List Piece) : Option String := pieceBytes? ps >>= Bytes.text?

def hexValue? (b : UInt8) : Option Nat :=
  if 0x30 ≤ b && b ≤ 0x39 then some (b.toNat - 0x30)
  else if 0x61 ≤ b && b ≤ 0x66 then some (b.toNat - 0x57)
  else if 0x41 ≤ b && b ≤ 0x46 then some (b.toNat - 0x37)
  else none

def hex4? (a b c d : UInt8) : Option Nat := do
  return (← hexValue? a) * 4096 + (← hexValue? b) * 256 + (← hexValue? c) * 16 + (← hexValue? d)

/-- The byte that a letter behind a backslash stands for. -/
def escaped? (b : UInt8) : Option UInt8 :=
  match b with
  | 0x22 | 0x5C | 0x2F => some b
  | 0x62 => some 0x08
  | 0x66 => some 0x0C
  | 0x6E => some 0x0A
  | 0x72 => some 0x0D
  | 0x74 => some 0x09
  | _ => none

/-- The pieces up to the closing quote, and what follows it. The pieces read before stand in `done`,
the last first. -/
def scanString (done : List Piece) : Bytes → Option (List Piece × Bytes)
  | [] => none
  | 0x22 :: rest => some (done.reverse, rest)
  | 0x5C :: 0x75 :: a :: b :: c :: d :: rest =>
    match hex4? a b c d with
    | some u => scanString (.unit u :: done) rest
    | none => none
  | 0x5C :: e :: rest =>
    match escaped? e with
    | some b => scanString (.byte b :: done) rest
    | none => none
  | b :: rest => if b < 0x20 || b == 0x5C then none else scanString (.byte b :: done) rest

/-! ## Numbers -/

/-- The digits at the start of some bytes, and what follows them. -/
def scanDigits : Bytes → List Nat × Bytes
  | [] => ([], [])
  | b :: rest =>
    match Decimal.digit? b with
    | some d => let (ds, rest) := scanDigits rest; (d :: ds, rest)
    | none => ([], b :: rest)

/-- The digits in front of the point: zero stands alone. -/
def scanWhole (bs : Bytes) : Option (List Nat × Bytes) :=
  match scanDigits bs with
  | ([], _) => none
  | (0 :: _ :: _, _) => none
  | (ds, rest) => some (ds, rest)

/-- A point and the digits behind it. -/
def scanFraction : Bytes → Option (Option (List Nat) × Bytes)
  | 0x2E :: rest =>
    match scanDigits rest with
    | ([], _) => none
    | (ds, rest) => some (some ds, rest)
  | bs => some (none, bs)

/-- The sign of an exponent. -/
def scanSign : Bytes → Bool × Bytes
  | 0x2B :: rest => (false, rest)
  | 0x2D :: rest => (true, rest)
  | bs => (false, bs)

def scanExponent : Bytes → Option (Option (Bool × List Nat) × Bytes)
  | b :: rest =>
    if b == 0x65 || b == 0x45 then
      let (isNegative, rest) := scanSign rest
      match scanDigits rest with
      | ([], _) => none
      | (ds, rest) => some (some (isNegative, ds), rest)
    else some (none, b :: rest)
  | [] => some (none, [])

/-- A number behind its sign. -/
def scanNumber (isNegative : Bool) (bs : Bytes) : Option (Number × Bytes) := do
  let (whole, bs) ← scanWhole bs
  let (fraction, bs) ← scanFraction bs
  let (exponent, bs) ← scanExponent bs
  return (.ofWritten ⟨isNegative, whole, fraction, exponent⟩, bs)

/-! ## Documents -/

/-- Whether a byte may stand between tokens. -/
def isSpace (b : UInt8) : Bool := b == 0x20 || b == 0x0A || b == 0x0D || b == 0x09

/-- The token that starts with a byte, and what follows it. -/
def Token.scanOne (b : UInt8) (rest : Bytes) : Option (Token × Bytes) :=
  match b with
  | 0x5B => some (.openArray, rest)
  | 0x5D => some (.closeArray, rest)
  | 0x7B => some (.openObject, rest)
  | 0x7D => some (.closeObject, rest)
  | 0x2C => some (.comma, rest)
  | 0x3A => some (.colon, rest)
  | 0x22 => (scanString [] rest).map fun (ps, rest) => (.string ps, rest)
  | 0x2D => (scanNumber true rest).map fun (n, rest) => (.number n, rest)
  | 0x6E =>
    match rest with
    | 0x75 :: 0x6C :: 0x6C :: rest => some (.null, rest)
    | _ => none
  | 0x74 =>
    match rest with
    | 0x72 :: 0x75 :: 0x65 :: rest => some (.bool true, rest)
    | _ => none
  | 0x66 =>
    match rest with
    | 0x61 :: 0x6C :: 0x73 :: 0x65 :: rest => some (.bool false, rest)
    | _ => none
  | b => (scanNumber false (b :: rest)).map fun (n, rest) => (.number n, rest)

/-! ### Every token is shorter than what it is read from -/

theorem scanString_length {done ps : List Piece} {bs rest : Bytes}
    (h : scanString done bs = some (ps, rest)) : rest.length < bs.length := by
  fun_induction scanString done bs with
  | case1 => simp at h
  | case2 done rest' => simp at h; simp [h.2]
  | case3 done a b c d rest' u hu ih => have := ih h; simp; omega
  | case4 => simp at h
  | case5 done e rest' _ b hb ih => have := ih h; simp; omega
  | case6 => simp at h
  | case7 => simp at h
  | case8 done b rest' _ _ _ _ ih => have := ih h; simp; omega

theorem scanDigits_length (bs : Bytes) :
    (scanDigits bs).1.length + (scanDigits bs).2.length = bs.length := by
  fun_induction scanDigits bs with
  | case1 => rfl
  | case2 b rest d hd ds rest' heq ih => rw [heq] at ih; simp at ih ⊢; omega
  | case3 => simp

theorem scanWhole_length {bs rest : Bytes} {ds : List Nat} (h : scanWhole bs = some (ds, rest)) :
    rest.length < bs.length := by
  have hl := scanDigits_length bs
  unfold scanWhole at h
  split at h
  · simp at h
  · simp at h
  · rename_i ds' rest' h1 h2 heq
    simp only [Option.some.injEq, Prod.mk.injEq] at h
    obtain ⟨rfl, rfl⟩ := h
    rw [heq] at hl
    match ds', h1 with
    | _ :: _, _ => simp at hl; omega
    | [], h1 => exact (h1 rfl).elim

theorem scanFraction_length {bs rest : Bytes} {f : Option (List Nat)}
    (h : scanFraction bs = some (f, rest)) : rest.length ≤ bs.length := by
  unfold scanFraction at h
  split at h
  · rename_i bs'
    have hl := scanDigits_length bs'
    split at h
    · simp at h
    · rename_i heq
      simp only [Option.some.injEq, Prod.mk.injEq] at h
      rw [heq] at hl
      simp only [List.length_cons] at hl ⊢
      obtain ⟨-, rfl⟩ := h
      omega
  · simp only [Option.some.injEq, Prod.mk.injEq] at h
    simp [h.2]

theorem scanSign_length (bs : Bytes) : (scanSign bs).2.length ≤ bs.length := by
  unfold scanSign
  split <;> simp

theorem scanExponent_length {bs rest : Bytes} {e : Option (Bool × List Nat)}
    (h : scanExponent bs = some (e, rest)) : rest.length ≤ bs.length := by
  unfold scanExponent at h
  split at h
  · rename_i b bs'
    split at h
    · have hs := scanSign_length bs'
      have hl := scanDigits_length (scanSign bs').2
      simp only at h
      split at h
      · simp at h
      · rename_i heq
        simp only [Option.some.injEq, Prod.mk.injEq] at h
        rw [heq] at hl
        simp only [List.length_cons]
        obtain ⟨-, rfl⟩ := h
        simp only at hl
        omega
    · simp only [Option.some.injEq, Prod.mk.injEq] at h
      simp [← h.2]
  · simp only [Option.some.injEq, Prod.mk.injEq] at h
    simp [← h.2]

theorem scanNumber_length {isNegative : Bool} {bs rest : Bytes} {n : Number}
    (h : scanNumber isNegative bs = some (n, rest)) : rest.length < bs.length := by
  simp only [scanNumber, Option.bind_eq_bind, Option.bind_eq_some_iff, Prod.exists] at h
  obtain ⟨_, _, hw, _, _, hf, _, _, he, h⟩ := h
  have h1 := scanWhole_length hw
  have h2 := scanFraction_length hf
  have h3 := scanExponent_length he
  simp only [Option.pure_def, Option.some.injEq, Prod.mk.injEq] at h
  obtain ⟨-, rfl⟩ := h
  omega

theorem Token.scanOne_length {b : UInt8} {rest after : Bytes} {t : Token}
    (h : Token.scanOne b rest = some (t, after)) : after.length ≤ rest.length := by
  unfold scanOne at h
  split at h
  all_goals try (simp only [Option.some.injEq, Prod.mk.injEq] at h; simp [← h.2])
  · simp only [Option.map_eq_some_iff, Prod.exists, Prod.mk.injEq] at h
    obtain ⟨ps, r, hs, -, rfl⟩ := h
    exact Nat.le_of_lt (scanString_length hs)
  · simp only [Option.map_eq_some_iff, Prod.exists, Prod.mk.injEq] at h
    obtain ⟨n, r, hs, -, rfl⟩ := h
    exact Nat.le_of_lt (scanNumber_length hs)
  · split at h <;> simp at h
    simp [← h.2]; omega
  · split at h <;> simp at h
    simp [← h.2]; omega
  · split at h <;> simp at h
    simp [← h.2]; omega
  · simp only [Option.map_eq_some_iff, Prod.exists, Prod.mk.injEq] at h
    obtain ⟨n, r, hs, -, rfl⟩ := h
    have := scanNumber_length hs
    simp at this; omega

/-- The tokens of a document, behind those in `done`, the last of which stands first. -/
def Token.scanAll (done : List Token) (bs : Bytes) : List Token :=
  match bs with
  | [] => done.reverse
  | b :: rest =>
    if isSpace b then scanAll done rest
    else match _h : Token.scanOne b rest with
      | some (t, after) => scanAll (t :: done) after
      | none => (Token.fault :: done).reverse
termination_by bs.length
decreasing_by
  · simp
  · have := Token.scanOne_length _h; simp; omega

def Token.scan (bs : Bytes) : List Token := Token.scanAll [] bs

end Rerun.Json
