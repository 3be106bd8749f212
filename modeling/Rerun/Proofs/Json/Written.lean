import Mathlib.Data.Fintype.Basic
import Mathlib.Tactic.FinCases
import Rerun.Json.Value
import Rerun.Proofs.Json.Tree

/-!
# Reading what was written

A value that was written without space is cut into the tokens of the tree of the same shape
(`scan_compact`), and so it is read as that tree (`read_compact`).
-/

namespace Rerun.Json

/-! ## Strings -/

/-- Whether a byte of a string is written by its number. -/
def isNumbered (b : UInt8) : Bool :=
  b < 0x20 && !(b == 0x08 || b == 0x0C || b == 0x0A || b == 0x0D || b == 0x09)

/-- What a byte of a written string is read as. -/
def writtenPiece (b : UInt8) : Piece := if isNumbered b then .unit b.toNat else .byte b

/-- What a written string is read as. -/
def writtenPieces (s : String) : List Piece := (Bytes.ofText s).map writtenPiece

/-- A byte that needs no escape is read as it is. -/
theorem scanString_plain {b : UInt8} (hquote : b ≠ 0x22) (hslash : b ≠ 0x5C) (hlt : ¬ b < 0x20)
    (done : List Piece) (rest : Bytes) :
    scanString done (b :: rest) = scanString (.byte b :: done) rest := by
  rw [scanString.eq_def]
  split
  · rename_i h
    cases h
  · rename_i h
    cases h
    exact absurd rfl hquote
  · rename_i h
    cases h
    exact absurd rfl hslash
  · rename_i h
    cases h
    exact absurd rfl hslash
  · rename_i h
    cases h
    rw [if_neg (by simp [hlt, hslash])]

theorem scanString_control (n : Fin 32) (done : List Piece) (rest : Bytes) :
    scanString done (escapeByte (UInt8.ofNat n) ++ rest) =
      scanString (writtenPiece (UInt8.ofNat n) :: done) rest := by
  fin_cases n <;> rfl

theorem scanString_escapeByte (b : UInt8) (done : List Piece) (rest : Bytes) :
    scanString done (escapeByte b ++ rest) = scanString (writtenPiece b :: done) rest := by
  by_cases hlt : b < 0x20
  · have hn : b.toNat < 32 := by simpa [UInt8.lt_iff_toNat_lt] using hlt
    simpa using scanString_control ⟨b.toNat, hn⟩ done rest
  · have hpiece : writtenPiece b = .byte b := by simp [writtenPiece, isNumbered, hlt]
    rw [hpiece]
    by_cases hquote : b = 0x22
    · rw [hquote]
      rfl
    · by_cases hslash : b = 0x5C
      · rw [hslash]
        rfl
      · -- every other escape is that of a control character
        have hne : ∀ c : UInt8, c < 0x20 → b ≠ c := by
          rintro c hc rfl
          exact hlt hc
        have hbytes : escapeByte b = [b] := by
          simp [escapeByte, hquote, hslash, hlt, hne 0x08 (by decide), hne 0x0C (by decide),
            hne 0x0A (by decide), hne 0x0D (by decide), hne 0x09 (by decide)]
        rw [hbytes]
        exact scanString_plain hquote hslash hlt done rest

theorem scanString_escaped (bs : Bytes) (done : List Piece) (rest : Bytes) :
    scanString done (bs.flatMap escapeByte ++ 0x22 :: rest) =
      some (done.reverse ++ bs.map writtenPiece, rest) := by
  induction bs generalizing done with
  | nil => simp [scanString]
  | cons b bs ih =>
    rw [List.flatMap_cons, List.append_assoc, scanString_escapeByte, ih]
    simp

theorem pieceBytes?_written (bs : Bytes) : pieceBytes? (bs.map writtenPiece) = some bs := by
  induction bs with
  | nil => rfl
  | cons b bs ih =>
    rw [List.map_cons]
    cases hb : isNumbered b with
    | false =>
      rw [writtenPiece, hb, if_neg (by simp), pieceBytes?, ih]
      rfl
    | true =>
      have hlt : b < 0x20 := by
        unfold isNumbered at hb
        exact of_decide_eq_true (Bool.and_eq_true_iff.1 hb).1
      have hn : b.toNat < 32 := by simpa [UInt8.lt_iff_toNat_lt] using hlt
      have hchar := Bytes.utf8_ascii (UInt8.lt_trans hlt (by decide))
      rw [writtenPiece, hb, if_pos rfl, pieceBytes?.eq_def]
      dsimp only
      rw [if_neg (by omega), if_neg (by omega), ih, hchar]
      rfl

/-- A written string is read as it was. -/
@[simp] theorem pieceText?_written (s : String) : pieceText? (writtenPieces s) = some s := by
  unfold pieceText? writtenPieces
  rw [pieceBytes?_written]
  exact Bytes.text?_ofText s

/-! ## Numbers -/

/-- Whether a number in front of some bytes ends there. -/
def EndsNumber (bs : Bytes) : Prop :=
  ∀ b, bs.head? = some b → Decimal.digit? b = none ∧ b ≠ 0x2E ∧ b ≠ 0x65 ∧ b ≠ 0x45

theorem endsNumber_nil : EndsNumber [] := by
  intro b hb
  cases hb

theorem endsNumber_cons {b : UInt8} (rest : Bytes)
    (h : Decimal.digit? b = none ∧ b ≠ 0x2E ∧ b ≠ 0x65 ∧ b ≠ 0x45) : EndsNumber (b :: rest) := by
  intro c hc
  cases hc
  exact h

theorem digit?_digitByte {d : Nat} (h : d < 10) :
    Decimal.digit? (Decimal.digitByte d) = some d := by
  have hall : ∀ n : Fin 10, Decimal.digit? (Decimal.digitByte n) = some n.val := by decide
  exact hall ⟨d, h⟩

theorem scanDigits_written {ds : List Nat} (h : ∀ d ∈ ds, d < 10) {rest : Bytes}
    (hr : EndsNumber rest) : scanDigits (ds.map Decimal.digitByte ++ rest) = (ds, rest) := by
  induction ds with
  | nil =>
    rw [List.map_nil, List.nil_append]
    cases rest with
    | nil => rfl
    | cons b rest =>
      obtain ⟨hb, -⟩ := hr b rfl
      simp [scanDigits, hb]
  | cons d ds ih =>
    rw [List.map_cons, List.cons_append, scanDigits, digit?_digitByte (h d List.mem_cons_self),
      ih fun e he => h e (List.mem_cons_of_mem d he)]

/-- Only zero is written with a zero in front. -/
theorem digits_zero {n : Nat} {ds : List Nat} (h : Decimal.digits n = 0 :: ds) : ds = [] := by
  induction n using Decimal.digits.induct generalizing ds with
  | case1 n hn =>
    unfold Decimal.digits at h
    rw [if_pos hn] at h
    cases h
    rfl
  | case2 n hn ih =>
    unfold Decimal.digits at h
    rw [if_neg hn] at h
    cases hd : Decimal.digits (n / 10) with
    | nil =>
      have hl := congrArg List.length hd
      unfold Decimal.digits at hl
      split at hl <;> simp at hl
    | cons e es =>
      rw [hd, List.cons_append] at h
      obtain rfl : e = 0 := (List.cons.inj h).1
      rw [ih hd] at hd
      have hz : Decimal.ofDigits (Decimal.digits (n / 10)) = 0 := by rw [hd]; rfl
      rw [Decimal.ofDigits_digits] at hz
      omega

theorem digits_ne_nil (n : Nat) : Decimal.digits n ≠ [] := by
  unfold Decimal.digits
  split <;> simp

theorem scanNumber_written (n : UInt64) {rest : Bytes} (hr : EndsNumber rest) :
    scanNumber false (Decimal.bytes n.toNat ++ rest) = some (.natural n, rest) := by
  have hdigits : scanDigits (Decimal.bytes n.toNat ++ rest) = (Decimal.digits n.toNat, rest) :=
    scanDigits_written (Decimal.digits_lt n.toNat) hr
  have hwhole : scanWhole (Decimal.bytes n.toNat ++ rest) =
      some (Decimal.digits n.toNat, rest) := by
    unfold scanWhole
    rw [hdigits]
    split
    · rename_i h
      exact absurd (congrArg Prod.fst h) (digits_ne_nil _)
    · rename_i h
      cases digits_zero (congrArg Prod.fst h)
    · rename_i h
      cases h
      rfl
  have hfraction : scanFraction rest = some (none, rest) := by
    unfold scanFraction
    split
    · rename_i rest'
      exact absurd rfl (hr 0x2E rfl).2.1
    · rfl
  have hexponent : scanExponent rest = some (none, rest) := by
    cases rest with
    | nil => rfl
    | cons b rest =>
      obtain ⟨-, -, h1, h2⟩ := hr b rfl
      simp [scanExponent, h1, h2]
  have hkind : Number.ofWritten ⟨false, Decimal.digits n.toNat, none, none⟩ = .natural n := by
    have hlt : n.toNat < Number.wordEnd := n.toNat_lt
    simp only [Number.ofWritten, Decimal.ofDigits_digits]
    rw [if_neg (by simp), if_pos hlt, UInt64.ofNat_toNat]
  unfold scanNumber
  rw [hwhole, Option.bind_eq_bind, Option.bind_some]
  simp only [hfraction, hexponent, hkind, Option.bind_eq_bind, Option.bind_some, Option.pure_def]

/-- A byte that is a digit starts a number and is no space. -/
theorem scanOne_digit {d : Nat} (h : d < 10) (rest : Bytes) :
    isSpace (Decimal.digitByte d) = false ∧
      Token.scanOne (Decimal.digitByte d) rest =
        (scanNumber false (Decimal.digitByte d :: rest)).map fun (n, rest) => (.number n, rest) := by
  have hall : ∀ n : Fin 10, isSpace (Decimal.digitByte n) = false ∧
      Token.scanOne (Decimal.digitByte n) rest =
        (scanNumber false (Decimal.digitByte n :: rest)).map fun (n, rest) => (.number n, rest) := by
    intro n
    fin_cases n <;> exact ⟨rfl, rfl⟩
  exact hall ⟨d, h⟩

/-! ## Tokens -/

theorem scanAll_cons {b : UInt8} {rest after : Bytes} {t : Token} (done : List Token)
    (hs : isSpace b = false) (h : Token.scanOne b rest = some (t, after)) :
    Token.scanAll done (b :: rest) = Token.scanAll (t :: done) after := by
  rw [Token.scanAll, hs, if_neg (by simp)]
  split
  · rename_i t' after' h'
    rw [h] at h'
    cases h'
    rfl
  · rename_i h'
    rw [h] at h'
    cases h'

theorem scanAll_quote (s : String) (done : List Token) (rest : Bytes) :
    Token.scanAll done (quote s ++ rest) =
      Token.scanAll (.string (writtenPieces s) :: done) rest := by
  have hscan := scanString_escaped (Bytes.ofText s) [] rest
  rw [List.reverse_nil, List.nil_append] at hscan
  unfold quote
  rw [List.cons_append, List.cons_append, List.append_assoc, List.singleton_append]
  refine scanAll_cons done rfl ?_
  show (scanString [] _).map _ = _
  rw [hscan]
  rfl

theorem scanAll_number (n : UInt64) (done : List Token) {rest : Bytes} (hr : EndsNumber rest) :
    Token.scanAll done (Decimal.bytes n.toNat ++ rest) =
      Token.scanAll (.number (.natural n) :: done) rest := by
  have hnumber := scanNumber_written n hr
  cases hd : Decimal.digits n.toNat with
  | nil => exact absurd hd (digits_ne_nil _)
  | cons d ds =>
    have hlt : d < 10 := Decimal.digits_lt n.toNat d (by rw [hd]; exact List.mem_cons_self)
    unfold Decimal.bytes at hnumber ⊢
    rw [hd, List.map_cons, List.cons_append] at hnumber ⊢
    obtain ⟨hs, hone⟩ := scanOne_digit hlt (ds.map Decimal.digitByte ++ rest)
    refine scanAll_cons done hs ?_
    rw [hone, hnumber]
    rfl

/-! ## Trees -/

mutual

/-- The tree of a written value. -/
def Value.node : Value → Node
  | .null => .null
  | .bool b => .bool b
  | .number n => .number (.natural n)
  | .string s => .string (writtenPieces s)
  | .array items => .array (Value.nodes items) .closed
  | .object members => .object (Value.memberNodes members) .closed

/-- The trees of some items. -/
def Value.nodes : List Value → List Node
  | [] => []
  | x :: xs => x.node :: Value.nodes xs

/-- The trees of some members. -/
def Value.memberNodes : List (String × Value) → List (List Piece × Node)
  | [] => []
  | (key, x) :: xs => (writtenPieces key, x.node) :: Value.memberNodes xs

end

mutual

/-- The tree of a written value has no faults. -/
theorem Value.isWhole_node (v : Value) : v.node.isWhole = true := by
  cases v with
  | null | bool | number | string => rfl
  | array items => exact Value.allWhole_nodes items
  | object members => exact Value.membersWhole_memberNodes members

theorem Value.allWhole_nodes (xs : List Value) : Node.allWhole (Value.nodes xs) = true := by
  cases xs with
  | nil => rfl
  | cons x xs => exact Bool.and_eq_true_iff.2 ⟨x.isWhole_node, Value.allWhole_nodes xs⟩

theorem Value.membersWhole_memberNodes (xs : List (String × Value)) :
    Node.membersWhole (Value.memberNodes xs) = true := by
  cases xs with
  | nil => rfl
  | cons m xs =>
    exact Bool.and_eq_true_iff.2 ⟨m.2.isWhole_node, Value.membersWhole_memberNodes xs⟩

end

/-! ## Values -/

mutual

theorem scanAll_compact (v : Value) (done : List Token) (rest : Bytes) (hr : EndsNumber rest) :
    Token.scanAll done (v.compact ++ rest) =
      Token.scanAll (v.node.tokens.reverse ++ done) rest := by
  cases v with
  | null => exact scanAll_cons done rfl rfl
  | bool b => cases b <;> exact scanAll_cons done rfl rfl
  | number n => exact scanAll_number n done hr
  | string s => exact scanAll_quote s done rest
  | array items =>
    have hitems := scanAll_items items (.openArray :: done) (0x5D :: rest)
      (endsNumber_cons rest (by decide))
    simp only [Value.compact, Value.node, Node.tokens, List.cons_append, List.append_assoc,
      List.nil_append, List.reverse_cons, List.reverse_append, List.reverse_nil]
    rw [scanAll_cons done rfl rfl, hitems]
    exact scanAll_cons _ rfl rfl
  | object members =>
    have hmembers := scanAll_members members (.openObject :: done) (0x7D :: rest)
      (endsNumber_cons rest (by decide))
    simp only [Value.compact, Value.node, Node.tokens, List.cons_append, List.append_assoc,
      List.nil_append, List.reverse_cons, List.reverse_append, List.reverse_nil]
    rw [scanAll_cons done rfl rfl, hmembers]
    exact scanAll_cons _ rfl rfl

theorem scanAll_items (xs : List Value) (done : List Token) (rest : Bytes)
    (hr : EndsNumber rest) :
    Token.scanAll done (commaSeparated (Value.compactItems xs) ++ rest) =
      Token.scanAll ((Node.tokensOfItems (Value.nodes xs)).tail.reverse ++ done) rest := by
  cases xs with
  | nil => rfl
  | cons x xs =>
    cases xs with
    | nil =>
      simp only [Value.compactItems, commaSeparated, Value.nodes, Node.tokensOfItems,
        List.tail_cons, List.append_nil]
      exact scanAll_compact x done rest hr
    | cons y ys =>
      have hx := scanAll_compact x done
        (0x2C :: (commaSeparated (Value.compactItems (y :: ys)) ++ rest))
        (endsNumber_cons _ (by decide))
      have hys := scanAll_items (y :: ys) (.comma :: (x.node.tokens.reverse ++ done)) rest hr
      simp only [Value.compactItems, commaSeparated, Value.nodes, Node.tokensOfItems,
        List.tail_cons, List.append_assoc, List.cons_append, List.reverse_append,
        List.reverse_cons, List.nil_append] at hx hys ⊢
      rw [hx, scanAll_cons _ rfl rfl, hys]

theorem scanAll_members (xs : List (String × Value)) (done : List Token) (rest : Bytes)
    (hr : EndsNumber rest) :
    Token.scanAll done (commaSeparated (Value.compactMembers xs) ++ rest) =
      Token.scanAll ((Node.tokensOfMembers (Value.memberNodes xs)).tail.reverse ++ done) rest := by
  cases xs with
  | nil => rfl
  | cons m ms =>
    obtain ⟨key, x⟩ := m
    cases ms with
    | nil =>
      have hx := scanAll_compact x (.colon :: .string (writtenPieces key) :: done) rest hr
      simp only [Value.compactMembers, commaSeparated, Value.memberNodes, Node.tokensOfMembers,
        List.tail_cons, List.append_assoc, List.append_nil, List.cons_append, List.reverse_cons,
        List.nil_append]
      rw [scanAll_quote, scanAll_cons _ rfl rfl, hx]
    | cons y ys =>
      have hx := scanAll_compact x (.colon :: .string (writtenPieces key) :: done)
        (0x2C :: (commaSeparated (Value.compactMembers (y :: ys)) ++ rest))
        (endsNumber_cons _ (by decide))
      have hys := scanAll_members (y :: ys)
        (.comma :: (x.node.tokens.reverse ++ .colon :: .string (writtenPieces key) :: done)) rest hr
      simp only [Value.compactMembers, commaSeparated, Value.memberNodes, Node.tokensOfMembers,
        List.tail_cons, List.append_assoc, List.cons_append, List.reverse_append,
        List.reverse_cons, List.nil_append] at hx hys ⊢
      rw [scanAll_quote, scanAll_cons _ rfl rfl, hx, scanAll_cons _ rfl rfl, hys]

end

/-- A written value is cut into the tokens of its tree. -/
theorem scan_compact (v : Value) : Token.scan v.compact = v.node.tokens := by
  have h := scanAll_compact v [] [] endsNumber_nil
  rw [List.append_nil, List.append_nil] at h
  unfold Token.scan
  rw [h, Token.scanAll, List.reverse_reverse]

theorem isText_compact (v : Value) : v.node.IsText v.compact := ⟨v.isWhole_node, scan_compact v⟩

/-- A written value is read as its tree. -/
theorem read_compact (v : Value) : Document.read v.compact = ⟨v.node, false⟩ :=
  read_of_isText (isText_compact v)

/-- Reading a written value into a type is reading its tree. -/
theorem decode_compact {α : Type} (read : Node → Read α) (v : Value) :
    decode read v.compact = read v.node := by
  unfold decode
  rw [read_compact]
  unfold Document.decode
  cases read v.node <;> rfl

/-! ## Plain values -/

@[simp] theorem readNatural_written (type : String) (n : UInt64) :
    readNatural type (Value.number n).node = .ok n := rfl

@[simp] theorem readText_written (type s : String) :
    readText type (Value.string s).node = .ok s := by
  rw [Value.node, readText, pieceText?_written]

end Rerun.Json
