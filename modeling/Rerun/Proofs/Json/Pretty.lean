import Rerun.Proofs.Json.Truncated

/-!
# Reading what was written on many lines

Spaces between tokens are passed over, so a value that was written with one member or item a line
is cut into the same tokens as one that was written without any space (`scan_pretty`), and is read
alike (`decode_pretty`).
-/

namespace Rerun.Json

theorem scanAll_spaces (n : Nat) (done : List Token) (rest : Bytes) :
    Token.scanAll done (List.replicate n 0x20 ++ rest) = Token.scanAll done rest := by
  induction n with
  | zero => rfl
  | succ n ih =>
    rw [List.replicate_succ, List.cons_append, scanAll_space rfl]
    exact ih

/-- An indented line begins where the one before it ends. -/
theorem scanAll_newLine (depth : Nat) (done : List Token) (rest : Bytes) :
    Token.scanAll done (newLine depth ++ rest) = Token.scanAll done rest := by
  unfold newLine
  rw [List.cons_append, scanAll_space rfl, scanAll_spaces]

theorem endsNumber_newLine (depth : Nat) (rest : Bytes) : EndsNumber (newLine depth ++ rest) :=
  endsNumber_cons _ (by decide)

mutual

theorem scanAll_pretty (v : Value) (depth : Nat) (done : List Token) (rest : Bytes)
    (hr : EndsNumber rest) :
    Token.scanAll done (v.prettyAt depth ++ rest) =
      Token.scanAll (v.node.tokens.reverse ++ done) rest := by
  cases v with
  | null => exact scanAll_cons done rfl rfl
  | bool b => cases b <;> exact scanAll_cons done rfl rfl
  | number n => exact scanAll_number n done hr
  | string s => exact scanAll_quote s done rest
  | array items =>
    cases items with
    | nil =>
      show Token.scanAll done (0x5B :: 0x5D :: rest) = _
      rw [scanAll_cons done rfl rfl]
      exact scanAll_cons _ rfl rfl
    | cons x xs =>
      have hitems := scanAll_prettyItems (x :: xs) (depth + 1) (.openArray :: done)
        (newLine depth ++ 0x5D :: rest) (endsNumber_newLine depth _)
      simp only [Value.prettyAt, Value.node, Node.tokens, List.cons_append, List.append_assoc,
        List.nil_append, List.reverse_cons, List.reverse_append, List.reverse_nil]
      rw [scanAll_cons done rfl rfl, hitems, scanAll_newLine]
      exact scanAll_cons _ rfl rfl
  | object members =>
    cases members with
    | nil =>
      show Token.scanAll done (0x7B :: 0x7D :: rest) = _
      rw [scanAll_cons done rfl rfl]
      exact scanAll_cons _ rfl rfl
    | cons m ms =>
      have hmembers := scanAll_prettyMembers (m :: ms) (depth + 1) (.openObject :: done)
        (newLine depth ++ 0x7D :: rest) (endsNumber_newLine depth _)
      simp only [Value.prettyAt, Value.node, Node.tokens, List.cons_append, List.append_assoc,
        List.nil_append, List.reverse_cons, List.reverse_append, List.reverse_nil]
      rw [scanAll_cons done rfl rfl, hmembers, scanAll_newLine]
      exact scanAll_cons _ rfl rfl

theorem scanAll_prettyItems (xs : List Value) (depth : Nat) (done : List Token) (rest : Bytes)
    (hr : EndsNumber rest) :
    Token.scanAll done (commaSeparated (Value.prettyItems depth xs) ++ rest) =
      Token.scanAll ((Node.tokensOfItems (Value.nodes xs)).tail.reverse ++ done) rest := by
  cases xs with
  | nil => rfl
  | cons x xs =>
    cases xs with
    | nil =>
      simp only [Value.prettyItems, commaSeparated, Value.nodes, Node.tokensOfItems,
        List.tail_cons, List.append_nil, List.append_assoc]
      rw [scanAll_newLine]
      exact scanAll_pretty x depth done rest hr
    | cons y ys =>
      have hx := scanAll_pretty x depth done
        (0x2C :: (commaSeparated (Value.prettyItems depth (y :: ys)) ++ rest))
        (endsNumber_cons _ (by decide))
      have hys := scanAll_prettyItems (y :: ys) depth (.comma :: (x.node.tokens.reverse ++ done))
        rest hr
      simp only [Value.prettyItems, commaSeparated, Value.nodes, Node.tokensOfItems,
        List.tail_cons, List.append_assoc, List.cons_append, List.reverse_append,
        List.reverse_cons, List.nil_append] at hx hys ⊢
      rw [scanAll_newLine, hx, scanAll_cons _ rfl rfl, hys]

theorem scanAll_prettyMembers (xs : List (String × Value)) (depth : Nat) (done : List Token)
    (rest : Bytes) (hr : EndsNumber rest) :
    Token.scanAll done (commaSeparated (Value.prettyMembers depth xs) ++ rest) =
      Token.scanAll ((Node.tokensOfMembers (Value.memberNodes xs)).tail.reverse ++ done) rest := by
  cases xs with
  | nil => rfl
  | cons m ms =>
    obtain ⟨key, x⟩ := m
    cases ms with
    | nil =>
      have hx := scanAll_pretty x depth (.colon :: .string (writtenPieces key) :: done) rest hr
      simp only [Value.prettyMembers, commaSeparated, Value.memberNodes, Node.tokensOfMembers,
        List.tail_cons, List.append_assoc, List.append_nil, List.cons_append, List.reverse_cons,
        List.nil_append]
      rw [scanAll_newLine, scanAll_quote, scanAll_cons _ rfl rfl, scanAll_space rfl, hx]
    | cons y ys =>
      have hx := scanAll_pretty x depth (.colon :: .string (writtenPieces key) :: done)
        (0x2C :: (commaSeparated (Value.prettyMembers depth (y :: ys)) ++ rest))
        (endsNumber_cons _ (by decide))
      have hys := scanAll_prettyMembers (y :: ys) depth
        (.comma :: (x.node.tokens.reverse ++ .colon :: .string (writtenPieces key) :: done)) rest hr
      simp only [Value.prettyMembers, commaSeparated, Value.memberNodes, Node.tokensOfMembers,
        List.tail_cons, List.append_assoc, List.cons_append, List.reverse_append,
        List.reverse_cons, List.nil_append] at hx hys ⊢
      rw [scanAll_newLine, scanAll_quote, scanAll_cons _ rfl rfl, scanAll_space rfl, hx,
        scanAll_cons _ rfl rfl, hys]

end

/-- Lines and indentation do not change the tokens of a written value. -/
theorem scan_pretty (v : Value) : Token.scan v.pretty = v.node.tokens := by
  have h := scanAll_pretty v 0 [] [] endsNumber_nil
  rw [List.append_nil, List.append_nil] at h
  unfold Token.scan Value.pretty
  rw [h, Token.scanAll, List.reverse_reverse]

/-- Reading a value that was written on many lines is reading its tree. -/
theorem decode_pretty {α : Type} (read : Node → Read α) (v : Value) :
    decode read v.pretty = read v.node := by
  have hread : Document.read v.pretty = ⟨v.node, false⟩ :=
    read_of_isText ⟨v.isWhole_node, scan_pretty v⟩
  unfold decode
  rw [hread]
  unfold Document.decode
  cases read v.node <;> rfl

end Rerun.Json
