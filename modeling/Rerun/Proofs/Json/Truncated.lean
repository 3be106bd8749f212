import Rerun.Proofs.Json.Written

/-!
# Documents that break off

A token that ends before the bytes do is the same whatever follows the bytes, and only a number may
go on at their end (`scanOne_append`). So what stands behind an array or an object is cut into
tokens of its own (`scan_append`), and no such document is a proper beginning of another, spaces
apart (`isText_append`).
-/

namespace Rerun.Json

/-! ## Strings -/

theorem scanString_escape {e b : UInt8} (h : escaped? e = some b) (done : List Piece)
    (rest : Bytes) : scanString done (0x5C :: e :: rest) = scanString (.byte b :: done) rest := by
  rw [scanString.eq_def]
  split
  · rename_i heq
    cases heq
  · rename_i heq
    cases heq
  · rename_i heq
    cases heq
    cases h
  · rename_i heq
    cases heq
    rw [h]
  · rename_i hno heq
    cases heq
    exact absurd rfl (hno e rest rfl)

theorem scanString_append {done ps : List Piece} {bs after : Bytes}
    (h : scanString done bs = some (ps, after)) (more : Bytes) :
    scanString done (bs ++ more) = some (ps, after ++ more) := by
  fun_induction scanString done bs with
  | case1 => cases h
  | case2 done rest =>
    cases h
    rw [List.cons_append, scanString]
  | case3 done a b c d rest u hu ih =>
    simp only [List.cons_append]
    rw [scanString, hu]
    exact ih h
  | case4 => cases h
  | case5 done e rest hu b hb ih =>
    simp only [List.cons_append]
    rw [scanString_escape hb]
    exact ih h
  | case6 => cases h
  | case7 => cases h
  | case8 done b rest hquote hu he hb ih =>
    obtain ⟨hlt, hslash⟩ : ¬ b < 0x20 ∧ b ≠ 0x5C := by simpa using hb
    rw [List.cons_append, scanString_plain hquote hslash hlt]
    exact ih h

/-! ## Numbers -/

theorem scanDigits_append {bs after : Bytes} {ds : List Nat} (h : scanDigits bs = (ds, after))
    (ha : after ≠ []) (more : Bytes) : scanDigits (bs ++ more) = (ds, after ++ more) := by
  fun_induction scanDigits bs generalizing ds with
  | case1 =>
    cases h
    exact absurd rfl ha
  | case2 b rest d hd ds' rest' heq ih =>
    cases h
    rw [List.cons_append, scanDigits, hd]
    dsimp only
    rw [ih heq]
  | case3 b rest hd =>
    cases h
    rw [List.cons_append, scanDigits, hd]

/-- Whether digits may stand in front of the point does not hang on what follows them. -/
theorem scanWhole_congr {bs bs' : Bytes} (h : (scanDigits bs').1 = (scanDigits bs).1) :
    scanWhole bs' = (scanWhole bs).map fun _ => scanDigits bs' := by
  unfold scanWhole
  generalize scanDigits bs = r at h ⊢
  generalize scanDigits bs' = r' at h ⊢
  obtain ⟨ds, after⟩ := r
  obtain ⟨ds', after'⟩ := r'
  obtain rfl : ds' = ds := h
  match ds' with
  | [] | [0] | 0 :: _ :: _ | (_ + 1) :: _ => rfl

theorem scanWhole_append {bs after : Bytes} {ds : List Nat} (h : scanWhole bs = some (ds, after))
    (ha : after ≠ []) (more : Bytes) : scanWhole (bs ++ more) = some (ds, after ++ more) := by
  have hdigits : scanDigits bs = (ds, after) := by
    have hself := scanWhole_congr (rfl : (scanDigits bs).1 = _)
    rw [h] at hself
    exact (Option.some.inj hself).symm
  have hmore := scanDigits_append hdigits ha more
  have hsame : (scanDigits (bs ++ more)).1 = (scanDigits bs).1 := by rw [hmore, hdigits]
  rw [scanWhole_congr hsame, h, hmore]
  rfl

theorem scanFraction_append {bs after : Bytes} {f : Option (List Nat)}
    (h : scanFraction bs = some (f, after)) (ha : after ≠ []) (more : Bytes) :
    scanFraction (bs ++ more) = some (f, after ++ more) := by
  unfold scanFraction at h
  split at h
  · rename_i rest
    split at h
    · cases h
    · rename_i ds after' hne heq
      cases h
      rw [List.cons_append, scanFraction, scanDigits_append heq ha]
      split
      · rename_i hnil
        cases hnil
        exact absurd rfl hne
      · rename_i hsome
        cases hsome
        rfl
  · rename_i hpoint
    cases h
    unfold scanFraction
    split
    · rename_i rest hrest
      cases bs with
      | nil => exact absurd rfl ha
      | cons b bs =>
        cases hrest
        exact absurd rfl (hpoint bs)
    · rfl

theorem scanSign_append {bs : Bytes} (h : bs ≠ []) (more : Bytes) :
    scanSign (bs ++ more) = ((scanSign bs).1, (scanSign bs).2 ++ more) := by
  cases bs with
  | nil => exact absurd rfl h
  | cons b bs =>
    rw [List.cons_append]
    unfold scanSign
    split
    · rename_i heq
      cases heq
      rfl
    · rename_i heq
      cases heq
      rfl
    · rename_i hplus hminus
      split
      · rename_i heq
        cases heq
        exact absurd rfl (hplus _)
      · rename_i heq
        cases heq
        exact absurd rfl (hminus _)
      · rfl

theorem scanExponent_append {bs after : Bytes} {e : Option (Bool × List Nat)}
    (h : scanExponent bs = some (e, after)) (ha : after ≠ []) (more : Bytes) :
    scanExponent (bs ++ more) = some (e, after ++ more) := by
  cases bs with
  | nil =>
    cases h
    exact absurd rfl ha
  | cons b rest =>
    rw [scanExponent] at h
    rw [List.cons_append, scanExponent]
    split at h
    · rename_i hb
      rw [if_pos hb]
      dsimp only at h ⊢
      split at h
      · cases h
      · rename_i ds after' hne heq
        cases h
        have hrest : rest ≠ [] := by
          rintro rfl
          cases heq
          exact absurd rfl ha
        rw [scanSign_append hrest]
        dsimp only
        rw [scanDigits_append heq ha]
        split
        · rename_i hnil
          cases hnil
          exact absurd rfl hne
        · rename_i hsome
          cases hsome
          rfl
    · rename_i hb
      cases h
      rw [if_neg hb]
      rfl

theorem scanNumber_append {isNegative : Bool} {bs after : Bytes} {n : Number}
    (h : scanNumber isNegative bs = some (n, after)) (ha : after ≠ []) (more : Bytes) :
    scanNumber isNegative (bs ++ more) = some (n, after ++ more) := by
  simp only [scanNumber, Option.bind_eq_bind, Option.bind_eq_some_iff, Prod.exists] at h
  obtain ⟨whole, bs', hw, fraction, bs'', hf, exponent, bs''', he, h⟩ := h
  cases h
  have hbs'' : bs'' ≠ [] := by
    have hl := scanExponent_length he
    rintro rfl
    exact ha (List.length_eq_zero_iff.1 (Nat.le_zero.1 hl))
  have hbs' : bs' ≠ [] := by
    have hl := scanFraction_length hf
    rintro rfl
    exact hbs'' (List.length_eq_zero_iff.1 (Nat.le_zero.1 hl))
  unfold scanNumber
  simp only [scanWhole_append hw hbs', scanFraction_append hf hbs'', scanExponent_append he ha,
    Option.bind_eq_bind, Option.bind_some]
  rfl

/-! ## Tokens -/

/-- Only a number may go on behind the end of the bytes. -/
theorem scanOne_append {b : UInt8} {rest after : Bytes} {t : Token}
    (h : Token.scanOne b rest = some (t, after)) (hend : after ≠ [] ∨ ∀ n, t ≠ .number n)
    (more : Bytes) : Token.scanOne b (rest ++ more) = some (t, after ++ more) := by
  have hnumber : ∀ {isNegative : Bool} {bs : Bytes} {token : Number × Bytes → Token × Bytes},
      (∀ p, token p = (.number p.1, p.2)) →
        (scanNumber isNegative bs).map token = some (t, after) →
          (scanNumber isNegative (bs ++ more)).map token = some (t, after ++ more) := by
    intro isNegative bs token htoken h
    obtain ⟨⟨n, rest⟩, hn, heq⟩ := Option.map_eq_some_iff.1 h
    rw [htoken] at heq
    cases heq
    rw [scanNumber_append hn (hend.resolve_right fun hne => hne n rfl), Option.map_some, htoken]
  unfold Token.scanOne at h
  split at h
  · cases h
    rfl
  · cases h
    rfl
  · cases h
    rfl
  · cases h
    rfl
  · cases h
    rfl
  · cases h
    rfl
  · obtain ⟨⟨ps, rest'⟩, hs, heq⟩ := Option.map_eq_some_iff.1 h
    cases heq
    show (scanString [] (rest ++ more)).map _ = _
    rw [scanString_append hs]
    rfl
  · exact hnumber (fun _ => rfl) h
  · split at h
    · cases h
      rfl
    · cases h
  · split at h
    · cases h
      rfl
    · cases h
  · split at h
    · cases h
      rfl
    · cases h
  · rw [Token.scanOne]
    · exact hnumber (fun _ => rfl) h
    all_goals assumption

/-! ## Documents -/

/-- Space is skipped. -/
theorem scanAll_space {b : UInt8} (h : isSpace b = true) (done : List Token) (rest : Bytes) :
    Token.scanAll done (b :: rest) = Token.scanAll done rest := by
  rw [Token.scanAll, if_pos h]

/-- Where no token starts, nothing more is read. -/
theorem scanAll_fault {b : UInt8} {rest : Bytes} (hs : isSpace b = false)
    (h : Token.scanOne b rest = none) (done : List Token) :
    Token.scanAll done (b :: rest) = done.reverse ++ [.fault] := by
  rw [Token.scanAll, hs, if_neg (by simp)]
  split
  · rename_i h'
    rw [h] at h'
    cases h'
  · rw [List.reverse_cons]

theorem scanAll_eq (done : List Token) (bs : Bytes) :
    Token.scanAll done bs = done.reverse ++ Token.scan bs := by
  induction hn : bs.length using Nat.strong_induction_on generalizing done bs with
  | _ n ih =>
    cases bs with
    | nil => rw [Token.scan, Token.scanAll, Token.scanAll, List.reverse_nil, List.append_nil]
    | cons b rest =>
      subst hn
      unfold Token.scan
      cases hs : isSpace b with
      | true =>
        rw [scanAll_space hs, scanAll_space hs]
        exact ih rest.length (by simp) done rest rfl
      | false =>
        cases h : Token.scanOne b rest with
        | none => rw [scanAll_fault hs h, scanAll_fault hs h, List.reverse_nil, List.nil_append]
        | some found =>
          obtain ⟨t, after⟩ := found
          have hl : after.length < (b :: rest).length := by
            have := Token.scanOne_length h
            rw [List.length_cons]
            omega
          rw [scanAll_cons done hs h, scanAll_cons [] hs h, ih _ hl (t :: done) after rfl,
            ih _ hl [t] after rfl]
          simp

theorem scan_nil : Token.scan [] = [] := by
  rw [Token.scan, Token.scanAll, List.reverse_nil]

theorem scan_space {b : UInt8} (h : isSpace b = true) (rest : Bytes) :
    Token.scan (b :: rest) = Token.scan rest := scanAll_space h [] rest

theorem scan_cons {b : UInt8} {rest after : Bytes} {t : Token} (hs : isSpace b = false)
    (h : Token.scanOne b rest = some (t, after)) :
    Token.scan (b :: rest) = t :: Token.scan after := by
  unfold Token.scan
  rw [scanAll_cons [] hs h, scanAll_eq]
  rfl

/-- Only spaces make no token. -/
theorem scan_eq_nil {bs : Bytes} (h : Token.scan bs = []) : ∀ b ∈ bs, isSpace b = true := by
  induction bs with
  | nil => simp
  | cons b rest ih =>
    cases hs : isSpace b with
    | true =>
      rw [scan_space hs] at h
      simpa [hs] using ih h
    | false =>
      cases hone : Token.scanOne b rest with
      | none =>
        rw [Token.scan, scanAll_fault hs hone] at h
        cases h
      | some found =>
        rw [scan_cons hs hone] at h
        cases h

/-- What follows bytes whose tokens end with them is cut into tokens of its own. -/
theorem scan_append {bs : Bytes} (hfault : Token.fault ∉ Token.scan bs)
    (hend : ∀ n, (Token.scan bs).getLast? ≠ some (.number n)) (more : Bytes) :
    Token.scan (bs ++ more) = Token.scan bs ++ Token.scan more := by
  induction hn : bs.length using Nat.strong_induction_on generalizing bs with
  | _ n ih =>
    cases bs with
    | nil => rw [scan_nil, List.nil_append, List.nil_append]
    | cons b rest =>
      subst hn
      rw [List.cons_append]
      cases hs : isSpace b with
      | true =>
        rw [scan_space hs] at hfault hend ⊢
        rw [scan_space hs]
        exact ih rest.length (by simp) hfault hend rfl
      | false =>
        cases h : Token.scanOne b rest with
        | none =>
          rw [Token.scan, scanAll_fault hs h] at hfault
          simp at hfault
        | some found =>
          obtain ⟨t, after⟩ := found
          rw [scan_cons hs h] at hfault hend ⊢
          have hl : after.length < (b :: rest).length := by
            have := Token.scanOne_length h
            rw [List.length_cons]
            omega
          have hsplit : after ≠ [] ∨ ∀ n, t ≠ .number n := by
            by_cases ha : after = []
            · refine .inr ?_
              rintro n rfl
              exact hend n (by rw [ha, scan_nil]; rfl)
            · exact .inl ha
          rw [scan_cons hs (scanOne_append h hsplit more), List.cons_append]
          refine congrArg _ (ih _ hl (fun hin => hfault (List.mem_cons_of_mem t hin)) ?_ rfl)
          intro n hn
          refine hend n ?_
          rw [List.getLast?_cons, hn]
          rfl

/-! ## Beginnings of documents -/

/-- Whether a tree is an array or an object. -/
def Node.isContainer : Node → Bool
  | .array .. | .object .. => true
  | _ => false

/-- The tokens of an array or an object end with its end. -/
theorem getLast?_tokens {n : Node} (h : n.isContainer = true) (x : Number) :
    n.tokens.getLast? ≠ some (.number x) := by
  cases n with
  | array items ending =>
    rw [Node.tokens, ← List.cons_append, List.getLast?_concat]
    simp
  | object members ending =>
    rw [Node.tokens, ← List.cons_append, List.getLast?_concat]
    simp
  | _ => cases h

/-- Bytes that hold an array or an object hold nothing else with more behind them, unless that is
space. -/
theorem isText_append {n n' : Node} {bs more : Bytes} (hn : n.isContainer = true)
    (h : n.IsText bs) (h' : n'.IsText (bs ++ more)) : ∀ b ∈ more, isSpace b = true := by
  have hfault : Token.fault ∉ Token.scan bs := by
    rw [h.2]
    exact n.fault_notMem_tokens h.1
  have hscan := scan_append hfault (by rw [h.2]; exact getLast?_tokens hn) more
  have hwhole := ofTokens_whole h.1 (Token.scan more)
  rw [← h.2, ← hscan] at hwhole
  have hsame := (read_of_isText h').symm.trans hwhole
  have htrailing := congrArg Document.trailing hsame
  refine scan_eq_nil ?_
  simpa using htrailing.symm

end Rerun.Json
