import Rerun.Json.Form

/-!
# Documents and their trees

Every tree without faults is the tree of one sequence of tokens (`Node.tokens`). A document that
begins with these tokens has it for its root, and what follows them is trailing; in any other
document the root is cut off (`ofTokens_whole`, `ofTokens_cut_or_whole`).
-/

namespace Rerun.Json

/-! ## The tokens of a tree -/

mutual

/-- The tokens of a tree. -/
def Node.tokens : Node → List Token
  | .fault => [.fault]
  | .null => [.null]
  | .bool b => [.bool b]
  | .number n => [.number n]
  | .string pieces => [.string pieces]
  | .array items _ => .openArray :: ((Node.tokensOfItems items).tail ++ [.closeArray])
  | .object members _ => .openObject :: ((Node.tokensOfMembers members).tail ++ [.closeObject])

/-- The tokens of some items, each with a comma in front. -/
def Node.tokensOfItems : List Node → List Token
  | [] => []
  | x :: xs => .comma :: (x.tokens ++ Node.tokensOfItems xs)

/-- The tokens of some members, each with a comma in front. -/
def Node.tokensOfMembers : List (List Piece × Node) → List Token
  | [] => []
  | (key, x) :: xs => .comma :: .string key :: .colon :: (x.tokens ++ Node.tokensOfMembers xs)

end

mutual

/-- A fault stands for no token of a tree without faults. -/
theorem Node.fault_notMem_tokens (n : Node) (h : n.isWhole = true) : Token.fault ∉ n.tokens := by
  cases n with
  | fault => cases h
  | null | bool | number | string => simp [Node.tokens]
  | array items ending =>
    cases ending with
    | cut => cases h
    | closed =>
      have hitems := Node.fault_notMem_tokensOfItems items h
      simp only [Node.tokens, List.mem_cons, List.mem_append, List.not_mem_nil, reduceCtorEq,
        or_false, false_or]
      exact fun hin => hitems (List.mem_of_mem_tail hin)
  | object members ending =>
    cases ending with
    | cut => cases h
    | closed =>
      have hmembers := Node.fault_notMem_tokensOfMembers members h
      simp only [Node.tokens, List.mem_cons, List.mem_append, List.not_mem_nil, reduceCtorEq,
        or_false, false_or]
      exact fun hin => hmembers (List.mem_of_mem_tail hin)

theorem Node.fault_notMem_tokensOfItems (xs : List Node) (h : Node.allWhole xs = true) :
    Token.fault ∉ Node.tokensOfItems xs := by
  cases xs with
  | nil => simp [Node.tokensOfItems]
  | cons x xs =>
    obtain ⟨hx, hxs⟩ := Bool.and_eq_true_iff.1 h
    simp [Node.tokensOfItems, Node.fault_notMem_tokens x hx,
      Node.fault_notMem_tokensOfItems xs hxs]

theorem Node.fault_notMem_tokensOfMembers (xs : List (List Piece × Node))
    (h : Node.membersWhole xs = true) : Token.fault ∉ Node.tokensOfMembers xs := by
  cases xs with
  | nil => simp [Node.tokensOfMembers]
  | cons m xs =>
    obtain ⟨key, x⟩ := m
    obtain ⟨hx, hxs⟩ := Bool.and_eq_true_iff.1 h
    simp [Node.tokensOfMembers, Node.fault_notMem_tokens x hx,
      Node.fault_notMem_tokensOfMembers xs hxs]

end

/-! ## Documents that begin with a tree -/

/-- Reads on after a value was completed. -/
def Progress.resume : Progress → List Token → Document
  | .finished root, ts => ⟨root, !ts.isEmpty⟩
  | .reading frames expect, ts => Document.resume frames expect ts

theorem resume_cons {frames : List Frame} {expect : Expect} {t : Token} {p : Progress}
    (ts : List Token) (h : Progress.push? frames expect t = some p) :
    Document.resume frames expect (t :: ts) = p.resume ts := by
  rw [Document.resume, h]
  cases p <;> rfl

/-- The first item of an array is read as any other value. -/
theorem push?_item {frames : List Frame} {expect : Expect}
    (he : expect = .value ∨ expect = .item) {t : Token} (ht : t ≠ .closeArray) :
    Progress.push? frames expect t = Progress.push? frames .value t := by
  obtain rfl | rfl := he
  · rfl
  · cases t <;> first | rfl | exact absurd rfl ht

/-- The first key of an object is read as any other. -/
theorem push?_key {outer : List Frame} {done : List (List Piece × Node)} {expect : Expect}
    (he : expect = .firstKey ∨ expect = .key) (key : List Piece) :
    Progress.push? (.object done :: outer) expect (.string key) =
      some (.reading (.member done key :: outer) .colon) := by
  obtain rfl | rfl := he <;> rfl

/-- Behind a colon comes a value. -/
theorem resume_colon (frames : List Frame) (ts : List Token) :
    Document.resume frames .colon (.colon :: ts) = Document.resume frames .value ts :=
  resume_cons (p := .reading frames .value) ts rfl

/-- Behind a key and a colon comes the value of a member. -/
theorem resume_key {outer : List Frame} {done : List (List Piece × Node)} {expect : Expect}
    (he : expect = .firstKey ∨ expect = .key) (key : List Piece) (ts : List Token) :
    Document.resume (.object done :: outer) expect (.string key :: .colon :: ts) =
      Document.resume (.member done key :: outer) .value ts :=
  (resume_cons _ (push?_key he key)).trans (resume_colon _ ts)

mutual

/-- The tokens of a tree without faults are read as the tree. -/
theorem resume_tokens (n : Node) (h : n.isWhole = true) (frames : List Frame) {expect : Expect}
    (he : expect = .value ∨ expect = .item) (ts : List Token) :
    Document.resume frames expect (n.tokens ++ ts) = (Progress.close frames n).resume ts := by
  cases n with
  | fault => cases h
  | null => exact resume_cons ts (push?_item he (by simp))
  | bool b => exact resume_cons ts (push?_item he (by simp))
  | number x => exact resume_cons ts (push?_item he (by simp))
  | string pieces => exact resume_cons ts (push?_item he (by simp))
  | array items ending =>
    cases ending with
    | cut => cases h
    | closed =>
      simp only [Node.tokens, List.cons_append, List.append_assoc, List.nil_append]
      rw [resume_cons _ (push?_item he (by simp))]
      cases items with
      | nil => exact resume_cons ts rfl
      | cons x xs =>
        obtain ⟨hx, hxs⟩ := Bool.and_eq_true_iff.1 h
        have hitems := resume_tokensOfItems xs hxs frames [x] ts
        simp only [Node.tokensOfItems, List.tail_cons, List.append_assoc]
        exact (resume_tokens x hx _ (.inr rfl) _).trans hitems
  | object members ending =>
    cases ending with
    | cut => cases h
    | closed =>
      simp only [Node.tokens, List.cons_append, List.append_assoc, List.nil_append]
      rw [resume_cons _ (push?_item he (by simp))]
      cases members with
      | nil => exact resume_cons ts rfl
      | cons m xs =>
        obtain ⟨key, x⟩ := m
        obtain ⟨hx, hxs⟩ := Bool.and_eq_true_iff.1 h
        have hmembers := resume_tokensOfMembers xs hxs frames [(key, x)] ts
        simp only [Node.tokensOfMembers, List.tail_cons, List.cons_append, List.append_assoc]
        refine (resume_key (.inl rfl) key _).trans ?_
        exact (resume_tokens x hx _ (.inl rfl) _).trans hmembers

theorem resume_tokensOfItems (xs : List Node) (h : Node.allWhole xs = true) (outer : List Frame)
    (done : List Node) (ts : List Token) :
    Document.resume (.array done :: outer) .next (Node.tokensOfItems xs ++ .closeArray :: ts) =
      (Progress.close outer (.array (done.reverse ++ xs) .closed)).resume ts := by
  cases xs with
  | nil =>
    rw [List.append_nil]
    exact resume_cons ts rfl
  | cons x xs =>
    obtain ⟨hx, hxs⟩ := Bool.and_eq_true_iff.1 h
    have hrest := resume_tokensOfItems xs hxs outer (x :: done) ts
    rw [List.reverse_cons, List.append_assoc, List.singleton_append] at hrest
    simp only [Node.tokensOfItems, List.cons_append, List.append_assoc]
    refine (resume_cons (p := .reading (.array done :: outer) .value) _ rfl).trans ?_
    exact (resume_tokens x hx _ (.inl rfl) _).trans hrest

theorem resume_tokensOfMembers (xs : List (List Piece × Node)) (h : Node.membersWhole xs = true)
    (outer : List Frame) (done : List (List Piece × Node)) (ts : List Token) :
    Document.resume (.object done :: outer) .next
        (Node.tokensOfMembers xs ++ .closeObject :: ts) =
      (Progress.close outer (.object (done.reverse ++ xs) .closed)).resume ts := by
  cases xs with
  | nil =>
    rw [List.append_nil]
    exact resume_cons ts rfl
  | cons m xs =>
    obtain ⟨key, x⟩ := m
    obtain ⟨hx, hxs⟩ := Bool.and_eq_true_iff.1 h
    have hrest := resume_tokensOfMembers xs hxs outer ((key, x) :: done) ts
    rw [List.reverse_cons, List.append_assoc, List.singleton_append] at hrest
    simp only [Node.tokensOfMembers, List.cons_append, List.append_assoc]
    refine (resume_cons (p := .reading (.object done :: outer) .key) _ rfl).trans ?_
    refine (resume_key (.inr rfl) key _).trans ?_
    exact (resume_tokens x hx _ (.inl rfl) _).trans hrest

end

/-- The tokens of a member are read as the member. -/
theorem resume_member {x : Node} (h : x.isWhole = true) {expect : Expect}
    (he : expect = .firstKey ∨ expect = .key) {outer : List Frame}
    {done : List (List Piece × Node)} {key : List Piece} {ts : List Token} :
    Document.resume (.object done :: outer) expect
        (.string key :: .colon :: (x.tokens ++ ts)) =
      Document.resume (.object ((key, x) :: done) :: outer) .next ts := by
  rw [resume_key he]
  exact resume_tokens x h _ (.inl rfl) _

/-- A document that begins with the tokens of a tree has it for its root. -/
theorem ofTokens_whole {n : Node} (h : n.isWhole = true) (rest : List Token) :
    Document.ofTokens (n.tokens ++ rest) = ⟨n, !rest.isEmpty⟩ :=
  resume_tokens n h [] (.inl rfl) rest

/-! ## Documents that are cut off -/

/-- Whether no value stands here, or a container that was cut off. -/
def Node.isCut : Node → Bool
  | .fault | .array _ .cut | .object _ .cut => true
  | _ => false

theorem isCut_cutAll (frames : List Frame) {n : Node} (h : n.isCut = true) :
    (cutAll frames n).isCut = true := by
  induction frames generalizing n with
  | nil => exact h
  | cons frame frames ih => cases frame <;> exact ih rfl

theorem isCut_cutOff (frames : List Frame) (expect : Expect) :
    (cutOff frames expect).isCut = true := by
  unfold cutOff
  split <;> exact isCut_cutAll _ rfl

/-- A token that does not fit cuts the document off. -/
theorem isCut_resume_cons {frames : List Frame} {expect : Expect} {t : Token} (ts : List Token)
    (h : Progress.push? frames expect t = none) :
    (Document.resume frames expect (t :: ts)).root.isCut = true := by
  rw [Document.resume, h]
  exact isCut_cutOff frames expect

mutual

/-- Where a value has to stand, the tokens of one stand, or the document is cut off. -/
theorem resume_cut_or_value (frames : List Frame) (expect : Expect) (ts : List Token)
    (he : expect = .value ∨ expect = .item ∧ ∀ rest, ts ≠ .closeArray :: rest) :
    (Document.resume frames expect ts).root.isCut = true ∨
      ∃ (n : Node) (rest : List Token), n.isWhole = true ∧ ts = n.tokens ++ rest := by
  match ts, he with
  | [], _ => exact .inl (isCut_cutOff frames expect)
  | t :: ts, he =>
    have hpush : Progress.push? frames expect t = Progress.push? frames .value t := by
      obtain rfl | ⟨rfl, hne⟩ := he
      · rfl
      · exact push?_item (.inr rfl) fun ht => hne ts (by rw [ht])
    cases t with
    | null => exact .inr ⟨.null, ts, rfl, rfl⟩
    | bool b => exact .inr ⟨.bool b, ts, rfl, rfl⟩
    | number x => exact .inr ⟨.number x, ts, rfl, rfl⟩
    | string pieces => exact .inr ⟨.string pieces, ts, rfl, rfl⟩
    | closeArray | closeObject | comma | colon | fault => exact .inl (isCut_resume_cons ts hpush)
    | openArray =>
      rw [resume_cons ts hpush]
      show (Document.resume (.array [] :: frames) .item ts).root.isCut = true ∨ _
      by_cases hempty : ∃ rest, ts = .closeArray :: rest
      · obtain ⟨rest, rfl⟩ := hempty
        exact .inr ⟨.array [] .closed, rest, rfl, rfl⟩
      · obtain hcut | ⟨x, rest, hx, rfl⟩ := resume_cut_or_value (.array [] :: frames) .item ts
          (.inr ⟨rfl, fun rest h => hempty ⟨rest, h⟩⟩)
        · exact .inl hcut
        · rw [resume_tokens x hx _ (.inr rfl)]
          obtain hcut | ⟨xs, rest', hxs, rfl⟩ := resume_cut_or_items frames [x] rest
          · exact .inl hcut
          · refine .inr ⟨.array (x :: xs) .closed, rest', Bool.and_eq_true_iff.2 ⟨hx, hxs⟩, ?_⟩
            simp [Node.tokens, Node.tokensOfItems]
    | openObject =>
      rw [resume_cons ts hpush]
      show (Document.resume (.object [] :: frames) .firstKey ts).root.isCut = true ∨ _
      by_cases hempty : ∃ rest, ts = .closeObject :: rest
      · obtain ⟨rest, rfl⟩ := hempty
        exact .inr ⟨.object [] .closed, rest, rfl, rfl⟩
      · obtain hcut | ⟨key, x, rest, hx, rfl⟩ := resume_cut_or_member frames [] .firstKey ts
          (.inr ⟨rfl, fun rest h => hempty ⟨rest, h⟩⟩)
        · exact .inl hcut
        · rw [resume_member hx (.inl rfl)]
          obtain hcut | ⟨xs, rest', hxs, rfl⟩ := resume_cut_or_members frames [(key, x)] rest
          · exact .inl hcut
          · refine .inr ⟨.object ((key, x) :: xs) .closed, rest',
              Bool.and_eq_true_iff.2 ⟨hx, hxs⟩, ?_⟩
            simp [Node.tokens, Node.tokensOfMembers]
termination_by ts.length

theorem resume_cut_or_items (outer : List Frame) (done : List Node) (ts : List Token) :
    (Document.resume (.array done :: outer) .next ts).root.isCut = true ∨
      ∃ (xs : List Node) (rest : List Token), Node.allWhole xs = true ∧
        ts = Node.tokensOfItems xs ++ .closeArray :: rest := by
  match ts with
  | [] => exact .inl (isCut_cutOff (.array done :: outer) .next)
  | t :: ts =>
    cases t with
    | closeArray => exact .inr ⟨[], ts, rfl, rfl⟩
    | comma =>
      rw [resume_cons ts rfl]
      show (Document.resume (.array done :: outer) .value ts).root.isCut = true ∨ _
      obtain hcut | ⟨x, rest, hx, rfl⟩ :=
        resume_cut_or_value (.array done :: outer) .value ts (.inl rfl)
      · exact .inl hcut
      · rw [resume_tokens x hx _ (.inl rfl)]
        obtain hcut | ⟨xs, rest', hxs, rfl⟩ := resume_cut_or_items outer (x :: done) rest
        · exact .inl hcut
        · refine .inr ⟨x :: xs, rest', Bool.and_eq_true_iff.2 ⟨hx, hxs⟩, ?_⟩
          simp [Node.tokensOfItems]
    | _ => exact .inl (isCut_resume_cons ts rfl)
termination_by ts.length

/-- Where a key has to stand, the tokens of a member stand, or the document is cut off. -/
theorem resume_cut_or_member (outer : List Frame) (done : List (List Piece × Node))
    (expect : Expect) (ts : List Token)
    (he : expect = .key ∨ expect = .firstKey ∧ ∀ rest, ts ≠ .closeObject :: rest) :
    (Document.resume (.object done :: outer) expect ts).root.isCut = true ∨
      ∃ (key : List Piece) (x : Node) (rest : List Token), x.isWhole = true ∧
        ts = .string key :: .colon :: (x.tokens ++ rest) := by
  match ts, he with
  | [], _ => exact .inl (isCut_cutOff (.object done :: outer) expect)
  | t :: ts, he =>
    cases t with
    | string key =>
      rw [resume_cons ts (push?_key (he.symm.imp_left And.left) key)]
      show (Document.resume (.member done key :: outer) .colon ts).root.isCut = true ∨ _
      cases ts with
      | nil => exact .inl (isCut_cutOff (.member done key :: outer) .colon)
      | cons t ts =>
        cases t with
        | colon =>
          rw [resume_colon]
          obtain hcut | ⟨x, rest, hx, rfl⟩ :=
            resume_cut_or_value (.member done key :: outer) .value ts (.inl rfl)
          · exact .inl hcut
          · exact .inr ⟨key, x, rest, hx, rfl⟩
        | _ => exact .inl (isCut_resume_cons ts rfl)
    | closeObject =>
      obtain rfl | ⟨rfl, hne⟩ := he
      · exact .inl (isCut_resume_cons ts rfl)
      · exact absurd rfl (hne ts)
    | _ => obtain rfl | ⟨rfl, -⟩ := he <;> exact .inl (isCut_resume_cons ts rfl)
termination_by ts.length

theorem resume_cut_or_members (outer : List Frame) (done : List (List Piece × Node))
    (ts : List Token) :
    (Document.resume (.object done :: outer) .next ts).root.isCut = true ∨
      ∃ (xs : List (List Piece × Node)) (rest : List Token), Node.membersWhole xs = true ∧
        ts = Node.tokensOfMembers xs ++ .closeObject :: rest := by
  match ts with
  | [] => exact .inl (isCut_cutOff (.object done :: outer) .next)
  | t :: ts =>
    cases t with
    | closeObject => exact .inr ⟨[], ts, rfl, rfl⟩
    | comma =>
      rw [resume_cons ts rfl]
      show (Document.resume (.object done :: outer) .key ts).root.isCut = true ∨ _
      obtain hcut | ⟨key, x, rest, hx, rfl⟩ :=
        resume_cut_or_member outer done .key ts (.inl rfl)
      · exact .inl hcut
      · rw [resume_member hx (.inr rfl)]
        obtain hcut | ⟨xs, rest', hxs, rfl⟩ := resume_cut_or_members outer ((key, x) :: done) rest
        · exact .inl hcut
        · refine .inr ⟨(key, x) :: xs, rest', Bool.and_eq_true_iff.2 ⟨hx, hxs⟩, ?_⟩
          simp [Node.tokensOfMembers]
    | _ => exact .inl (isCut_resume_cons ts rfl)
termination_by ts.length

end

/-- The root of a document is cut off, or the document begins with its tokens. -/
theorem ofTokens_cut_or_whole (ts : List Token) :
    (Document.ofTokens ts).root.isCut = true ∨
      ∃ (n : Node) (rest : List Token), n.isWhole = true ∧ ts = n.tokens ++ rest ∧
        Document.ofTokens ts = ⟨n, !rest.isEmpty⟩ := by
  obtain hcut | ⟨n, rest, hn, rfl⟩ := resume_cut_or_value [] .value ts (.inl rfl)
  · exact .inl hcut
  · exact .inr ⟨n, rest, hn, rfl, ofTokens_whole hn rest⟩

/-! ## Bytes -/

/-- Bytes hold a tree without faults, and nothing but space around it. -/
def Node.IsText (n : Node) (bs : Bytes) : Prop := n.isWhole = true ∧ Token.scan bs = n.tokens

theorem read_of_isText {n : Node} {bs : Bytes} (h : n.IsText bs) :
    Document.read bs = ⟨n, false⟩ := by
  have hwhole := ofTokens_whole h.1 []
  rw [List.append_nil, ← h.2] at hwhole
  exact hwhole

/-- A reader that takes no tree that was cut off takes the trees of whole documents. -/
theorem decode_eq_ok_iff {α : Type} {read : Node → Read α}
    (hcut : ∀ n a, read n = .ok a → n.isCut = false) {bs : Bytes} {a : α} :
    decode read bs = .ok a ↔ ∃ n : Node, n.IsText bs ∧ read n = .ok a := by
  constructor
  · intro h
    unfold decode Document.decode at h
    cases hr : read (Document.read bs).root with
    | error c =>
      rw [hr] at h
      cases h
    | ok b =>
      rw [hr] at h
      replace h : (if (Document.read bs).trailing = true then .error .malformed else .ok b) =
        (.ok a : Read α) := h
      split at h
      · cases h
      · rename_i htrailing
        cases h
        obtain hroot | ⟨n, rest, hn, hts, heq⟩ := ofTokens_cut_or_whole (Token.scan bs)
        · cases (hcut _ _ hr).symm.trans hroot
        · replace heq : Document.read bs = ⟨n, !rest.isEmpty⟩ := heq
          rw [heq] at hr htrailing
          obtain rfl : rest = [] := by simpa using htrailing
          exact ⟨n, ⟨hn, by rw [hts, List.append_nil]⟩, hr⟩
  · rintro ⟨n, htext, hr⟩
    unfold decode
    rw [read_of_isText htext]
    unfold Document.decode
    rw [hr]
    rfl

end Rerun.Json
