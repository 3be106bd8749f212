import Rerun.Proofs.Json.Truncated
import Rerun.Proofs.Lookup
import Rerun.Proofs.Machine.Snapshot

/-!
# Well-formed snapshots

Which files are snapshots, said of the tree in them and not of the way in which it is read
(`Snapshot.IsIn`), and that these are the files that are read (`Snapshot.parse_eq_ok_iff`). What is
left of such a file when its end is missing is no such file (`Snapshot.not_isIn_of_truncated`).
-/

namespace Rerun

open Json

/-! ## Trees that spell values -/

/-- A tree spells a digest: it is a text that names it. -/
def Digest.IsSpelled (d : Digest) (n : Node) : Prop :=
  ∃ s, n.text? = some s ∧ Digest.parse s = .ok d

/-- A tree spells a status: it gives the name of it. -/
def Status.IsSpelled (s : Status) (n : Node) : Prop := n.Names s.text

/-- A tree spells a global state if it holds its four parts. -/
def GlobalState.IsSpelled (g : GlobalState) (n : Node) : Prop :=
  ∃ blockHash sendRoot batch posInBatch,
    n.Holds ["blockHash", "sendRoot", "batch", "posInBatch"]
      [blockHash, sendRoot, batch, posInBatch] ∧
    g.blockHash.IsSpelled blockHash ∧ g.sendRoot.IsSpelled sendRoot ∧ batch.IsNatural g.batch ∧
    posInBatch.IsNatural g.posInBatch

/-- A tree spells progress if it holds its five parts. -/
def Progress.IsSpelled (p : Progress) (n : Node) : Prop :=
  ∃ pc steps status acc global, n.Holds ["pc", "steps", "status", "acc", "global"]
      [pc, steps, status, acc, global] ∧
    pc.IsNatural p.pc ∧ steps.IsNatural p.steps ∧ p.status.IsSpelled status ∧
    p.acc.IsSpelled acc ∧ p.global.IsSpelled global

/-- A tree spells a snapshot if it holds the module root and the progress. -/
def Snapshot.IsSpelled (s : Snapshot) (n : Node) : Prop :=
  ∃ root state, n.Holds ["module_root", "state"] [root, state] ∧ s.root.IsSpelled root ∧
    s.progress.IsSpelled state

/-- Bytes are a snapshot if the tree in them spells it. -/
def Snapshot.IsIn (s : Snapshot) (bs : Bytes) : Prop := ∃ n : Node, n.IsText bs ∧ s.IsSpelled n

/-! ## What is read -/

theorem Digest.readText_eq_ok {s : String} {d : Digest} :
    Digest.readText s = .ok d ↔ Digest.parse s = .ok d := by
  unfold Digest.readText
  cases Digest.parse s <;> simp

theorem Digest.ofJson_eq_ok {n : Node} {d : Digest} :
    Digest.ofJson n = .ok d ↔ d.IsSpelled n := by
  unfold Digest.ofJson Digest.IsSpelled
  simp only [bind_eq_ok, Json.readText_eq_ok, Digest.readText_eq_ok]

theorem Status.choose_eq_ok {name : String} {s : Status} :
    choose Status.names name = .ok s ↔ name = s.text := by
  constructor
  · intro h
    unfold choose at h
    split at h
    · rename_i s' hs
      cases h
      have hin := Lookup.mem_of_eq_some hs
      simp only [Status.names, List.mem_cons, Prod.mk.injEq, List.not_mem_nil, or_false] at hin
      obtain ⟨rfl, rfl⟩ | ⟨rfl, rfl⟩ | ⟨rfl, rfl⟩ | ⟨rfl, rfl⟩ := hin <;> rfl
    · cases h
  · rintro rfl
    cases s <;> rfl

theorem Status.ofJson_eq_ok {n : Node} {s : Status} :
    Status.ofJson n = .ok s ↔ s.IsSpelled n := by
  unfold Status.ofJson Status.IsSpelled
  simp only [readChoice_eq_ok, Status.choose_eq_ok, exists_eq_left]

theorem GlobalState.ofJson_eq_ok {n : Node} {g : GlobalState} :
    GlobalState.ofJson n = .ok g ↔ g.IsSpelled n := by
  refine (Form.read_eq_ok_iff GlobalState.form_isPlain).trans ?_
  constructor
  · rintro ⟨xs, hholds, hfill⟩
    match xs, hholds.length_eq with
    | [blockHash, sendRoot, batch, posInBatch], _ =>
      simp only [GlobalState.form, Form.fill, bind_eq_ok, pure, Except.pure, Except.ok.injEq,
        Digest.ofJson_eq_ok, readNatural_eq_ok] at hfill
      obtain ⟨_, ⟨d, hd, rfl⟩, _, ⟨e, he, rfl⟩, _, ⟨b, hb, rfl⟩, _, ⟨i, hi, rfl⟩, rfl⟩ := hfill
      exact ⟨blockHash, sendRoot, batch, posInBatch, hholds, hd, he, hb, hi⟩
  · rintro ⟨blockHash, sendRoot, batch, posInBatch, hholds, hd, he, hb, hi⟩
    refine ⟨_, hholds, ?_⟩
    simp only [GlobalState.form, Form.fill, bind_eq_ok, pure, Except.pure, Except.ok.injEq,
      Digest.ofJson_eq_ok, readNatural_eq_ok]
    exact ⟨_, ⟨_, hd, rfl⟩, _, ⟨_, he, rfl⟩, _, ⟨_, hb, rfl⟩, _, ⟨_, hi, rfl⟩, rfl⟩

theorem Progress.read_eq_ok {n : Node} {p : Progress} :
    Progress.form.read n = .ok p ↔ p.IsSpelled n := by
  refine (Form.read_eq_ok_iff Progress.form_isPlain).trans ?_
  constructor
  · rintro ⟨xs, hholds, hfill⟩
    match xs, hholds.length_eq with
    | [pc, steps, status, acc, global], _ =>
      simp only [Progress.form, Form.fill, bind_eq_ok, pure, Except.pure, Except.ok.injEq,
        readNatural_eq_ok, Status.ofJson_eq_ok, Digest.ofJson_eq_ok,
        GlobalState.ofJson_eq_ok] at hfill
      obtain ⟨_, ⟨c, hc, rfl⟩, _, ⟨n, hn, rfl⟩, _, ⟨s, hs, rfl⟩, _, ⟨d, hd, rfl⟩, _, ⟨g, hg, rfl⟩,
        rfl⟩ := hfill
      exact ⟨pc, steps, status, acc, global, hholds, hc, hn, hs, hd, hg⟩
  · rintro ⟨pc, steps, status, acc, global, hholds, hc, hn, hs, hd, hg⟩
    refine ⟨_, hholds, ?_⟩
    simp only [Progress.form, Form.fill, bind_eq_ok, pure, Except.pure, Except.ok.injEq,
      readNatural_eq_ok, Status.ofJson_eq_ok, Digest.ofJson_eq_ok, GlobalState.ofJson_eq_ok]
    exact ⟨_, ⟨_, hc, rfl⟩, _, ⟨_, hn, rfl⟩, _, ⟨_, hs, rfl⟩, _, ⟨_, hd, rfl⟩, _, ⟨_, hg, rfl⟩, rfl⟩

theorem Snapshot.read_eq_ok {n : Node} {s : Snapshot} :
    Snapshot.form.read n = .ok s ↔ s.IsSpelled n := by
  refine (Form.read_eq_ok_iff Snapshot.form_isPlain).trans ?_
  constructor
  · rintro ⟨xs, hholds, hfill⟩
    match xs, hholds.length_eq with
    | [root, state], _ =>
      simp only [Snapshot.form, Form.fill, bind_eq_ok, pure, Except.pure, Except.ok.injEq,
        Digest.ofJson_eq_ok, Progress.read_eq_ok] at hfill
      obtain ⟨_, ⟨d, hd, rfl⟩, _, ⟨p, hp, rfl⟩, rfl⟩ := hfill
      exact ⟨root, state, hholds, hd, hp⟩
  · rintro ⟨root, state, hholds, hd, hp⟩
    refine ⟨_, hholds, ?_⟩
    simp only [Snapshot.form, Form.fill, bind_eq_ok, pure, Except.pure, Except.ok.injEq,
      Digest.ofJson_eq_ok, Progress.read_eq_ok]
    exact ⟨_, ⟨_, hd, rfl⟩, _, ⟨_, hp, rfl⟩, rfl⟩

/-! ## Files -/

/-- What holds values under names is an array or an object, and was not cut off. -/
theorem Json.Node.Holds.isContainer {names : List String} {values : List Node} {n : Node}
    (h : n.Holds names values) : n.isContainer = true ∧ n.isCut = false := by
  cases h <;> exact ⟨rfl, rfl⟩

theorem Snapshot.IsSpelled.isContainer {s : Snapshot} {n : Node} (h : s.IsSpelled n) :
    n.isContainer = true ∧ n.isCut = false := by
  obtain ⟨root, state, hholds, -⟩ := h
  exact hholds.isContainer

/-- The snapshots that are read are those that are in the bytes. -/
theorem Snapshot.parse_eq_ok_iff {bs : Bytes} {s : Snapshot} :
    Snapshot.parse bs = .ok s ↔ s.IsIn bs := by
  unfold Snapshot.parse Snapshot.IsIn
  rw [decode_eq_ok_iff fun n s h => (Snapshot.read_eq_ok.1 h).isContainer.2]
  simp only [Snapshot.read_eq_ok]

/-- Nothing that breaks off is a snapshot, wherever it does, unless only space is missing. -/
theorem Snapshot.not_isIn_of_truncated {s s' : Snapshot} {bs more : Bytes}
    (h : s.IsIn (bs ++ more)) (hmore : ∃ b ∈ more, isSpace b = false) : ¬ s'.IsIn bs := by
  rintro ⟨n, htext, hspelled⟩
  obtain ⟨n', htext', -⟩ := h
  obtain ⟨b, hb, hspace⟩ := hmore
  have hall := isText_append hspelled.isContainer.1 htext htext' b hb
  rw [hspace] at hall
  cases hall

theorem Snapshot.isIn_write (s : Snapshot) : s.IsIn s.write :=
  Snapshot.parse_eq_ok_iff.1 (Snapshot.parse_write s)

/-- A snapshot that was written ends with a bracket, so nothing in front of its end is one. -/
theorem Snapshot.not_isIn_of_written {s s' : Snapshot} {bs more : Bytes}
    (h : s.write = bs ++ more) (hmore : more ≠ []) : ¬ s'.IsIn bs := by
  refine Snapshot.not_isIn_of_truncated (s := s) (h ▸ s.isIn_write) ⟨0x7D, ?_, rfl⟩
  have hlast : s.write.getLast? = some 0x7D := by
    unfold Snapshot.write Snapshot.toJson
    rw [Value.compact, List.getLast?_concat]
  rw [h, List.getLast?_append_of_ne_nil _ hmore] at hlast
  exact List.mem_of_getLast? hlast

end Rerun
