import Rerun.Machine.Snapshot
import Rerun.Proofs.Digest
import Rerun.Proofs.Json.Record
import Rerun.Proofs.Json.Written

/-!
# Reading snapshots

A snapshot that was written is read as it was (`Snapshot.parse_write`), whatever the progress in it:
every number of sixty-four bits, every digest and every status.
-/

namespace Rerun

@[simp] theorem Digest.ofJson_written (d : Digest) : Digest.ofJson d.toJson.node = .ok d := by
  unfold Digest.ofJson Digest.toJson
  rw [Json.readText_written]
  simp only [bind, Except.bind, Digest.readText, Digest.parse_text]

@[simp] theorem Status.ofJson_written (s : Status) : Status.ofJson s.toJson.node = .ok s := by
  unfold Status.ofJson Status.toJson
  rw [Json.Value.node, Json.readChoice, Json.pieceText?_written]
  cases s <;> rfl

/-! ## Records -/

namespace Json

theorem valuesAt_written_cons (name other : String) (x : Value) (members : List (String × Value)) :
    valuesAt name (Value.memberNodes ((other, x) :: members)) =
      if other = name then x.node :: valuesAt name (Value.memberNodes members)
      else valuesAt name (Value.memberNodes members) := by
  rw [Value.memberNodes, valuesAt_cons, pieceText?_written]
  simp only [Option.some.injEq]

/-- What was written under other names stands under none of these. -/
theorem valuesAt_written {name : String} {names : List String} (h : name ∉ names)
    (values : List Value) : valuesAt name (Value.memberNodes (names.zip values)) = [] := by
  induction names generalizing values with
  | nil => rfl
  | cons other names ih =>
    cases values with
    | nil => rfl
    | cons x xs =>
      rw [List.mem_cons, not_or] at h
      rw [List.zip_cons_cons, valuesAt_written_cons, if_neg (Ne.symm h.1)]
      exact ih h.2 xs

theorem once_written {names : List String} (h : names.Nodup) {values : List Value}
    (hl : values.length = names.length) :
    (names.map fun name => valuesAt name (Value.memberNodes (names.zip values))) =
      (values.map Value.node).map fun x => [x] := by
  induction names generalizing values with
  | nil =>
    cases List.length_eq_zero_iff.1 hl
    rfl
  | cons name names ih =>
    cases values with
    | nil => cases hl
    | cons x xs =>
      obtain ⟨hname, hnames⟩ := List.nodup_cons.1 h
      have hrest : ∀ other ∈ names,
          valuesAt other (Value.memberNodes ((name, x) :: names.zip xs)) =
            valuesAt other (Value.memberNodes (names.zip xs)) := by
        intro other hother
        rw [valuesAt_written_cons, if_neg]
        rintro rfl
        exact hname hother
      rw [List.zip_cons_cons, List.map_cons, List.map_cons, List.map_cons, valuesAt_written_cons,
        if_pos rfl, valuesAt_written hname, List.map_congr_left hrest,
        ih hnames (Nat.succ.inj hl)]

theorem known_written (known names : List String) (h : ∀ name ∈ names, name ∈ known)
    (values : List Value) : Known known (Value.memberNodes (names.zip values)) := by
  induction names generalizing values with
  | nil => simp [Known, Value.memberNodes]
  | cons name names ih =>
    cases values with
    | nil => simp [Known, Value.memberNodes]
    | cons x xs =>
      obtain ⟨hname, hnames⟩ := List.forall_mem_cons.1 h
      exact Known.cons_iff.2 ⟨⟨name, pieceText?_written name, .inl hname⟩, ih hnames xs⟩

/-- A record that was written with a value for each of its fields, in their order, is read value by
value. -/
theorem Form.read_written {α : Type} {form : Form α} (h : form.IsPlain) (values : List Value)
    (hl : values.length = form.fields.length) {a : α}
    (hfill : Form.fill form.fields (values.map Value.node) form.blank = .ok a) :
    form.read (Value.object ((form.fields.map (·.name)).zip values)).node = .ok a :=
  (Form.read_eq_ok_iff h).2 ⟨values.map Value.node,
    .object (known_written _ _ (fun _ hname => hname) values)
      (once_written h.distinct (hl.trans (List.length_map ..).symm)), hfill⟩

end Json

/-! ## Snapshots -/

theorem GlobalState.form_isPlain : GlobalState.form.IsPlain := by
  refine ⟨rfl, by decide, ?_⟩
  simp only [GlobalState.form, List.pairwise_cons, List.forall_mem_cons, List.not_mem_nil,
    List.Pairwise.nil, false_imp_iff, implies_true, and_true]
  refine ⟨⟨?_, ?_, ?_⟩, ⟨?_, ?_⟩, ?_⟩ <;>
    exact .of_set (fun _ _ => rfl) (fun _ _ => rfl) fun _ _ _ => rfl

theorem Progress.form_isPlain : Progress.form.IsPlain := by
  refine ⟨rfl, by decide, ?_⟩
  simp only [Progress.form, List.pairwise_cons, List.forall_mem_cons, List.not_mem_nil,
    List.Pairwise.nil, false_imp_iff, implies_true, and_true]
  refine ⟨⟨?_, ?_, ?_, ?_⟩, ⟨?_, ?_, ?_⟩, ⟨?_, ?_⟩, ?_⟩ <;>
    exact .of_set (fun _ _ => rfl) (fun _ _ => rfl) fun _ _ _ => rfl

theorem Snapshot.form_isPlain : Snapshot.form.IsPlain := by
  refine ⟨rfl, by decide, ?_⟩
  simp only [Snapshot.form, List.pairwise_cons, List.forall_mem_cons, List.not_mem_nil,
    List.Pairwise.nil, false_imp_iff, implies_true, and_true]
  exact .of_set (fun _ _ => rfl) (fun _ _ => rfl) fun _ _ _ => rfl

@[simp] theorem GlobalState.ofJson_written (g : GlobalState) :
    GlobalState.ofJson g.toJson.node = .ok g := by
  refine Json.Form.read_written GlobalState.form_isPlain
    [g.blockHash.toJson, g.sendRoot.toJson, .number g.batch, .number g.posInBatch] rfl ?_
  simp [GlobalState.form, Json.Form.fill, bind, Except.bind, pure, Except.pure]

@[simp] theorem Progress.read_written (p : Progress) :
    Progress.form.read p.toJson.node = .ok p := by
  refine Json.Form.read_written Progress.form_isPlain
    [.number p.pc, .number p.steps, p.status.toJson, p.acc.toJson, p.global.toJson] rfl ?_
  simp [Progress.form, Json.Form.fill, bind, Except.bind, pure, Except.pure]

/-- A snapshot is read as it was written. -/
@[simp] theorem Snapshot.parse_write (s : Snapshot) : Snapshot.parse s.write = .ok s := by
  unfold Snapshot.parse Snapshot.write
  rw [Json.decode_compact]
  refine Json.Form.read_written Snapshot.form_isPlain
    [s.root.toJson, s.progress.toJson] rfl ?_
  simp [Snapshot.form, Json.Form.fill, bind, Except.bind, pure, Except.pure]

end Rerun
