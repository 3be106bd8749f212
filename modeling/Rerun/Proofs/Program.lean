import Rerun.Image
import Rerun.Proofs.Machine.Snapshot

/-!
# Reading programs

A program that was written is read as it was (`Program.parse_compact`), instruction by instruction.
-/

namespace Rerun

@[simp] theorem Inbox.kept_written (inbox : Inbox) :
    Instruction.keptInbox inbox.toJson.node = .ok inbox := by
  unfold Inbox.toJson
  rw [Json.Value.node, Instruction.keptInbox, Json.pieceText?_written]
  cases inbox <;> rfl

namespace Instruction

@[simp] theorem Tag.ofJson_written (name : String) :
    Tag.ofJson (Json.Value.string name).node = Json.choose Tag.names name := by
  unfold Tag.ofJson
  rw [Json.readText_written]
  rfl

theorem keeps_number (depth : Nat) (n : UInt64) :
    keeps depth (Json.Value.number n).node = true := by
  simp [Json.Value.node, keeps, Json.Number.name?]

theorem keeps_string (depth : Nat) (s : String) :
    keeps depth (Json.Value.string s).node = true := by
  rw [Json.Value.node, keeps, Json.pieceText?_written]
  rfl

/-- The members of a written instruction: its tag, and its operand behind it. -/
theorem splitTag_operand {depth : Nat} {tag : Tag} {name field : String} {x : Json.Node}
    (ht : Json.choose Tag.names name = .ok tag) (hf : field ≠ "op")
    (hx : keeps depth x = true) :
    splitTag depth none []
        [(Json.writtenPieces "op", (Json.Value.string name).node),
          (Json.writtenPieces field, x)] =
      .ok (some tag, [(Json.writtenPieces field, x)]) := by
  simp [splitTag, ht, hf, hx, bind, Except.bind]

theorem splitTag_alone {depth : Nat} {tag : Tag} {name : String}
    (ht : Json.choose Tag.names name = .ok tag) :
    splitTag depth none []
        [(Json.writtenPieces "op", (Json.Value.string name).node)] = .ok (some tag, []) := by
  simp [splitTag, ht, bind, Except.bind]

theorem ofMembers_operand {field : String} {read : Json.Node → Json.Read Instruction}
    {x : Json.Node} {i : Instruction} (h : read x = .ok i) :
    ofMembers field read [(Json.writtenPieces field, x)] = .ok i := by
  simp [ofMembers, Json.Form.readMembers, Json.Form.missing?, h, bind, Except.bind, pure,
    Except.pure]

theorem ofJson_operand {depth : Nat} {tag : Tag} {name field record : String} {x : Json.Node}
    {read : Json.Node → Json.Read Instruction} {i : Instruction}
    (ht : Json.choose Tag.names name = .ok tag)
    (ho : tag.operand? = some (record, field, read)) (hf : field ≠ "op")
    (hx : keeps (depth + 1) x = true) (hr : read x = .ok i) :
    ofJson depth (.object [(Json.writtenPieces "op", (Json.Value.string name).node),
      (Json.writtenPieces field, x)] .closed) = .ok i := by
  rw [ofJson, splitTag_operand ht hf hx]
  simp only [bind, Except.bind, Json.Ending.check]
  rw [ho]
  exact ofMembers_operand hr

theorem ofJson_alone {depth : Nat} {tag : Tag} {name : String}
    (ht : Json.choose Tag.names name = .ok tag) (ho : tag.operand? = none) :
    ofJson depth (.object [(Json.writtenPieces "op", (Json.Value.string name).node)] .closed) =
      .ok tag.plain := by
  rw [ofJson, splitTag_alone ht]
  simp only [bind, Except.bind, Json.Ending.check]
  rw [ho]
  rfl

/-- An instruction is read as it was written. -/
@[simp] theorem ofJson_written (depth : Nat) (i : Instruction) :
    ofJson depth i.toJson.node = .ok i := by
  cases i with
  | mix value =>
    refine ofJson_operand rfl rfl (by decide) (keeps_number _ value) ?_
    rw [Json.readNatural_written]
    rfl
  | readInbox inbox =>
    refine ofJson_operand rfl rfl (by decide) (keeps_string _ inbox.text) ?_
    show Instruction.readInbox <$> keptInbox inbox.toJson.node = _
    rw [Inbox.kept_written]
    rfl
  | readPreimage hash =>
    refine ofJson_operand rfl rfl (by decide) (keeps_string _ hash.text) ?_
    show Instruction.readPreimage <$> Digest.ofJson hash.toJson.node = _
    rw [Digest.ofJson_written]
    rfl
  | jump target =>
    refine ofJson_operand rfl rfl (by decide) (keeps_number _ target) ?_
    rw [Json.readNatural_written]
    rfl
  | halt =>
    have ht : Json.choose Tag.names "halt" = .ok .halt := rfl
    exact ofJson_alone ht rfl
  | fail =>
    have ht : Json.choose Tag.names "fail" = .ok .fail := rfl
    exact ofJson_alone ht rfl

end Instruction

theorem Json.readItems_written {α : Type} {read : Node → Read α} {write : α → Value}
    (h : ∀ a, read (write a).node = .ok a) (xs : List α) :
    readItems read (Value.nodes (xs.map write)) = .ok xs := by
  induction xs with
  | nil => rfl
  | cons x xs ih =>
    rw [List.map_cons, Value.nodes, readItems, h, ih]
    rfl

theorem Program.form_isPlain : Program.form.IsPlain :=
  ⟨rfl, by decide, List.pairwise_singleton _ _⟩

/-- A program is read as it was written. -/
theorem Program.parse_compact (p : Program) : Program.parse p.toJson.compact = .ok p := by
  unfold Program.parse
  rw [Json.decode_compact]
  refine Json.Form.read_written Program.form_isPlain
    [.array (p.instructions.map (·.toJson))] rfl ?_
  have hitems := Json.readItems_written (Instruction.ofJson_written 2) p.instructions
  simp [Program.form, Json.Form.fill, Json.readList, Json.Value.node, hitems, Json.Ending.check,
    bind, Except.bind, pure, Except.pure, Functor.map, Except.map]

/-- The image of a program at a path is loaded. -/
theorem Program.load_written {p : Program} {fs : Files} {path : String}
    (h : fs.read path = .ok p.toJson.compact) : Program.load fs (Bytes.ofText path) = .ok p := by
  unfold Program.load
  rw [Bytes.text?_ofText]
  dsimp only
  rw [h]
  dsimp only
  rw [Program.parse_compact]
  rfl

end Rerun
