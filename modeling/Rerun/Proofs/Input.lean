import Rerun.Proofs.ByDigest
import Rerun.Proofs.Json.Ascii
import Rerun.Proofs.Json.Lenient
import Rerun.Proofs.Json.Pretty
import Rerun.Proofs.Program

/-!
# Inputs in files

An input is written with its content in the order of the digests, and is read as it was written
(`Input.ofJson_written`). Whatever text is read as an input gives one whose content is in order
(`Input.isOrdered_of_parse`), so writing it and reading it again changes nothing any more.
-/

namespace Rerun

/-! ## Byte strings -/

namespace Bytes

theorem ofText_text (bs : Bytes) : ofText bs.text = 0x30 :: 0x78 :: Hex.digits bs := by
  unfold text
  rw [ofText_append, Hex.ofText_encode]
  rfl

/-- No hexadecimal text starts with a mark. -/
theorem stripMarks_digits (bs : Bytes) : stripMarks (Hex.digits bs) = Hex.digits bs := by
  cases bs with
  | nil => rfl
  | cons b bs =>
    have hx : ∀ n : Fin 16, Hex.digit (UInt8.ofNat n) ≠ 0x78 := by decide
    have hlow : (b &&& 0x0F).toNat < 16 := by
      simpa [UInt8.lt_iff_toNat_lt] using (Hex.halves_of_byte b).2.1
    have hne : Hex.digit (b &&& 0x0F) ≠ 0x78 := by simpa using hx ⟨_, hlow⟩
    rw [Hex.digits, List.flatMap_cons, Hex.pair, List.cons_append, List.cons_append]
    unfold stripMarks
    split
    · rename_i h
      exact absurd (List.cons.inj (List.cons.inj h).2).1 hne
    · rfl

@[simp] theorem readText_text (bs : Bytes) : readText bs.text = .ok bs := by
  unfold readText
  rw [ofText_text, stripMarks, stripMarks_digits, Hex.read_digits]

@[simp] theorem ofJson_written (bs : Bytes) : ofJson bs.toJson.node = .ok bs := by
  unfold ofJson toJson
  rw [Json.readText_written]
  exact readText_text bs

theorem text_isAscii (bs : Bytes) : (ofText bs.text).IsAscii := by
  rw [ofText_text]
  exact .cons (by decide) (.cons (by decide) fun _ hd => (Hex.digits_class hd).1)

end Bytes

theorem Digest.text_isAscii (d : Digest) : (Bytes.ofText d.text).IsAscii :=
  Bytes.text_isAscii d.bytes

/-! ## Messages -/

theorem Message.form_isPlain : Message.form.IsPlain := by
  refine ⟨rfl, by decide, ?_⟩
  simp only [Message.form, List.pairwise_cons, List.forall_mem_cons, List.not_mem_nil,
    List.Pairwise.nil, false_imp_iff, implies_true, and_true]
  exact .of_set (fun _ _ => rfl) (fun _ _ => rfl) fun _ _ _ => rfl

@[simp] theorem Message.ofJson_written (m : Message) : Message.ofJson m.toJson.node = .ok m := by
  refine Json.Form.read_written Message.form_isPlain [.number m.index, m.data.toJson] rfl ?_
  simp [Message.form, Json.Form.fill, bind, Except.bind, pure, Except.pure]

theorem Message.readList_written (ms : List Message) :
    Json.readList Message.ofJson (Json.Value.array (ms.map Message.toJson)).node = .ok ms := by
  have hitems := Json.readItems_written Message.ofJson_written ms
  simp [Json.Value.node, Json.readList, hitems, Json.Ending.check, bind, Except.bind, pure,
    Except.pure]

/-! ## Content -/

namespace Input

/-- The written form of content by its digest. -/
def contentJson (m : ByDigest Bytes) : Json.Value :=
  .object (m.map fun (d, content) => (d.text, content.toJson))

theorem readEntries_written (m : ByDigest Bytes) :
    Json.readEntries Digest.readText (Json.readText "a string")
        (Json.Value.memberNodes (m.map fun (d, content) => (d.text, content.toJson))) =
      .ok (m.map fun (d, content) => (d, content.text)) := by
  induction m with
  | nil => rfl
  | cons x m ih =>
    obtain ⟨d, content⟩ := x
    have hkey : Digest.readText d.text = .ok d := by
      unfold Digest.readText
      rw [Digest.parse_text]
    have hcontent : Json.readText "a string" content.toJson.node = .ok content.text :=
      Json.readText_written _ _
    rw [List.map_cons, Json.Value.memberNodes, Json.readEntries, Json.pieceText?_written]
    exact Json.bind_eq_ok.2 ⟨d, hkey, Json.bind_eq_ok.2 ⟨content.text, hcontent,
      Json.bind_eq_ok.2 ⟨_, ih, rfl⟩⟩⟩

/-- Content in the order of its digests is read as it was written. -/
theorem readPreimages_written {m : ByDigest Bytes} (h : m.IsAscending) :
    readPreimages (contentJson m).node = .ok m := by
  have hascending : ByDigest.IsAscending (m.map fun (d, content) => (d, content.text)) :=
    List.pairwise_map.2 h
  have hall := ByDigest.readAll_map Bytes.readText_text m
  simp only [readPreimages, contentJson, Json.Value.node, Json.readMap, readEntries_written,
    Json.Ending.check, bind, Except.bind, pure, Except.pure, hascending.ofList_eq, hall]

theorem isAscending_of_readPreimages {n : Json.Node} {m : ByDigest Bytes}
    (h : readPreimages n = .ok m) : m.IsAscending := by
  obtain ⟨entries, -, h⟩ := Json.bind_eq_ok.1 h
  exact (ByDigest.isAscending_ofList entries).readAll h

/-! ## Inputs -/

/-- The content of an input is in the order of the digests, one for each. -/
def IsOrdered (x : Input) : Prop := x.preimages.IsAscending

theorem form_strictly_isPlain : form.strictly.IsPlain := by
  refine ⟨rfl, by decide, ?_⟩
  simp only [Json.Form.strictly, form, List.pairwise_cons, List.forall_mem_cons, List.not_mem_nil,
    List.Pairwise.nil, false_imp_iff, implies_true, and_true]
  refine ⟨⟨?_, ?_, ?_, ?_⟩, ⟨?_, ?_, ?_⟩, ⟨?_, ?_⟩, ?_⟩ <;>
    exact .of_set (fun _ _ => rfl) (fun _ _ => rfl) fun _ _ _ => rfl

/-- An input is read as it was written. -/
theorem ofJson_written {x : Input} (h : x.IsOrdered) : ofJson x.toJson.node = .ok x := by
  refine Json.Form.read_of_strictly rfl ?_
  refine Json.Form.read_written form_strictly_isPlain
    [.number x.id, x.startState.toJson, .array (x.sequencerMessages.map Message.toJson),
      .array (x.delayedMessages.map Message.toJson), contentJson x.preimages] rfl ?_
  have hcontent := readPreimages_written h
  simp [Json.Form.strictly, form, Json.Form.fill, Message.readList_written, hcontent, bind,
    Except.bind, pure, Except.pure]

/-- What is read as an input has its content in order, whatever order the document has. -/
theorem isOrdered_of_ofJson {n : Json.Node} {x : Input} (h : ofJson n = .ok x) : x.IsOrdered := by
  have hblank : form.blank.IsOrdered := List.Pairwise.nil
  refine Json.Form.read_keeps ?_ hblank h
  simp only [form, List.forall_mem_cons, List.not_mem_nil, false_imp_iff, implies_true, and_true]
  refine ⟨?_, ?_, ?_, ?_, ?_⟩ <;> intro n a b hread ha <;>
    obtain ⟨v, hv, hread⟩ := Json.bind_eq_ok.1 hread <;> cases hread
  · exact ha
  · exact ha
  · exact ha
  · exact ha
  · exact isAscending_of_readPreimages hv

theorem isOrdered_of_parse {text : String} {x : Input} (h : parse text = .ok x) : x.IsOrdered := by
  obtain ⟨y, hy, h⟩ := Json.bind_eq_ok.1 h
  split at h
  · cases h
  · cases h
    exact isOrdered_of_ofJson hy

/-! ### Written inputs are ASCII -/

theorem startState_isAscii (g : GlobalState) : g.toJson.IsAscii := by
  refine ⟨by decide, g.blockHash.text_isAscii, by decide, g.sendRoot.text_isAscii, ?_⟩
  exact ⟨by decide, trivial, by decide, trivial, trivial⟩

theorem messages_isAscii (ms : List Message) :
    (Json.Value.array (ms.map Message.toJson)).IsAscii := by
  induction ms with
  | nil => exact trivial
  | cons m ms ih =>
    exact ⟨⟨by decide, trivial, by decide, m.data.text_isAscii, trivial⟩, ih⟩

theorem content_isAscii (m : ByDigest Bytes) : (contentJson m).IsAscii := by
  induction m with
  | nil => exact trivial
  | cons x m ih => exact ⟨x.1.text_isAscii, x.2.text_isAscii, ih⟩

theorem toJson_isAscii (x : Input) : x.toJson.IsAscii := by
  refine ⟨by decide, trivial, by decide, startState_isAscii x.startState, by decide,
    messages_isAscii x.sequencerMessages, by decide, messages_isAscii x.delayedMessages,
    by decide, content_isAscii x.preimages, trivial⟩

/-! ### Files -/

/-- An input that is read as it was written, from text and from a file, with one entry a line or
without any space, and whose content is written in the order of its names. -/
structure IsKept (x : Input) : Prop where
  text : parse x.toJson.text = .ok x
  lines : Json.decode ofJson x.toJson.pretty = .ok x
  file : ∀ (fs : Files) (path : String),
    fs.readText path = .ok x.toJson.text → load fs path = .ok x
  ascending : (x.preimages.map fun entry => entry.1.text).Pairwise (· < ·)

theorem IsOrdered.isKept {x : Input} (h : x.IsOrdered) : x.IsKept := by
  have htext : parse x.toJson.text = .ok x := by
    unfold parse
    rw [Json.decode_text ofJson x.toJson_isAscii]
    exact ofJson_written h
  refine ⟨htext, ?_, fun fs path hfile => ?_, ?_⟩
  · rw [Json.decode_pretty]
    exact ofJson_written h
  · unfold load
    rw [hfile]
    dsimp only
    rw [htext]
  · exact List.pairwise_map.2 (h.imp Digest.Before.text_lt)

/-- Every input is read as it was written. What is written hangs on what the content is under each
digest, not on the order in which it was put in; and an input that was read from any text at all is
written and read again without a change. -/
theorem survives_file_format :
    (∀ (id : UInt64) (start : GlobalState) (sequencer delayed : List Message)
        (entries : List (Digest × Bytes)),
      IsKept ⟨id, start, sequencer, delayed, .ofList entries⟩ ∧
        ∀ entries' : List (Digest × Bytes),
          (∀ d, entries'.reverse.lookup d = entries.reverse.lookup d) →
            (toJson ⟨id, start, sequencer, delayed, .ofList entries'⟩).text =
              (toJson ⟨id, start, sequencer, delayed, .ofList entries⟩).text) ∧
      ∀ (text : String) (x : Input), parse text = .ok x →
        x.IsKept ∧ ∀ y, parse x.toJson.text = .ok y → y = x ∧ y.toJson.text = x.toJson.text := by
  refine ⟨fun id start sequencer delayed entries => ⟨?_, fun entries' h => ?_⟩, fun text x h => ?_⟩
  · exact IsOrdered.isKept (ByDigest.isAscending_ofList entries)
  · rw [ByDigest.ofList_congr h]
  · have hkept := (isOrdered_of_parse h).isKept
    refine ⟨hkept, fun y hy => ?_⟩
    obtain rfl : x = y := Except.ok.inj (hkept.text.symm.trans hy)
    exact ⟨rfl, rfl⟩

/-- An input in which fields are missing, unknown and out of order, and one digest is spelled in two
ways. -/
def strangeJson : Json.Value :=
  .object [("preimages", .object
      [(" 0X" ++ "".pushn 'A' 64 ++ " ", .string "0x0x00FF"), ("".pushn 'a' 64, .string "0A")]),
    ("extra", .array [.null]), ("id", .number 7)]

theorem strangeJson_isAscii : strangeJson.IsAscii := by
  have hlong : (Bytes.ofText "0x0x00FF").IsAscii := by decide
  have hshort : (Bytes.ofText "0A").IsAscii := by decide
  exact ⟨by decide, ⟨by decide, hlong, by decide, hshort, trivial⟩, by decide, ⟨trivial, trivial⟩,
    by decide, trivial, trivial⟩

theorem survives_file_format_on_strange :
    let d : Digest := ⟨List.replicate 32 0xAA, by decide⟩
    let x : Input := { ofState 7 default with preimages := [(d, [0x0A])] }
    parse strangeJson.text = .ok x ∧ x.IsKept := by
  intro d x
  have hread : parse strangeJson.text = .ok x := by
    unfold parse
    rw [Json.decode_text ofJson strangeJson_isAscii]
    rfl
  exact ⟨hread, (survives_file_format.2 strangeJson.text x hread).1⟩

end Input

end Rerun
