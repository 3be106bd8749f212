import Rerun.Config
import Rerun.Proofs.Files
import Rerun.Proofs.Json.Partial
import Rerun.Proofs.Json.Pretty
import Rerun.Proofs.Json.Unicode
import Rerun.Proofs.Machine.Snapshot

/-!
# Partial configurations

A document names some of the fields of a configuration (`Config.Patch`). What is loaded is the
default configuration with these fields in place of its own, if that is valid, and a valid
configuration that is written is loaded as it was (`Config.load_exact`).
-/

namespace Rerun.Config

open Json (Says Known)
open Json.Form (gather_cons)

/-! ## What a document names -/

/-- The fields of the machine files that are named. -/
structure MachineFiles.Patch where
  image : Option String := none
  snapshot : Option String := none
  buildTimeoutMs : Option UInt64 := none

/-- The field of the directory of all machines, if it is named. -/
structure RootPatch where
  path : Option String := none

/-- The settings of the interpreter that are named. -/
structure Interpreter.Patch where
  workers : Option UInt64 := none
  stepChunk : Option UInt64 := none
  runTimeoutMs : Option UInt64 := none

/-- The settings of the native runner that are named. -/
structure Jit.Patch where
  workers : Option UInt64 := none
  runTimeoutMs : Option UInt64 := none

/-- The fields that a document names, section by section. A section that is there need not name
anything. -/
structure Patch where
  useJit : Option Bool := none
  wasm : Option RootPatch := none
  machine : Option MachineFiles.Patch := none
  interpreter : Option Interpreter.Patch := none
  jit : Option Jit.Patch := none

/-! ## Taking over what is named -/

/-- The named fields in place of those of the machine files. -/
def MachineFiles.Patch.on (p : MachineFiles.Patch) (m : MachineFiles) : MachineFiles where
  image := p.image.getD m.image
  snapshot := p.snapshot.getD m.snapshot
  buildTimeoutMs := p.buildTimeoutMs.getD m.buildTimeoutMs

/-- The named directory in place of another. -/
def RootPatch.on (p : RootPatch) (rootPath : String) : String := p.path.getD rootPath

/-- The named settings in place of those of the interpreter. -/
def Interpreter.Patch.on (p : Interpreter.Patch) (c : Interpreter) : Interpreter where
  workers := p.workers.getD c.workers
  stepChunk := p.stepChunk.getD c.stepChunk
  runTimeoutMs := p.runTimeoutMs.getD c.runTimeoutMs

/-- The named settings in place of those of the native runner. -/
def Jit.Patch.on (p : Jit.Patch) (c : Jit) : Jit where
  workers := p.workers.getD c.workers
  runTimeoutMs := p.runTimeoutMs.getD c.runTimeoutMs

/-- The named fields in place of those of a configuration. -/
def Patch.on (p : Patch) (c : Config) : Config where
  useJit := p.useJit.getD c.useJit
  rootPath := (p.wasm.getD {}).on c.rootPath
  machine := (p.machine.getD {}).on c.machine
  interpreter := (p.interpreter.getD {}).on c.interpreter
  jit := (p.jit.getD {}).on c.jit

/-! ## Trees that name fields

An object names each field at most once, with a value of its type. The members may stand in any
order, with members of other names among them. -/

/-- An object that names these fields of the machine files. -/
inductive MachineFiles.Patch.Names (p : MachineFiles.Patch) : Json.Node → Prop where
  | object {members : List (List Json.Piece × Json.Node)}
      (known : Known ["wavm-binary-path", "until-host-io-state-path", "build-timeout-ms"] members)
      (image : Says Json.Node.IsString "wavm-binary-path" members p.image)
      (snapshot : Says Json.Node.IsString "until-host-io-state-path" members p.snapshot)
      (buildTimeoutMs : Says Json.Node.IsNatural "build-timeout-ms" members p.buildTimeoutMs) :
      Names p (.object members .closed)

/-- An object that names the directory of all machines, or not. -/
inductive RootPatch.Names (p : RootPatch) : Json.Node → Prop where
  | object {members : List (List Json.Piece × Json.Node)}
      (known : Known ["root-path"] members)
      (path : Says Json.Node.IsString "root-path" members p.path) :
      Names p (.object members .closed)

/-- An object that names these settings of the interpreter. -/
inductive Interpreter.Patch.Names (p : Interpreter.Patch) : Json.Node → Prop where
  | object {members : List (List Json.Piece × Json.Node)}
      (known : Known ["workers", "step-chunk", "run-timeout-ms"] members)
      (workers : Says Json.Node.IsNatural "workers" members p.workers)
      (stepChunk : Says Json.Node.IsNatural "step-chunk" members p.stepChunk)
      (runTimeoutMs : Says Json.Node.IsNatural "run-timeout-ms" members p.runTimeoutMs) :
      Names p (.object members .closed)

/-- An object that names these settings of the native runner. -/
inductive Jit.Patch.Names (p : Jit.Patch) : Json.Node → Prop where
  | object {members : List (List Json.Piece × Json.Node)}
      (known : Known ["workers", "run-timeout-ms"] members)
      (workers : Says Json.Node.IsNatural "workers" members p.workers)
      (runTimeoutMs : Says Json.Node.IsNatural "run-timeout-ms" members p.runTimeoutMs) :
      Names p (.object members .closed)

/-- An object that names these fields of a configuration. -/
inductive Patch.Names (p : Patch) : Json.Node → Prop where
  | object {members : List (List Json.Piece × Json.Node)}
      (known : Known ["use-jit", "wasm", "machine", "interpreter", "jit"] members)
      (useJit : Says Json.Node.IsBool "use-jit" members p.useJit)
      (wasm : Says RootPatch.Names "wasm" members p.wasm)
      (machine : Says MachineFiles.Patch.Names "machine" members p.machine)
      (interpreter : Says Interpreter.Patch.Names "interpreter" members p.interpreter)
      (jit : Says Jit.Patch.Names "jit" members p.jit) :
      Names p (.object members .closed)

/-! ## The fields are independent -/

theorem MachineFiles.form_strictly_isPlain : MachineFiles.form.strictly.IsPlain := by
  refine ⟨rfl, by decide, ?_⟩
  simp only [Json.Form.strictly, MachineFiles.form, List.pairwise_cons, List.forall_mem_cons,
    List.not_mem_nil, List.Pairwise.nil, false_imp_iff, implies_true, and_true]
  refine ⟨⟨?_, ?_⟩, ?_⟩ <;> exact .of_set (fun _ _ => rfl) (fun _ _ => rfl) fun _ _ _ => rfl

theorem rootForm_strictly_isPlain : rootForm.strictly.IsPlain :=
  ⟨rfl, by decide, List.pairwise_singleton _ _⟩

theorem Interpreter.form_strictly_isPlain : Interpreter.form.strictly.IsPlain := by
  refine ⟨rfl, by decide, ?_⟩
  simp only [Json.Form.strictly, Interpreter.form, List.pairwise_cons, List.forall_mem_cons,
    List.not_mem_nil, List.Pairwise.nil, false_imp_iff, implies_true, and_true]
  refine ⟨⟨?_, ?_⟩, ?_⟩ <;> exact .of_set (fun _ _ => rfl) (fun _ _ => rfl) fun _ _ _ => rfl

theorem Jit.form_strictly_isPlain : Jit.form.strictly.IsPlain := by
  refine ⟨rfl, by decide, ?_⟩
  simp only [Json.Form.strictly, Jit.form, List.pairwise_cons, List.forall_mem_cons,
    List.not_mem_nil, List.Pairwise.nil, false_imp_iff, implies_true, and_true]
  exact .of_set (fun _ _ => rfl) (fun _ _ => rfl) fun _ _ _ => rfl

theorem form_strictly_isPlain : form.strictly.IsPlain := by
  refine ⟨rfl, by decide, ?_⟩
  simp only [Json.Form.strictly, form, List.pairwise_cons, List.forall_mem_cons, List.not_mem_nil,
    List.Pairwise.nil, false_imp_iff, implies_true, and_true]
  refine ⟨⟨?_, ?_, ?_, ?_⟩, ⟨?_, ?_, ?_⟩, ⟨?_, ?_⟩, ?_⟩ <;>
    exact .of_set (fun _ _ => rfl) (fun _ _ => rfl) fun _ _ _ => rfl

/-! ## Reading what is named -/

theorem readNatural_named (type : String) (x : UInt64) (n : Json.Node) (h : n.IsNatural x) :
    Json.readNatural type n = .ok x := Json.readNatural_eq_ok.2 h

theorem readText_named (type : String) (s : String) (n : Json.Node) (h : n.IsString s) :
    Json.readText type n = .ok s := Json.readText_eq_ok.2 h

theorem readBool_named (b : Bool) (n : Json.Node) (h : n.IsBool b) : Json.readBool n = .ok b := by
  rw [h]
  rfl

theorem MachineFiles.read_part (p : Patch) (n : Json.Node) (h : p.Names n) :
    form.read n = .ok (p.on {}) := by
  obtain ⟨known, image, snapshot, buildTimeoutMs⟩ := h
  refine Json.Form.read_part rfl form_strictly_isPlain known ?_
  unfold form
  dsimp only
  rw [gather_cons (readText_named _) (fun s (m : MachineFiles) => { m with image := s }) image,
    gather_cons (readText_named _) (fun s (m : MachineFiles) => { m with snapshot := s }) snapshot,
    gather_cons (readNatural_named _) (fun t (m : MachineFiles) => { m with buildTimeoutMs := t })
      buildTimeoutMs]
  rcases p with ⟨_ | _, _ | _, _ | _⟩ <;> rfl

theorem rootForm_read_part (p : RootPatch) (n : Json.Node) (h : p.Names n) :
    rootForm.read n = .ok (p.on "") := by
  obtain ⟨known, path⟩ := h
  refine Json.Form.read_part rfl rootForm_strictly_isPlain known ?_
  unfold rootForm
  dsimp only
  rcases p with ⟨_ | s⟩
  · cases path with
    | nothing h => rw [Json.Form.gather, h]; rfl
  · cases path with
    | once h hx => rw [Json.Form.gather, h]; dsimp only; rw [readText_named _ _ _ hx]; rfl

theorem Interpreter.read_part (p : Patch) (n : Json.Node) (h : p.Names n) :
    form.read n = .ok (p.on {}) := by
  obtain ⟨known, workers, stepChunk, runTimeoutMs⟩ := h
  refine Json.Form.read_part rfl form_strictly_isPlain known ?_
  unfold form
  dsimp only
  rw [gather_cons (readNatural_named _) (fun w (c : Interpreter) => { c with workers := w })
      workers,
    gather_cons (readNatural_named _) (fun k (c : Interpreter) => { c with stepChunk := k })
      stepChunk,
    gather_cons (readNatural_named _) (fun t (c : Interpreter) => { c with runTimeoutMs := t })
      runTimeoutMs]
  rcases p with ⟨_ | _, _ | _, _ | _⟩ <;> rfl

theorem Jit.read_part (p : Patch) (n : Json.Node) (h : p.Names n) :
    form.read n = .ok (p.on {}) := by
  obtain ⟨known, workers, runTimeoutMs⟩ := h
  refine Json.Form.read_part rfl form_strictly_isPlain known ?_
  unfold form
  dsimp only
  rw [gather_cons (readNatural_named _) (fun w (c : Jit) => { c with workers := w }) workers,
    gather_cons (readNatural_named _) (fun t (c : Jit) => { c with runTimeoutMs := t })
      runTimeoutMs]
  rcases p with ⟨_ | _, _ | _⟩ <;> rfl

/-- What is read is the default configuration with the named fields in place of its own. -/
theorem read_part (p : Patch) (n : Json.Node) (h : p.Names n) : form.read n = .ok (p.on {}) := by
  obtain ⟨known, useJit, wasm, machine, interpreter, jit⟩ := h
  refine Json.Form.read_part rfl form_strictly_isPlain known ?_
  unfold form
  dsimp only
  rw [gather_cons readBool_named (fun b (c : Config) => { c with useJit := b }) useJit,
    gather_cons rootForm_read_part (fun s (c : Config) => { c with rootPath := s }) wasm,
    gather_cons MachineFiles.read_part (fun m (c : Config) => { c with machine := m }) machine,
    gather_cons Interpreter.read_part (fun i (c : Config) => { c with interpreter := i })
      interpreter,
    gather_cons Jit.read_part (fun j (c : Config) => { c with jit := j }) jit]
  rcases p with ⟨_ | _, _ | _, _ | _, _ | _, _ | _⟩ <;> rfl

/-! ## Written configurations -/

@[simp] theorem readBool_written (b : Bool) : Json.readBool (Json.Value.bool b).node = .ok b := rfl

@[simp] theorem MachineFiles.read_written (m : MachineFiles) :
    form.read (Json.Value.object
      [("wavm-binary-path", .string m.image), ("until-host-io-state-path", .string m.snapshot),
       ("build-timeout-ms", .number m.buildTimeoutMs)]).node = .ok m := by
  refine Json.Form.read_of_strictly rfl (Json.Form.read_written form_strictly_isPlain
    [.string m.image, .string m.snapshot, .number m.buildTimeoutMs] rfl ?_)
  simp [Json.Form.strictly, form, Json.Form.fill, bind, Except.bind, pure, Except.pure]

@[simp] theorem rootForm_read_written (rootPath : String) :
    rootForm.read (Json.Value.object [("root-path", .string rootPath)]).node = .ok rootPath := by
  refine Json.Form.read_of_strictly rfl (Json.Form.read_written rootForm_strictly_isPlain
    [.string rootPath] rfl ?_)
  simp [Json.Form.strictly, rootForm, Json.Form.fill, bind, Except.bind]

@[simp] theorem Interpreter.read_written (c : Interpreter) :
    form.read (Json.Value.object
      [("workers", .number c.workers), ("step-chunk", .number c.stepChunk),
       ("run-timeout-ms", .number c.runTimeoutMs)]).node = .ok c := by
  refine Json.Form.read_of_strictly rfl (Json.Form.read_written form_strictly_isPlain
    [.number c.workers, .number c.stepChunk, .number c.runTimeoutMs] rfl ?_)
  simp [Json.Form.strictly, form, Json.Form.fill, bind, Except.bind, pure, Except.pure]

@[simp] theorem Jit.read_written (c : Jit) :
    form.read (Json.Value.object
      [("workers", .number c.workers), ("run-timeout-ms", .number c.runTimeoutMs)]).node =
        .ok c := by
  refine Json.Form.read_of_strictly rfl (Json.Form.read_written form_strictly_isPlain
    [.number c.workers, .number c.runTimeoutMs] rfl ?_)
  simp [Json.Form.strictly, form, Json.Form.fill, bind, Except.bind, pure, Except.pure]

/-- A configuration is read as it was written. -/
theorem read_written (c : Config) : form.read c.toJson.node = .ok c := by
  refine Json.Form.read_of_strictly rfl (Json.Form.read_written form_strictly_isPlain
    [.bool c.useJit, .object [("root-path", .string c.rootPath)],
     .object
       [("wavm-binary-path", .string c.machine.image),
        ("until-host-io-state-path", .string c.machine.snapshot),
        ("build-timeout-ms", .number c.machine.buildTimeoutMs)],
     .object
       [("workers", .number c.interpreter.workers), ("step-chunk", .number c.interpreter.stepChunk),
        ("run-timeout-ms", .number c.interpreter.runTimeoutMs)],
     .object [("workers", .number c.jit.workers), ("run-timeout-ms", .number c.jit.runTimeoutMs)]]
    rfl ?_)
  simp [Json.Form.strictly, form, Json.Form.fill, bind, Except.bind, pure, Except.pure]

/-! ## Loading -/

variable {fs : Files} {path text : String} {n : Json.Node} {c : Config}

/-- A document that is read as a configuration is loaded if the configuration is valid. -/
theorem load_of_read (htext : fs.readText path = .ok text) (hn : n.IsText (Bytes.ofText text))
    (hread : form.read n = .ok c) : load fs path = c.validate.map fun _ => c := by
  have hparse : parse text = .ok c := by
    unfold parse Json.decode
    rw [Json.read_of_isText hn]
    unfold Json.Document.decode
    dsimp only
    rw [hread]
    rfl
  unfold load
  rw [htext]
  dsimp only
  rw [hparse]
  dsimp only
  cases c.validate <;> rfl

/-- A written configuration is loaded if it is valid. -/
theorem load_of_write {gs : Files} {bs : Bytes} (hwrite : fs.write path bs = .ok gs)
    (htext : bs.IsText) (hn : c.toJson.node.IsText bs) :
    load gs path = c.validate.map fun _ => c := by
  obtain ⟨text, rfl⟩ := htext
  exact load_of_read (Files.readText_of_read (Files.read_write hwrite)) hn c.read_written

/-- What is loaded from a document with some fields is the default configuration with exactly these
fields in place of its own; it is refused with the error of its check if it is not valid. The fields
may stand in any order and with any others among them. And a valid configuration that is written, in
either form, is loaded as it was. -/
theorem load_exact :
    (∀ (fs : Files) (path text : String) (n : Json.Node) (p : Patch),
      fs.readText path = .ok text → n.IsText (Bytes.ofText text) → p.Names n →
        ((p.on {}).validate = .ok () → load fs path = .ok (p.on {})) ∧
          ∀ e, (p.on {}).validate = .error e → load fs path = .error e) ∧
      ∀ (fs gs : Files) (path : String) (c : Config), c.validate = .ok () →
        (fs.write path c.toJson.compact = .ok gs ∨ fs.write path c.toJson.pretty = .ok gs) →
          load gs path = .ok c := by
  refine ⟨fun fs path text n p htext hn hp => ?_, fun fs gs path c hvalid hwrite => ?_⟩
  · rw [load_of_read htext hn (read_part p n hp)]
    exact ⟨fun hvalid => by rw [hvalid]; rfl, fun e hinvalid => by rw [hinvalid]; rfl⟩
  · have hload : load gs path = c.validate.map fun _ => c := by
      obtain hwrite | hwrite := hwrite
      · exact load_of_write hwrite c.toJson.compact_isText (Json.isText_compact _)
      · exact load_of_write hwrite c.toJson.pretty_isText
          ⟨c.toJson.isWhole_node, Json.scan_pretty _⟩
    rw [hload, hvalid]
    rfl

/-! ## A partial document -/

/-- A document that names a field of a section, one outside of all sections, and others that are
not known. -/
def partialDocument : Json.Value :=
  .object
    [("interpreter", .object [("color", .array [.number 1]), ("step-chunk", .number 7)]),
     ("extra", .null), ("use-jit", .bool false)]

/-- The fields that it names. -/
def partialPatch : Patch :=
  { useJit := some false, interpreter := some { stepChunk := some 7 } }

/-- The configuration that is loaded from it. -/
def partialConfig : Config := { useJit := false, interpreter := { stepChunk := 7 } }

theorem partialPatch_names : partialPatch.Names partialDocument.node := by
  have hinterpreter : Interpreter.Patch.Names { stepChunk := some 7 }
      (Json.Value.object [("color", .array [.number 1]), ("step-chunk", .number 7)]).node := by
    refine .object ?_ (.nothing ?_) (.once (x := (Json.Value.number 7).node) ?_ rfl) (.nothing ?_)
    · simp [Known, Json.Value.memberNodes, Json.Value.isWhole_node]
    all_goals simp [Json.valuesAt, Json.Value.memberNodes]
  refine .object ?_ (.once (x := .bool false) ?_ rfl) (.nothing ?_) (.nothing ?_)
    (.once ?_ hinterpreter) (.nothing ?_)
  · simp [Known, Json.Value.memberNodes, Json.Value.isWhole_node]
  all_goals simp [Json.valuesAt, Json.Value.memberNodes, Json.Value.node]

/-- A file with the document, and a place to write to. -/
def partialFiles : Files := ⟨[], [(["partial"], .file partialDocument.compact)]⟩

/-- The document is loaded with the defaults of all other fields, and what was loaded is written and
loaded again. -/
theorem load_exact_of_partial :
    load partialFiles "/partial" = .ok partialConfig ∧
      ∃ gs, partialFiles.write "/whole" partialConfig.toJson.pretty = .ok gs ∧
        load gs "/whole" = .ok partialConfig := by
  obtain ⟨text, hbytes⟩ := partialDocument.compact_isText
  have hread : partialFiles.read "/partial" = .ok (Bytes.ofText text) := by
    rw [hbytes]
    rfl
  have hn : partialDocument.node.IsText (Bytes.ofText text) := by
    rw [hbytes]
    exact Json.isText_compact _
  have hvalid : partialConfig.validate = .ok () := rfl
  have hwrite : partialFiles.write "/whole" partialConfig.toJson.pretty =
      .ok (partialFiles.put ["whole"] (.file partialConfig.toJson.pretty)) := rfl
  obtain ⟨hloads, hwritten⟩ := load_exact
  obtain ⟨hload, -⟩ := hloads partialFiles "/partial" text _ partialPatch
    (Files.readText_of_read hread) hn partialPatch_names
  exact ⟨hload hvalid, _, hwrite, hwritten partialFiles _ "/whole" _ hvalid (.inr hwrite)⟩

end Rerun.Config
