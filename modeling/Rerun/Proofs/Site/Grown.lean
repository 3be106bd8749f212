import Rerun.Proofs.MachinePair
import Rerun.Proofs.Way

/-!
# Files to which builds have added

Builds write nothing but snapshots, and only where no file was before. So whatever stood in the
files stays there, and what came in addition is no image (`Grown`). A build that has to walk would
have had to walk from the beginning (`beginning_walking_of_grown`).
-/

namespace Rerun

/-! ## Paths that lead to something -/

namespace Files

variable {fs gs : Files} {path : String} {e : Entry}

/-- What a path leads to, from its start to its end. -/
structure Found (fs : Files) (path : String) (e : Entry) where
  start : List String
  place : List String
  starts : fs.start path = .ok start
  leads : fs.follow start (Path.names path) = .ok place
  entry : fs.entry? place = some e
  isFilePath : e ≠ .directory → Path.needsDirectory path = false

theorem found_of_find (h : fs.find path = .ok e) : Nonempty (Found fs path e) := by
  unfold find locate at h
  simp only [bind, Except.bind] at h
  cases hs : fs.start path with
  | error f => rw [hs] at h; cases h
  | ok start =>
    rw [hs] at h
    dsimp only at h
    cases hf : fs.follow start (Path.names path) with
    | error f => rw [hf] at h; cases h
    | ok place =>
      rw [hf] at h
      dsimp only at h
      cases he : fs.entry? place with
      | none => simp [he, pure, Except.pure] at h
      | some e' =>
        cases e' with
        | directory =>
          simp only [he, pure, Except.pure, Except.ok.injEq] at h
          subst h
          exact ⟨⟨start, place, hs, hf, he, fun hne => absurd rfl hne⟩⟩
        | file content =>
          cases hd : Path.needsDirectory path with
          | true => simp [he, hd] at h
          | false =>
            simp only [he, hd, pure, Except.pure, Bool.false_eq_true, if_false,
              Except.ok.injEq] at h
            subst h
            exact ⟨⟨start, place, hs, hf, he, fun _ => hd⟩⟩

theorem Found.find (f : Found fs path e) : fs.find path = .ok e := by
  obtain ⟨start, place, hs, hf, he, hd⟩ := f
  unfold Files.find locate
  simp only [bind, Except.bind, hs, hf, he]
  cases e with
  | directory => simp [he, pure, Except.pure]
  | file content =>
    rw [hd nofun]
    simp [he, pure, Except.pure]

theorem isFile_iff : fs.isFile path = true ↔ ∃ content, fs.find path = .ok (.file content) := by
  unfold isFile
  split
  · rename_i content h
    exact ⟨fun _ => ⟨content, h⟩, fun _ => rfl⟩
  · rename_i hne
    exact ⟨nofun, fun ⟨content, h⟩ => absurd h (hne content)⟩

theorem find_of_read {content : Bytes} (h : fs.read path = .ok content) :
    fs.find path = .ok (.file content) := by
  unfold read at h
  cases hf : fs.find path with
  | error f => rw [hf] at h; cases h
  | ok e =>
    rw [hf] at h
    cases e with
    | directory => cases h
    | file content' =>
      cases h
      rfl

/-! ## What was added -/

/-- Nothing is missing or changed, and what came in addition are snapshots. -/
structure Grown (fs gs : Files) : Prop where
  current : gs.current = fs.current
  kept : ∀ ns e, fs.entry? ns = some e → gs.entry? ns = some e
  added : ∀ ns e, gs.entry? ns = some e → fs.entry? ns = some e ∨ ∃ s : Snapshot, e = .file s.write

theorem Grown.refl (fs : Files) : Grown fs fs := ⟨rfl, fun _ _ h => h, fun _ _ h => .inl h⟩

theorem Grown.start_eq (h : Grown fs gs) (path : String) : gs.start path = fs.start path := by
  unfold Files.start
  rw [h.current]

/-- The directories are the same. -/
theorem Grown.directory (h : Grown fs gs) {ns : List String}
    (hd : gs.entry? ns = some .directory) : fs.entry? ns = some .directory := by
  obtain hold | ⟨s, hs⟩ := h.added ns _ hd
  · exact hold
  · cases hs

/-- What a path led to it still leads to. -/
theorem Grown.find (h : Grown fs gs) (hf : fs.find path = .ok e) : gs.find path = .ok e := by
  obtain ⟨f⟩ := found_of_find hf
  have hgs : Found gs path e :=
    ⟨f.start, f.place, (h.start_eq path).trans f.starts,
      follow_mono (fun ns => h.kept ns _) f.leads, h.kept _ _ f.entry, f.isFilePath⟩
  exact hgs.find

/-- What a path leads to it led to before, or it is a snapshot. -/
theorem Grown.find_back (h : Grown fs gs) (hf : gs.find path = .ok e) :
    fs.find path = .ok e ∨ ∃ s : Snapshot, e = .file s.write := by
  obtain ⟨f⟩ := found_of_find hf
  refine (h.added _ _ f.entry).imp_left fun hold => ?_
  have hfs : Found fs path e :=
    ⟨f.start, f.place, (h.start_eq path).symm.trans f.starts,
      follow_mono (fun ns => h.directory) f.leads, hold, f.isFilePath⟩
  exact hfs.find

theorem Grown.isFile (h : Grown fs gs) (hf : fs.isFile path = true) : gs.isFile path = true := by
  obtain ⟨content, hfind⟩ := isFile_iff.1 hf
  exact isFile_iff.2 ⟨content, h.find hfind⟩

/-- A snapshot where no file was before is an addition. -/
theorem Grown.write {gs' : Files} (h : Grown fs gs) {s : Snapshot} (hn : fs.isFile path = false)
    (hw : gs.write path s.write = .ok gs') : Grown fs gs' := by
  obtain ⟨w⟩ := written_of_write hw
  have hentry := w.entry?_eq
  -- an entry of old would have been a file at the path, or a directory now
  have hfree : fs.entry? (w.directory ++ [w.name]) = none := by
    cases hold : fs.entry? (w.directory ++ [w.name]) with
    | none => rfl
    | some e =>
      cases e with
      | directory => exact absurd (h.kept _ _ hold) w.isFree
      | file content =>
        obtain ⟨hnames, hup⟩ := Path.names_of_last w.isFilePath w.last
        have hway : fs.follow w.start ((Path.parts path).dropLast.filter (· ≠ ".")) =
            .ok w.directory := follow_mono (fun ns => h.directory) w.leads
        have hlast : fs.follow w.directory [w.name] = .ok (w.directory ++ [w.name]) := by
          rw [follow_name fs _ hup, h.directory w.isDirectory]
          dsimp only
          rw [if_neg (Nat.not_lt.2 w.isShort)]
          rfl
        have hfound : Found fs path (.file content) :=
          ⟨w.start, w.directory ++ [w.name], (h.start_eq path).symm.trans w.starts,
            by rw [hnames, follow_append, hway]; exact hlast, hold, fun _ => w.isFilePath⟩
        rw [isFile_iff.2 ⟨content, hfound.find⟩] at hn
        cases hn
  refine ⟨w.current_eq.trans h.current, fun ns e he => ?_, fun ns e he => ?_⟩
  · rw [hentry, if_neg]
    · exact h.kept ns e he
    · rintro rfl
      rw [hfree] at he
      cases he
  · rw [hentry] at he
    split at he
    · cases he
      exact .inr ⟨s, rfl⟩
    · exact h.added ns e he

end Files

/-! ## Snapshots are no images -/

/-- Members that a form does not know are passed over, or the text ends within them. -/
theorem Json.Form.readMembers_strange {α : Type} {form : Form α}
    {members : List (String × Value)} (h : ∀ field ∈ form.fields, ∀ m ∈ members, field.name ≠ m.1)
    (seen : List String) (a : α) :
    form.readMembers seen a (Value.memberNodes members) = .ok (seen, a) ∨
      form.readMembers seen a (Value.memberNodes members) = .error .malformed := by
  induction members with
  | nil => exact .inl rfl
  | cons m members ih =>
    have hfind : form.fields.find? (·.name == m.1) = none := by
      rw [List.find?_eq_none]
      intro field hf
      simpa using h field hf m List.mem_cons_self
    rw [Value.memberNodes, readMembers, pieceText?_written]
    dsimp only
    rw [hfind]
    dsimp only
    split
    · exact ih fun field hf m hm => h field hf m (List.mem_cons_of_mem _ hm)
    · exact .inr rfl

/-- A snapshot has no program in it. -/
theorem Program.parse_snapshot (s : Snapshot) (p : Program) : Program.parse s.write ≠ .ok p := by
  have hstrange : ∀ field ∈ Program.form.fields,
      ∀ m ∈ [("module_root", s.root.toJson), ("state", s.progress.toJson)],
        field.name ≠ m.1 := by
    simp [Program.form]
  unfold Program.parse Snapshot.write
  rw [Json.decode_compact]
  show (Program.form.readMembers [] Program.form.blank (Json.Value.memberNodes
    [("module_root", s.root.toJson), ("state", s.progress.toJson)]) >>= _) ≠ _
  obtain hread | hread := Json.Form.readMembers_strange hstrange [] Program.form.blank
  · rw [hread]
    intro h
    cases h
  · rw [hread]
    intro h
    cases h

namespace Program

variable {fs : Files} {path : String} {p : Program}

/-- What is loaded from a path of text is in a file there. -/
theorem find_of_load (h : Program.load fs (Bytes.ofText path) = .ok p) :
    ∃ content, fs.find path = .ok (.file content) ∧ Program.parse content = .ok p := by
  unfold load at h
  rw [Bytes.text?_ofText] at h
  dsimp only at h
  cases hr : fs.read path with
  | error f => rw [hr] at h; cases h
  | ok content =>
    rw [hr] at h
    dsimp only at h
    cases hp : Program.parse content with
    | error c => rw [hp] at h; cases h
    | ok q =>
      rw [hp] at h
      cases h
      exact ⟨content, Files.find_of_read hr, hp⟩

end Program

/-! ## Builds that begin later -/

namespace Files.Grown

variable {fs gs : Files} {path : String} {p : Program}

/-- An image was there from the beginning. -/
theorem find_image (h : Grown fs gs) (hp : Program.load gs (Bytes.ofText path) = .ok p) :
    gs.find path = fs.find path := by
  obtain ⟨content, hfind, hparse⟩ := Program.find_of_load hp
  obtain hold | ⟨s, hs⟩ := h.find_back hfind
  · rw [hfind, hold]
  · cases hs
    exact absurd hparse (Program.parse_snapshot s p)

end Files.Grown

namespace MachinePair

variable {name : String} {files : Config.MachineFiles} {directory : String} {root : Digest}
  {d : Deadline} {fs gs : Files} {p : Program}

/-- When a build begins to walk. -/
theorem beginning_eq_walking_iff {w : Walk} :
    beginning name files directory root d fs = .walking w ↔
      d.isExpired = false ∧ fs.isFile (Path.join directory files.snapshot) = false ∧
        ∃ p, Program.load fs (Bytes.ofText (Path.join directory files.image)) = .ok p ∧
          p.root = root ∧ w = firstWalk p (Path.join directory files.snapshot) d := by
  constructor
  · intro h
    obtain ⟨p, hp, hroot, hw⟩ := beginning_walking h
    refine ⟨?_, ?_, p, hp, hroot, hw⟩
    · cases hd : d.isExpired with
      | false => rfl
      | true =>
        unfold beginning at h
        rw [hd] at h
        cases h
    · cases hs : fs.isFile (Path.join directory files.snapshot) with
      | false => rfl
      | true =>
        unfold beginning at h
        simp only [hp, hroot, hs] at h
        split at h
        · cases h
        · split at h
          · cases h
          · simp only [ne_eq, not_true_eq_false, if_false, if_true] at h
            split at h <;> cases h
  · rintro ⟨hd, hs, p, hp, hroot, rfl⟩
    obtain ⟨content, hfind, -⟩ := Program.find_of_load hp
    have hi : fs.isFile (Path.join directory files.image) = true :=
      Files.isFile_iff.2 ⟨content, hfind⟩
    unfold beginning
    simp [hd, hi, hp, hroot, hs]

/-- A build that has to walk would have had to walk from the beginning. -/
theorem beginning_walking_of_grown (h : Files.Grown fs gs) {w : Walk}
    (hb : beginning name files directory root d gs = .walking w) :
    beginning name files directory root d fs = .walking w := by
  obtain ⟨hd, hs, p, hp, hroot, hw⟩ := beginning_eq_walking_iff.1 hb
  refine beginning_eq_walking_iff.2 ⟨hd, ?_, p, ?_, hroot, hw⟩
  · by_contra hold
    rw [h.isFile (by simpa using hold)] at hs
    cases hs
  · rw [← load_congr (h.find_image hp)]
    exact hp

end MachinePair

end Rerun
