import Rerun.Engine.Basic
import Rerun.Proofs.Json.Pretty
import Rerun.Proofs.Locator

/-!
# Installed images

What an installation leaves is found again whatever is installed after it, as long as the hash keeps
the programs apart (`installed_of_installAll`). So a search of the root finds the module roots of
all programs that were installed and no others, and under each of them the image gives its program
back (`Program.store_content_addressed`).
-/

namespace Rerun.Program

open Rerun.Path (IsPlain join)
open Locator (markerName markerPath isPlain_markerName)
open Files (Kept Found found_of_find found_of_isDirectory)

/-! ## Programs and their images -/

/-- A program is read from its image as it was installed. -/
theorem parse_pretty (p : Program) : Program.parse p.toJson.pretty = .ok p := by
  have hcompact := p.parse_compact
  unfold Program.parse at hcompact ⊢
  rw [Json.decode_compact] at hcompact
  rw [Json.decode_pretty]
  exact hcompact

theorem load_of_find {fs : Files} {path : String} {p : Program}
    (h : fs.find path = .ok (.file p.toJson.pretty)) :
    Program.load fs (Bytes.ofText path) = .ok p := by
  have hread : fs.read path = .ok p.toJson.pretty := by
    simp only [Files.read, bind, Except.bind, h, pure, Except.pure]
  unfold Program.load
  rw [Bytes.text?_ofText]
  dsimp only
  rw [hread]
  dsimp only
  rw [p.parse_pretty]
  rfl

/-- A program can be told from what its module root commits to. -/
theorem commitment_injective {p q : Program} (h : p.commitment = q.commitment) : p = q := by
  have harray := List.append_cancel_left h
  have hjson : p.toJson.compact = q.toJson.compact := by
    unfold toJson
    simp only [Json.Value.compact, Json.Value.compactMembers] at harray ⊢
    rw [harray]
  have hparse : Program.parse p.toJson.compact = Program.parse q.toJson.compact := by rw [hjson]
  rw [parse_compact, parse_compact] at hparse
  exact Except.ok.inj hparse

/-! ## One installation -/

variable {fs gs hs : Files} {root : String} {files : Config.MachineFiles} {p q : Program}

/-- What an installation leaves below a root: the marker and the image of a program. -/
structure Installed (p : Program) (fs : Files) (root image : String) : Prop where
  marker : fs.find (markerPath root p.root.text) =
    .ok (.file (Bytes.ofText (p.root.text ++ "\n")))
  image : fs.find (join (join root p.root.text) image) = .ok (.file p.toJson.pretty)

theorem Installed.kept (h : p.Installed fs root files.image) (hkept : Kept fs gs) :
    p.Installed gs root files.image :=
  ⟨hkept.find h.marker, hkept.find h.image⟩

/-- The three steps of an installation. -/
theorem install_eq_ok (h : p.install fs root files = .ok gs) :
    ∃ fs₁ fs₂, fs.makeDirectories (join root p.root.text) = .ok fs₁ ∧
      fs₁.write (markerPath root p.root.text) (Bytes.ofText (p.root.text ++ "\n")) = .ok fs₂ ∧
        fs₂.write (join (join root p.root.text) files.image) p.toJson.pretty = .ok gs := by
  unfold install at h
  simp only [bind, Except.bind] at h
  cases hmake : fs.makeDirectories (join root p.root.text) with
  | error fault => rw [hmake] at h; cases h
  | ok fs₁ =>
    rw [hmake] at h
    dsimp only at h
    cases hmarker : fs₁.write (join (join root p.root.text) markerName)
        (Bytes.ofText (p.root.text ++ "\n")) with
    | error fault => rw [hmarker] at h; cases h
    | ok fs₂ =>
      rw [hmarker] at h
      exact ⟨fs₁, fs₂, rfl, hmarker, h⟩

section

variable (himage : IsPlain files.image) (hother : files.image ≠ markerName)
include himage hother

/-- A program that was installed is there. -/
theorem installed_of_install (h : p.install fs root files = .ok gs) :
    p.Installed gs root files.image := by
  obtain ⟨fs₁, fs₂, -, hmarker, hwrite⟩ := install_eq_ok h
  obtain ⟨marker⟩ := Files.written_of_write hmarker
  obtain ⟨image⟩ := Files.written_of_write hwrite
  refine ⟨?_, image.find_eq⟩
  have hfind := image.find_other (Path.isPlain_text p.root) himage (Path.isPlain_text p.root)
    isPlain_markerName fun h => hother h.2.symm
  exact hfind.trans marker.find_eq

omit hother in
/-- Installing a program leaves those with other module roots. -/
theorem Installed.install (h : p.Installed fs root files.image) (hne : p.root ≠ q.root)
    (hq : q.install fs root files = .ok gs) : p.Installed gs root files.image := by
  obtain ⟨fs₁, fs₂, hmake, hmarker, hwrite⟩ := install_eq_ok hq
  obtain ⟨marker⟩ := Files.written_of_write hmarker
  obtain ⟨image⟩ := Files.written_of_write hwrite
  have hfs₁ := h.kept (Files.kept_makeDirectories hmake)
  have haside : ∀ name, IsPlain name → gs.find (join (join root p.root.text) name) =
      fs₁.find (join (join root p.root.text) name) := by
    intro name hname
    have htext : ∀ b, ¬ (p.root.text = q.root.text ∧ name = b) :=
      fun _ hb => hne (Digest.text_injective hb.1)
    rw [image.find_other (Path.isPlain_text _) himage (Path.isPlain_text _) hname (htext _),
      marker.find_other (Path.isPlain_text _) isPlain_markerName (Path.isPlain_text _) hname
        (htext _)]
  exact ⟨(haside _ isPlain_markerName).trans hfs₁.marker, (haside _ himage).trans hfs₁.image⟩

end

/-! ## All installations -/

/-- Installs programs one after the other. -/
def installAll (fs : Files) (root : String) (files : Config.MachineFiles) :
    List Program → Except FileFault Files
  | [] => .ok fs
  | p :: ps => do installAll (← p.install fs root files) root files ps

theorem installAll_cons {ps : List Program} (h : installAll fs root files (p :: ps) = .ok gs) :
    ∃ fs₁, p.install fs root files = .ok fs₁ ∧ installAll fs₁ root files ps = .ok gs := by
  unfold installAll at h
  simp only [bind, Except.bind] at h
  cases hp : p.install fs root files with
  | error fault => rw [hp] at h; cases h
  | ok fs₁ =>
    rw [hp] at h
    exact ⟨fs₁, rfl, h⟩

/-- The hash tells apart what the module roots of some programs commit to. -/
def KeptApart (ps : List Program) : Prop :=
  ∀ p ∈ ps, ∀ q ∈ ps, Digest.ofContent p.commitment = Digest.ofContent q.commitment →
    p.commitment = q.commitment

theorem KeptApart.eq {ps : List Program} (h : KeptApart ps) (hp : p ∈ ps) (hq : q ∈ ps)
    (hroot : p.root = q.root) : p = q := commitment_injective (h p hp q hq hroot)

theorem Installed.installAll {ps : List Program} (himage : IsPlain files.image)
    (hother : files.image ≠ markerName) (h : p.Installed fs root files.image)
    (hps : ∀ q ∈ ps, p.root = q.root → p = q)
    (hall : Program.installAll fs root files ps = .ok gs) : p.Installed gs root files.image := by
  induction ps generalizing fs with
  | nil =>
    cases hall
    exact h
  | cons q ps ih =>
    obtain ⟨hq, hps⟩ := List.forall_mem_cons.1 hps
    obtain ⟨fs₁, hinstall, hall⟩ := installAll_cons hall
    refine ih ?_ hps hall
    by_cases hroot : p.root = q.root
    · rw [hq hroot]
      exact installed_of_install himage hother hinstall
    · exact h.install himage hroot hinstall

/-- Every program that was installed is there in the end. -/
theorem installed_of_installAll {ps : List Program} (himage : IsPlain files.image)
    (hother : files.image ≠ markerName) (hapart : KeptApart ps)
    (hall : Program.installAll fs root files ps = .ok gs) :
    ∀ p ∈ ps, p.Installed gs root files.image := by
  induction ps generalizing fs with
  | nil => exact List.forall_mem_nil _
  | cons q ps ih =>
    obtain ⟨fs₁, hinstall, hall⟩ := installAll_cons hall
    refine List.forall_mem_cons.2 ⟨?_, ih (fun p hp r hr => ?_) hall⟩
    · exact (installed_of_install himage hother hinstall).installAll himage hother
        (fun r hr => hapart.eq List.mem_cons_self (List.mem_cons_of_mem q hr)) hall
    · exact hapart p (List.mem_cons_of_mem q hp) r (List.mem_cons_of_mem q hr)

/-! ## The store -/

/-- The path of the image that is found under a module root. -/
def imagePath (l : Locator) (image : String) (d : Digest) : Bytes :=
  Bytes.ofText (join (l.machinePath d) image)

/-- What searching a root with some programs gives: their module roots and no others, in ascending
order and each once, however the files are ordered; and under each of them the one program that has
it, as a program and as a machine of the engine. -/
structure StoreOf (ps : List Program) (fs : Files) (image : String) (l : Locator) : Prop where
  latest : l.latest = none
  ascending : l.roots.Pairwise Digest.Before
  roots : ∀ d, d ∈ l.roots ↔ ∃ p ∈ ps, p.root = d
  anyOrder : (fs.entries.map Prod.fst).Nodup → ∀ fs' : Files, fs'.current = fs.current →
    fs'.entries.Perm fs.entries → Locator.search fs' l.rootPath = .ok l
  loads : ∀ d ∈ l.roots, ∃ p ∈ ps, p.root = d ∧ (∀ q ∈ ps, q.root = d → q = p) ∧
    Program.load fs (imagePath l image d) = .ok p ∧
      ∀ b : Backend, b.IsReference →
        ∃ i, b.load fs (imagePath l image d) = .ok i ∧ i = .plain (.ofProgram p) ∧ i.root = d

/-- An entry of a directory that is neither the newest machine nor marked as one. -/
def IsStray (fs : Files) (root name : String) : Prop :=
  name ≠ Locator.latestName ∧ ∀ d, Locator.readMarker fs (markerPath root name) ≠ .ok d

/-- Besides the directories of some programs a root holds only strays. -/
def StraysBeside (ps : List Program) (fs : Files) (root : String) : Prop :=
  ∀ names, fs.names root = .ok names → ∀ name ∈ names, (∀ p ∈ ps, name ≠ p.root.text) →
    IsStray fs root name

/-- The roots that a search of a store finds. -/
theorem marks_iff {ps : List Program} (f : Found hs root .directory)
    (hinstalled : ∀ p ∈ ps, p.Installed hs root files.image)
    (hstray : StraysBeside ps hs root) (d : Digest) :
    (∃ name e, hs.entry? (f.place ++ [name]) = some e ∧ Locator.Marks hs root name d) ↔
      ∃ p ∈ ps, p.root = d := by
  obtain ⟨names, hnames, hmem⟩ := f.names_eq
  constructor
  · rintro ⟨name, e, he, hlatest, hread⟩
    by_cases hmine : ∃ p ∈ ps, name = p.root.text
    · obtain ⟨p, hp, rfl⟩ := hmine
      have hline := Locator.readMarker_of_line (hinstalled p hp).marker
      exact ⟨p, hp, Except.ok.inj (hline.symm.trans hread)⟩
    · have hnot : ∀ p ∈ ps, name ≠ p.root.text := fun p hp h => hmine ⟨p, hp, h⟩
      exact absurd hread ((hstray names hnames name ((hmem name).2 ⟨e, he⟩) hnot).2 d)
  · rintro ⟨p, hp, rfl⟩
    have hmarker := (hinstalled p hp).marker
    obtain ⟨g⟩ := found_of_find hmarker
    obtain ⟨hdirectory, -⟩ := f.below g (Path.isPlain_text p.root) isPlain_markerName
    exact ⟨p.root.text, .directory, hdirectory, Locator.text_ne_latestName p.root,
      Locator.readMarker_of_line hmarker⟩

/-- Where nothing goes by the name of the newest machine, no marker names one. -/
theorem StraysBeside.isFile_latest {ps : List Program} (hstray : StraysBeside ps hs root)
    (f : Found hs root .directory) :
    hs.isFile (markerPath root Locator.latestName) = false := by
  rw [Bool.eq_false_iff]
  intro hfile
  obtain ⟨content, hfind⟩ := Files.isFile_iff.1 hfile
  obtain ⟨g⟩ := found_of_find hfind
  obtain ⟨hdirectory, -⟩ := f.below g ⟨by decide, by decide, by decide, by decide⟩
    isPlain_markerName
  obtain ⟨names, hnames, hmem⟩ := f.names_eq
  have hlisted := (hmem Locator.latestName).2 ⟨_, hdirectory⟩
  exact (hstray names hnames _ hlisted fun p _ h =>
    Locator.text_ne_latestName p.root h.symm).1 rfl

/-- The images of a store are found under the module roots of their programs, whatever else there
is in its directory and in whatever order. -/
theorem store_content_addressed {ps : List Program} (himage : IsPlain files.image)
    (hother : files.image ≠ markerName) (hapart : KeptApart ps)
    (hall : installAll fs root files ps = .ok gs) (hkept : Kept gs hs)
    (hroot : hs.isDirectory root = true) (hstray : StraysBeside ps hs root) :
    ∃ l, Locator.search hs root = .ok l ∧ l.rootPath = root ∧ StoreOf ps hs files.image l := by
  have hinstalled : ∀ p ∈ ps, p.Installed hs root files.image := fun p hp =>
    (installed_of_installAll himage hother hapart hall p hp).kept hkept
  obtain ⟨f⟩ := found_of_isDirectory hroot
  have hlatest := hstray.isFile_latest f
  obtain ⟨l, hl, rfl, hnone, hascending, hmem⟩ := Locator.search_of_directory f hlatest
  have hroots : ∀ d, d ∈ l.roots ↔ ∃ p ∈ ps, p.root = d := fun d => by
    rw [hmem, marks_iff f hinstalled hstray]
  refine ⟨l, hl, rfl, hnone, hascending, hroots, fun hkeys fs' hcurrent hperm => ?_, fun d hd => ?_⟩
  · have hkeys' : (fs'.entries.map Prod.fst).Nodup := (hperm.map Prod.fst).nodup_iff.2 hkeys
    rw [Locator.search_congr (Files.kept_of_perm hkeys hperm hcurrent)
      (Files.kept_of_perm hkeys' hperm.symm hcurrent.symm) f hlatest, hl]
  · obtain ⟨p, hp, rfl⟩ := (hroots d).1 hd
    have hload := load_of_find (hinstalled p hp).image
    refine ⟨p, hp, rfl, fun q hq hroot => hapart.eq hq hp hroot, hload, fun b hb => ?_⟩
    refine ⟨_, ?_, rfl, rfl⟩
    rw [Backend.load_reference hb]
    unfold imagePath Locator.machinePath
    rw [hload]

/-! ### A store with the reader -/

/-- A program that does nothing. -/
def idle : Program := ⟨[.halt]⟩

theorem text_reader_root : reader.root.text =
    "0x0f1a4a6a4f83a6cf8f319bfe4349a9f7233e302709f262c5874f0220bb2fc04b" := by decide +kernel

theorem text_idle_root : idle.root.text =
    "0xc963f5903c85c6fc7b1b9efd8f16aabe0f81422fd025a253b073d85425bf6bfe" := by decide +kernel

/-- A directory with a note in it. -/
def notedFiles : Files := ⟨[], [(["m"], .directory), (["m", "notes"], .file [0x21])]⟩

/-- Whether an entry is one of some names, or neither the newest machine nor marked as one. -/
def isListedOrStray (fs : Files) (root : String) (known : List String) (name : String) : Bool :=
  known.contains name ||
    name ≠ Locator.latestName && (Locator.readMarker fs (markerPath root name)).toOption.isNone

theorem isStray_of_unlisted {fs : Files} {root name : String} {known : List String}
    (h : isListedOrStray fs root known name = true) (hname : name ∉ known) :
    IsStray fs root name := by
  rcases Bool.or_eq_true_iff.1 h with hknown | hstray
  · exact absurd (by simpa using hknown) hname
  · obtain ⟨hlatest, hnone⟩ := Bool.and_eq_true_iff.1 hstray
    refine ⟨of_decide_eq_true hlatest, fun d hd => ?_⟩
    rw [hd] at hnone
    cases hnone

/-- What has to be seen of a directory into which the two programs were installed. -/
def isReaderStore (fs : Files) : Bool :=
  fs.isDirectory "/m" &&
    match fs.names "/m" with
    | .error _ => false
    | .ok names => names.all (isListedOrStray fs "/m"
        ["0x0f1a4a6a4f83a6cf8f319bfe4349a9f7233e302709f262c5874f0220bb2fc04b",
          "0xc963f5903c85c6fc7b1b9efd8f16aabe0f81422fd025a253b073d85425bf6bfe"])

theorem installAll_reader :
    ∃ gs, installAll notedFiles "/m" ⟨"image", "snapshot", 0⟩ [reader, idle] = .ok gs ∧
      isReaderStore gs = true := by
  have h : (installAll notedFiles "/m" ⟨"image", "snapshot", 0⟩ [reader, idle]).toOption.any
      isReaderStore = true := by
    simp only [installAll, install, text_reader_root, text_idle_root]
    decide +kernel
  cases hall : installAll notedFiles "/m" ⟨"image", "snapshot", 0⟩ [reader, idle] with
  | error fault =>
    rw [hall] at h
    cases h
  | ok gs =>
    rw [hall] at h
    exact ⟨gs, rfl, h⟩

theorem keptApart_reader : KeptApart [reader, idle] := by
  have hroots : reader.root ≠ idle.root := by
    intro h
    have htexts := congrArg Digest.text h
    rw [text_reader_root, text_idle_root] at htexts
    exact absurd htexts (by decide)
  have hmem : ∀ p ∈ [reader, idle], p = reader ∨ p = idle := by
    intro p hp
    simpa using hp
  intro p hp q hq hroot
  rcases hmem p hp with rfl | rfl <;> rcases hmem q hq with rfl | rfl
  · rfl
  · exact absurd hroot hroots
  · exact absurd hroot.symm hroots
  · rfl

theorem store_content_addressed_on_reader :
    ∃ gs l, installAll notedFiles "/m" ⟨"image", "snapshot", 0⟩ [reader, idle] = .ok gs ∧
      Locator.search gs "/m" = .ok l ∧ StoreOf [reader, idle] gs "image" l := by
  obtain ⟨gs, hall, hstore⟩ := installAll_reader
  obtain ⟨hdirectory, hnames⟩ := Bool.and_eq_true_iff.1 hstore
  have himage : IsPlain "image" := ⟨by decide, by decide, by decide, by decide⟩
  have hother : "image" ≠ markerName := by decide
  have hstray : StraysBeside [reader, idle] gs "/m" := by
    intro names hok name hname hnot
    rw [hok] at hnames
    refine isStray_of_unlisted (List.all_eq_true.1 hnames name hname) ?_
    rw [← text_reader_root, ← text_idle_root]
    simpa using hnot
  obtain ⟨l, hl, -, hstored⟩ := store_content_addressed himage hother keptApart_reader hall
    (.refl gs) hdirectory hstray
  exact ⟨gs, l, hall, hl, hstored⟩

end Rerun.Program
