import Rerun.Machine.Basic
import Rerun.Proofs.Digest.Order
import Rerun.Proofs.Image

/-!
# Commitments

Programs, global states and machines are compared by digests. What is hashed begins with a tag, no
tag is the beginning of another, and what stands behind the tag is either the written form of a
program or a row of fields that all have a fixed width. So the hashed bytes can be taken apart
again, and up to a collision of the hash the digest of a machine tells everything that two
validators have to agree on (`hashes_commit`).
-/

namespace Rerun

/-! ## Fields of fixed width -/

namespace Bytes

theorem toNat_be64 (n : UInt64) : (be64 n).map UInt8.toNat =
    [(n.toNat >>> 56) % 256, (n.toNat >>> 48) % 256, (n.toNat >>> 40) % 256,
      (n.toNat >>> 32) % 256, (n.toNat >>> 24) % 256, (n.toNat >>> 16) % 256,
      (n.toNat >>> 8) % 256, n.toNat % 256] := by
  simp [be64]

/-- A number can be told from its eight bytes. -/
theorem be64_injective {m n : UInt64} (h : be64 m = be64 n) : m = n := by
  have hdigits : (be64 m).map UInt8.toNat = (be64 n).map UInt8.toNat := by rw [h]
  rw [toNat_be64, toNat_be64] at hdigits
  simp only [List.cons.injEq, and_true, Nat.shiftRight_eq_div_pow] at hdigits
  have hm := m.toNat_lt
  have hn := n.toNat_lt
  apply UInt64.toNat_inj.1
  omega

theorem be64_append_inj {m n : UInt64} {s t : Bytes} (h : be64 m ++ s = be64 n ++ t) :
    m = n ∧ s = t := by
  obtain ⟨hnumber, hrest⟩ := List.append_inj h rfl
  exact ⟨be64_injective hnumber, hrest⟩

end Bytes

namespace Digest

theorem bytes_append_inj {a b : Digest} {s t : Bytes} (h : a.bytes ++ s = b.bytes ++ t) :
    a = b ∧ s = t := by
  obtain ⟨hbytes, hrest⟩ := List.append_inj h (a.length_eq.trans b.length_eq.symm)
  exact ⟨bytes_inj hbytes, hrest⟩

/-- The hash takes two contents for one. -/
def Collide (a b : Bytes) : Prop := a ≠ b ∧ ofContent a = ofContent b

theorem not_collide_self (a : Bytes) : ¬ Collide a a := fun h => h.1 rfl

/-- Apart from collisions a digest stands for its content. -/
theorem ofContent_eq_iff {a b : Bytes} (hab : ¬ Collide a b) :
    ofContent a = ofContent b ↔ a = b := by
  refine ⟨fun h => ?_, congrArg ofContent⟩
  by_contra hne
  exact hab ⟨hne, h⟩

end Digest

/-! ## Programs and global states -/

namespace Program

theorem commitment_eq_iff {p q : Program} :
    p.commitment = q.commitment ↔ p.instructions = q.instructions := by
  constructor
  · intro h
    rw [commitment_injective h]
  · intro h
    unfold commitment
    rw [h]

theorem head_commitment (p : Program) : p.commitment.head? = some 0x72 := rfl

end Program

namespace GlobalState

/-- Two states with the same block, the same sends and the same position. -/
structure SameFields (g h : GlobalState) : Prop where
  blockHash : g.blockHash = h.blockHash
  sendRoot : g.sendRoot = h.sendRoot
  batch : g.batch = h.batch
  posInBatch : g.posInBatch = h.posInBatch

variable {g h : GlobalState}

theorem SameFields.eq (hsame : g.SameFields h) : g = h := by
  cases g
  cases h
  obtain ⟨rfl, rfl, rfl, rfl⟩ := hsame
  rfl

/-- Both digests and both numbers can be read off what a state commits to. -/
theorem commitment_eq_iff : g.commitment = h.commitment ↔ g.SameFields h := by
  constructor
  · intro heq
    unfold commitment at heq
    simp only [List.append_assoc, List.append_cancel_left_eq] at heq
    obtain ⟨hblock, heq⟩ := Digest.bytes_append_inj heq
    obtain ⟨hsend, heq⟩ := Digest.bytes_append_inj heq
    obtain ⟨hbatch, hpos⟩ := Bytes.be64_append_inj heq
    exact ⟨hblock, hsend, hbatch, Bytes.be64_injective hpos⟩
  · intro hsame
    rw [hsame.eq]

theorem hash_eq_iff (hapart : ¬ Digest.Collide g.commitment h.commitment) :
    g.hash = h.hash ↔ g = h := by
  refine (Digest.ofContent_eq_iff hapart).trans ⟨fun heq => ?_, congrArg commitment⟩
  exact (commitment_eq_iff.1 heq).eq

theorem head_commitment (g : GlobalState) : g.commitment.head? = some 0x47 := rfl

end GlobalState

/-! ## Machines -/

/-- The letter by which the tags of machines differ. -/
def Status.letter : Status → UInt8
  | .running => 0x72
  | .finished => 0x66
  | .errored => 0x65
  | .tooFar => 0x74

theorem Status.letter_injective {s t : Status} (h : s.letter = t.letter) : s = t := by
  revert h
  cases s <;> cases t <;> decide

namespace Machine

/-- Two machines that claim the same. Of a machine that failed or went too far nothing but its
status counts, and of one that finished only the global state, too. -/
structure SameClaim (m n : Machine) : Prop where
  status : m.progress.status = n.progress.status
  running : m.progress.status = .running →
    m.program.root = n.program.root ∧ m.progress.pc = n.progress.pc ∧
      m.progress.steps = n.progress.steps ∧ m.progress.acc = n.progress.acc ∧
        m.progress.global = n.progress.global
  finished : m.progress.status = .finished → m.progress.global = n.progress.global

variable {m n : Machine}

/-- The ninth byte tells the status. -/
theorem take_commitment (m : Machine) :
    m.commitment.take 9 = Bytes.ofText "Machine " ++ [m.progress.status.letter] := by
  obtain ⟨p, ⟨pc, steps, status, acc, g⟩, inbox, context⟩ := m
  cases status <;> rfl

theorem head_commitment (m : Machine) : m.commitment.head? = some 0x4D := by
  have htake : (m.commitment.take 9).head? = some 0x4D := by
    rw [take_commitment]
    rfl
  rwa [List.head?_take, if_neg (by decide)] at htake

theorem status_of_commitment_eq (h : m.commitment = n.commitment) :
    m.progress.status = n.progress.status := by
  have htake : m.commitment.take 9 = n.commitment.take 9 := by rw [h]
  rw [take_commitment, take_commitment, List.append_cancel_left_eq, List.cons.injEq] at htake
  exact Status.letter_injective htake.1

theorem commitment_running (h : m.progress.status = .running) :
    m.commitment = Bytes.ofText "Machine running:" ++ (m.program.root.bytes ++
      (Bytes.be64 m.progress.pc ++ (Bytes.be64 m.progress.steps ++
        (m.progress.acc.bytes ++ m.progress.global.hash.bytes)))) := by
  unfold commitment
  simp only [h, List.append_assoc]

theorem commitment_finished (h : m.progress.status = .finished) :
    m.commitment = Bytes.ofText "Machine finished:" ++ m.progress.global.hash.bytes := by
  unfold commitment
  simp only [h]

/-- What two machines commit to tells whether they claim the same, as long as the hash tells their
global states apart, which stand in it as digests. -/
theorem commitment_eq_iff (hglobal : ¬ Digest.Collide m.progress.global.commitment
    n.progress.global.commitment) : m.commitment = n.commitment ↔ m.SameClaim n := by
  constructor
  · intro h
    have hstatus := status_of_commitment_eq h
    refine ⟨hstatus, fun hm => ?_, fun hm => ?_⟩
    · have hn := hstatus ▸ hm
      rw [commitment_running hm, commitment_running hn, List.append_cancel_left_eq] at h
      obtain ⟨hroot, h⟩ := Digest.bytes_append_inj h
      obtain ⟨hpc, h⟩ := Bytes.be64_append_inj h
      obtain ⟨hsteps, h⟩ := Bytes.be64_append_inj h
      obtain ⟨hacc, h⟩ := Digest.bytes_append_inj h
      exact ⟨hroot, hpc, hsteps, hacc, (GlobalState.hash_eq_iff hglobal).1 (Digest.bytes_inj h)⟩
    · have hn := hstatus ▸ hm
      rw [commitment_finished hm, commitment_finished hn, List.append_cancel_left_eq] at h
      exact (GlobalState.hash_eq_iff hglobal).1 (Digest.bytes_inj h)
  · rintro ⟨hstatus, hrunning, hfinished⟩
    cases hm : m.progress.status with
    | running =>
      obtain ⟨hroot, hpc, hsteps, hacc, hstate⟩ := hrunning hm
      rw [commitment_running hm, commitment_running (hstatus ▸ hm), hroot, hpc, hsteps, hacc,
        hstate]
    | finished =>
      rw [commitment_finished hm, commitment_finished (hstatus ▸ hm), hfinished hm]
    | errored | tooFar =>
      unfold commitment
      simp only [← hstatus, hm]

end Machine

/-! ## What digests tell -/

/-- The first byte tells a program, a global state and a machine apart. -/
theorem layouts_apart (p : Program) (g : GlobalState) (m : Machine) :
    p.commitment ≠ g.commitment ∧ p.commitment ≠ m.commitment ∧ g.commitment ≠ m.commitment := by
  refine ⟨fun h => ?_, fun h => ?_, fun h => ?_⟩
  · have hhead := congrArg List.head? h
    rw [p.head_commitment, g.head_commitment] at hhead
    exact absurd hhead (by decide)
  · have hhead := congrArg List.head? h
    rw [p.head_commitment, m.head_commitment] at hhead
    exact absurd hhead (by decide)
  · have hhead := congrArg List.head? h
    rw [g.head_commitment, m.head_commitment] at hhead
    exact absurd hhead (by decide)

/-- Digests commit to what they are compared for. The bytes behind a module root give back the
program and those behind the digest of a global state its four fields; no bytes belong to two of the
layouts; and where the hash does not collide on them, machines with one digest claim the same. -/
theorem hashes_commit :
    (∀ p q : Program, (p.commitment = q.commitment ↔ p.instructions = q.instructions) ∧
      (¬ Digest.Collide p.commitment q.commitment →
        (p.root = q.root ↔ p.instructions = q.instructions))) ∧
    (∀ g h : GlobalState, (g.commitment = h.commitment ↔ g.SameFields h) ∧
      (¬ Digest.Collide g.commitment h.commitment → (g.hash = h.hash ↔ g.SameFields h))) ∧
    (∀ (p : Program) (g : GlobalState) (m : Machine), p.commitment ≠ g.commitment ∧
      p.commitment ≠ m.commitment ∧ g.commitment ≠ m.commitment) ∧
    ∀ m n : Machine, ¬ Digest.Collide m.commitment n.commitment →
      ¬ Digest.Collide m.progress.global.commitment n.progress.global.commitment →
        (m.hash = n.hash ↔ m.SameClaim n) := by
  refine ⟨fun p q => ⟨Program.commitment_eq_iff, fun hapart => ?_⟩,
    fun g h => ⟨GlobalState.commitment_eq_iff, fun hapart => ?_⟩, layouts_apart,
    fun m n hapart hglobal => ?_⟩
  · exact (Digest.ofContent_eq_iff hapart).trans Program.commitment_eq_iff
  · exact (Digest.ofContent_eq_iff hapart).trans GlobalState.commitment_eq_iff
  · exact (Digest.ofContent_eq_iff hapart).trans (Machine.commitment_eq_iff hglobal)

/-- The machine of the reader before its first step, with a global state. -/
def readerAt (g : GlobalState) : Machine := (Machine.ofProgram reader).setGlobal g

/-- A message does not show in the digest of a machine, its position does. -/
theorem hashes_commit_on_reader :
    ((readerAt default).hash = ((readerAt default).addMessage .sequencer ⟨0, [0x2A]⟩).hash ∧
      (readerAt default).SameClaim ((readerAt default).addMessage .sequencer ⟨0, [0x2A]⟩)) ∧
    (readerAt default).hash ≠ (readerAt { (default : GlobalState) with batch := 1 }).hash := by
  obtain ⟨-, -, -, hmachines⟩ := hashes_commit
  have hsame := hmachines (readerAt default)
    ((readerAt default).addMessage .sequencer ⟨0, [0x2A]⟩) (Digest.not_collide_self _)
    (Digest.not_collide_self _)
  refine ⟨⟨rfl, hsame.1 rfl⟩, fun h => ?_⟩
  have hmoved := hmachines (readerAt default) (readerAt { (default : GlobalState) with batch := 1 })
    (fun hcollide => ?_) (fun hcollide => ?_)
  · have hstate := ((hmoved.1 h).running rfl).2.2.2.2
    exact absurd hstate (by decide)
  · exact absurd hcollide.2 (by decide +kernel)
  · exact absurd hcollide.2 (by decide +kernel)

end Rerun
