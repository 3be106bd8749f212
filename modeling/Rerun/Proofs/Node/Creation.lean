import Rerun.Proofs.Node.Isolation

/-!
# What becomes of a valid configuration

A node is made of whatever configuration is valid, if its machines are found and its workers can be
counted. That they can be counted is not checked: where they cannot, making the node ends in a panic
(`create_ends`).
-/

namespace Rerun

/-- The workers of every pool that the configuration asks for can be counted. -/
def Config.IsStaffable (c : Config) (cores : Nat) : Prop :=
  Config.workerCount c.interpreter.workers cores ≤ Pool.maxSize ∧
    (c.useJit = true → Config.workerCount c.jit.workers cores ≤ Pool.maxSize)

/-! ## Pools -/

namespace Pool

/-- What is said where the workers cannot be counted. -/
def overcrowded : Payload :=
  .text s!"a semaphore may not have more than MAX_PERMITS permits ({maxSize})"

variable {workers : Nat}

theorem create_of_le (name : String) (h : workers ≤ maxSize) :
    create name workers = .ok { name, size := max workers 1 } := if_neg (Nat.not_lt.2 h)

theorem create_of_lt (name : String) (h : maxSize < workers) :
    create name workers = .error (.panic overcrowded) := if_pos h

end Pool

/-! ## Nodes -/

namespace Node

variable {c : Config} {place : Place} {reports : Reports} {locator : Locator}

theorem create_of_valid (hvalid : c.validate = .ok ()) :
    create c place reports = assemble c place reports := by
  unfold create
  rw [hvalid]
  rfl

/-- Without machines there is no node. -/
theorem assemble_of_lost {e : Error}
    (h : Locator.search place.files c.rootPath place.surroundings.programDirectory = .error e) :
    assemble c place reports = fail e := by
  unfold assemble
  rw [h]
  rfl

/-- A node that can be staffed has its configuration, and pools of a size that can be counted. -/
theorem assemble_of_staffable
    (h : Locator.search place.files c.rootPath place.surroundings.programDirectory = .ok locator)
    (hs : c.IsStaffable place.cores) :
    ∃ n, assemble c place reports = .ok n ∧ n.config = c ∧
      ∀ kind, 1 ≤ n.room kind ∧ n.room kind ≤ Pool.maxSize := by
  obtain ⟨hi, hj⟩ := hs
  have hsize : ∀ {workers}, workers ≤ Pool.maxSize →
      1 ≤ max workers 1 ∧ max workers 1 ≤ Pool.maxSize :=
    fun hw => ⟨Nat.le_max_right _ _, Nat.max_le.2 ⟨hw, by decide⟩⟩
  unfold assemble Runner.interpreter Runner.native
  rw [h, Pool.create_of_le _ hi]
  cases hjit : c.useJit with
  | false =>
    refine ⟨_, rfl, rfl, ?_⟩
    rintro (_ | _) <;> exact hsize hi
  | true =>
    rw [Pool.create_of_le _ (hj hjit)]
    refine ⟨_, rfl, rfl, ?_⟩
    rintro (_ | _)
    · exact hsize hi
    · exact hsize (hj hjit)

/-- Workers that cannot be counted end in a panic. -/
theorem assemble_of_not_staffable
    (h : Locator.search place.files c.rootPath place.surroundings.programDirectory = .ok locator)
    (hs : ¬ c.IsStaffable place.cores) :
    assemble c place reports = .error (.panic Pool.overcrowded) := by
  unfold assemble Runner.interpreter Runner.native
  rw [h]
  by_cases hi : Config.workerCount c.interpreter.workers place.cores ≤ Pool.maxSize
  · obtain ⟨hjit, hj⟩ : c.useJit = true ∧
        Pool.maxSize < Config.workerCount c.jit.workers place.cores := by
      by_contra hno
      exact hs ⟨hi, fun hjit => Nat.not_lt.1 fun hj => hno ⟨hjit, hj⟩⟩
    rw [Pool.create_of_le _ hi, Pool.create_of_lt _ hj]
    exact if_pos hjit
  · rw [Pool.create_of_lt _ (Nat.not_le.1 hi)]
    rfl

/-- What becomes of a valid configuration, wherever the node is made. It ends in an error exactly if
its machines are not found, with the error of the search. It ends in a panic exactly if they are
found but the workers of some pool cannot be counted. It never goes on without end. Otherwise there
is a node, which has its configuration, and pools of a size that can be counted. -/
theorem create_ends (place : Place) (reports : Reports) (hvalid : c.validate = .ok ()) :
    let made := create c place reports
    let found := Locator.search place.files c.rootPath place.surroundings.programDirectory
    (∀ e, made = fail e ↔ found = .error e) ∧
      (∀ payload, made = .error (.panic payload) ↔
        (∃ locator, found = .ok locator) ∧ ¬ c.IsStaffable place.cores ∧
          payload = Pool.overcrowded) ∧
      made ≠ .error .endless ∧
      ((∃ locator, found = .ok locator) ∧ c.IsStaffable place.cores ↔ ∃ n, made = .ok n) ∧
      ∀ n, made = .ok n → n.config = c ∧
        ∀ kind, 1 ≤ n.room kind ∧ n.room kind ≤ Pool.maxSize := by
  intro made found
  have hmade : made = assemble c place reports := create_of_valid hvalid
  cases hfound : found with
  | error e =>
    rw [hmade, assemble_of_lost hfound]
    simp [fail, eq_comm]
  | ok locator =>
    by_cases hs : c.IsStaffable place.cores
    · obtain ⟨n, hn, hkept⟩ : ∃ n, assemble c place reports = .ok n ∧ n.config = c ∧
          ∀ kind, 1 ≤ n.room kind ∧ n.room kind ≤ Pool.maxSize := assemble_of_staffable hfound hs
      rw [hmade, hn]
      simp [fail, hs, hkept]
    · rw [hmade, assemble_of_not_staffable hfound hs]
      simp [fail, hs, eq_comm]

/-- A node of the reader is made, with a worker for each kind of run. -/
theorem create_ends_on_reader :
    readerConfig.validate = .ok () ∧
      ∃ n, create readerConfig readerPlace { capacity := 0 } = .ok n ∧ n.config = readerConfig ∧
        ∀ kind, 1 ≤ n.room kind ∧ n.room kind ≤ Pool.maxSize := by
  have hvalid : readerConfig.validate = .ok () := rfl
  obtain ⟨-, -, -, -, hnode⟩ := create_ends readerPlace { capacity := 0 } hvalid
  exact ⟨hvalid, readerNode, create_reader, hnode readerNode create_reader⟩

/-- One worker more than can be counted. -/
def crowdedConfig : Config :=
  { readerConfig with interpreter := { workers := 2305843009213693952 }, useJit := false }

/-- That many workers are valid, and end in a panic. -/
theorem create_panics_of_crowded :
    crowdedConfig.validate = .ok () ∧
      create crowdedConfig readerPlace { capacity := 0 } =
        .error (.panic (.text
          "a semaphore may not have more than MAX_PERMITS permits (2305843009213693951)")) := by
  have hvalid : crowdedConfig.validate = .ok () := rfl
  have hsearch : Locator.search readerPlace.files crowdedConfig.rootPath
      readerPlace.surroundings.programDirectory = .ok ⟨"/", none, []⟩ := by decide +kernel
  have hcrowded : ¬ crowdedConfig.IsStaffable readerPlace.cores := fun h => absurd h.1 (by decide)
  refine ⟨hvalid, ?_⟩
  have htext : Pool.overcrowded =
      .text "a semaphore may not have more than MAX_PERMITS permits (2305843009213693951)" := by
    decide +kernel
  rw [create_of_valid hvalid, assemble_of_not_staffable hsearch hcrowded, htext]

end Node

end Rerun
