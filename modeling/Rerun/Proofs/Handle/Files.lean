import Rerun.Proofs.Handle.Operation

/-!
# Who touches the files

Nothing that is done with copies of a handle changes the files: not a run (`runCopy_files`), and not
a session from its opening to its end. An operation on a handle changes at most the one file that it
is told to write (`perform_files`).
-/

namespace Rerun

namespace Handle

theorem Spared.files {h : Handle} {host : Host} {r : Ran Handle × Host} (hs : h.Spared host r) :
    r.2.files = host.files := by
  obtain ⟨slot, hslot⟩ := hs.host
  rw [hslot]

theorem copy_files {h h' : Handle} {host host' : Host} (hc : h.copy host = .ok (h', host')) :
    host'.files = host.files := by
  obtain ⟨i, -, ⟨-, -, rfl⟩ | ⟨t, -, -, rfl⟩⟩ := copy_eq_ok hc
  · rfl
  · rfl

theorem supply_files {host host' : Host} {x : Input} {h h' : Handle}
    (hs : h.supply host x = .ok (h', host')) : host'.files = host.files := by
  obtain ⟨h₁, -, hs⟩ := Result.of_bind hs
  obtain ⟨h₂, -, hs⟩ := Result.of_bind hs
  obtain ⟨h₃, -, hs⟩ := Result.of_bind hs
  obtain ⟨⟨token, h₄, host₄⟩, hr, hs⟩ := Result.of_bind hs
  cases hs
  obtain ⟨i, -, -, -, rfl⟩ := setResolver_eq_ok (Instance.lift_eq_ok hr)
  rfl

/-- A run on a copy leaves the files. -/
theorem runCopy_files {advance : Advance} (ha : ∀ host d h, Spared h host (advance host d h))
    (host : Host) (x : Input) (d : Deadline) (source : Handle) :
    (source.runCopy host x d advance).host.files = host.files := by
  unfold runCopy
  cases hc : source.copy host with
  | error f => rfl
  | ok r =>
    obtain ⟨h, host₁⟩ := r
    have hcopied := copy_files hc
    dsimp only
    cases hs : h.supply host₁ x with
    | error f => exact hcopied
    | ok r =>
      obtain ⟨h', host₂⟩ := r
      exact (ha host₂ d h').files.trans ((supply_files hs).trans hcopied)

/-! ## Operations -/

/-- The paths that an operation names. -/
def Op.paths : Op → List String
  | .save path => [path]
  | .restore path => [path]
  | _ => []

theorem save_files {h : Handle} {host host' : Host} {path : String}
    (hs : h.save host path = .ok host') :
    host'.files = host.files ∨ ∃ content, host.files.write path content = .ok host'.files := by
  obtain ⟨⟨machine, faults⟩, -, hs⟩ := Result.of_bind hs
  obtain ⟨-, -, hs⟩ := Result.of_bind hs
  cases machine with
  | builtin m =>
    obtain ⟨files, hm, hs⟩ := Result.of_bind hs
    cases hs
    have hsaved := Instance.lift_eq_ok hm
    unfold Machine.save at hsaved
    cases hw : host.files.write path m.snapshot.write with
    | ok fs =>
      rw [hw] at hsaved
      cases hsaved
      exact .inr ⟨_, hw⟩
    | error fault =>
      rw [hw] at hsaved
      cases hsaved
  | scripted m =>
    obtain ⟨text, -, hs⟩ := Result.of_bind hs
    split at hs
    · cases hs
      exact .inl rfl
    · cases hs

theorem changing_files (h : Handle) (host : Host) (result : Result Handle) :
    (h.changing host result).host.files = host.files := by
  cases result <;> rfl

/-- An operation writes at most the file that it is told to write. -/
theorem perform_files (horizon : Nat) (host : Host) (h : Handle) (op : Op) :
    (h.perform horizon host op).host.files = host.files ∨
      ∃ path content, op = .save path ∧
        host.files.write path content = .ok (h.perform horizon host op).host.files := by
  cases op with
  | save path =>
    unfold perform
    dsimp only
    cases hs : h.save host path with
    | error f => exact .inl rfl
    | ok host' =>
      obtain hsame | ⟨content, hw⟩ := save_files hs
      · exact .inl hsame
      · exact .inr ⟨path, content, rfl, hw⟩
  | step d count => exact .inl (h.step_spared host d count).files
  | stepInChunks d chunk => exact .inl (h.stepInChunks_spared host horizon d chunk).files
  | stepUntilHostIo d => exact .inl (h.stepUntilHostIo_spared host horizon d).files
  | setGlobal g => exact .inl (changing_files h host _)
  | addMessage inbox msg => exact .inl (changing_files h host _)
  | restore path => exact .inl (changing_files h host _)
  | freeze => exact .inl (changing_files h host _)
  | setResolver resolver =>
    unfold perform
    dsimp only
    cases hs : h.setResolver host resolver with
    | error e => exact .inl rfl
    | ok r =>
      obtain ⟨token, h', host'⟩ := r
      obtain ⟨i, -, -, -, rfl⟩ := setResolver_eq_ok hs
      exact .inl rfl
  | destroy =>
    unfold perform
    dsimp only
    cases hd : h.destroy host with
    | error e => exact .inl rfl
    | ok r =>
      obtain rfl := destroy_eq_ok hd
      exact .inl rfl
  | _ => exact .inl rfl

end Handle

namespace Session

open Handle

theorem prepare_files (host : Host) (source : Handle) (x : Input) :
    (prepare host source x).2.files = host.files := by
  unfold prepare
  cases hc : source.copy host with
  | error f => rfl
  | ok r =>
    obtain ⟨h, host₁⟩ := r
    have hcopied := copy_files hc
    dsimp only
    cases hs : h.supply host₁ x with
    | error f => exact hcopied
    | ok r => exact (supply_files hs).trans hcopied

theorem ofPrepared_files (host : Host) (root : Digest) (h : Handle) (stepChunk : UInt64) :
    (ofPrepared host root h stepChunk).2.files = host.files := by
  unfold ofPrepared
  cases hc : h.copy host with
  | error f => rfl
  | ok r =>
    have hcopied := copy_files hc
    dsimp only
    split <;> exact hcopied

theorem destroyed_files (h : Handle) (host : Host) : (destroyed h host).2.files = host.files := by
  unfold destroyed
  cases hd : h.destroy host with
  | error e => rfl
  | ok r =>
    obtain rfl := destroy_eq_ok hd
    rfl

theorem close_files (host : Host) (s : Session) : (s.close host).2.files = host.files :=
  (destroyed_files _ _).trans (destroyed_files _ _)

theorem rewind_files {host host' : Host} {s s' : Session} {position : UInt64}
    (hr : s.rewind host position = .ok (s', host')) : host'.files = host.files := by
  obtain ⟨i, -, hr⟩ := Result.of_bind hr
  split at hr
  · obtain ⟨⟨fresh, host₁⟩, hc, hr⟩ := Result.of_bind hr
    have hcopied := copy_files hc
    dsimp only at hr
    cases hd : s.cursor.destroy host₁ with
    | error e =>
      rw [hd] at hr
      cases hr
      exact hcopied
    | ok r =>
      obtain rfl := destroy_eq_ok hd
      rw [hd] at hr
      cases hr
      exact hcopied
  · cases hr
    rfl

theorem seek_files (host : Host) (d : Deadline) (position : UInt64) (s : Session) :
    (s.seek host d position).host.files = host.files := by
  unfold seek
  cases hr : s.rewind host position with
  | error f => rfl
  | ok r =>
    obtain ⟨s', host'⟩ := r
    have hrewound := rewind_files hr
    dsimp only
    split
    · exact hrewound
    · split
      · exact (step_spared host' d _ s'.cursor).files.trans hrewound
      · exact hrewound

theorem read_host (a : Asked Unit) (f : Instance → Reply) : (a.read f).host = a.host := by
  unfold Asked.read
  split <;> rfl

theorem answer_files (host : Host) (horizon : Nat) (d : Deadline) (s : Session) (ask : Ask) :
    (s.answer host horizon d ask).host.files = host.files := by
  cases ask with
  | stepAt position =>
    unfold answer
    rw [read_host]
    exact seek_files host d position s
  | proofAt position =>
    unfold answer
    rw [read_host]
    exact seek_files host d position s
  | last =>
    unfold answer
    rw [read_host]
    exact (stepInChunks_spared host horizon d _ s.cursor).files

/-- A question to a session leaves the files. -/
theorem job_files (host : Host) (horizon : Nat) (d : Deadline) (s : Session) (ask : Ask) :
    (s.job host horizon d ask).host.files = host.files := by
  have hasked : (s.asked host horizon d ask).host.files = host.files := by
    unfold asked
    split
    · rfl
    · exact answer_files host horizon d s ask
  rw [job_of_asked]
  split
  · exact (destroyed_files _ _).trans hasked
  · exact hasked

end Session

end Rerun
