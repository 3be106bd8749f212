import Rerun.Proofs.Json.Record

/-!
# Records with fields that may be missing

A record that may lack fields is read from everything that one which has to have them is read from,
with the same result (`Form.read_of_strictly`). Whatever is missing, what the fields keep holds of
the record that is read (`Form.read_keeps`).
-/

namespace Rerun.Json.Form

variable {α : Type} {form : Form α}

/-! ## Records without a gap -/

/-- The form whose fields have to be there. -/
def strictly (form : Form α) : Form α := { form with lenient := false }

theorem readMembers_strictly (seen : List String) (a : α) (members : List (List Piece × Node)) :
    form.strictly.readMembers seen a members = form.readMembers seen a members := by
  induction members generalizing seen a with
  | nil => rfl
  | cons m members ih =>
    obtain ⟨key, x⟩ := m
    simp only [readMembers, ih]
    rfl

theorem readPositions_of_strictly {ending : Ending} {done : Nat} {a b : α}
    {fields : List (Field α)} {items : List Node}
    (h : form.strictly.readPositions ending done a fields items = .ok b) :
    form.readPositions ending done a fields items = .ok b := by
  induction fields generalizing items done a with
  | nil =>
    cases items with
    | nil => exact h
    | cons => exact h
  | cons field fields ih =>
    cases items with
    | nil =>
      obtain ⟨_, -, h⟩ := bind_eq_ok.1 h
      cases h
    | cons x xs =>
      obtain ⟨c, hc, h⟩ := bind_eq_ok.1 h
      exact bind_eq_ok.2 ⟨c, hc, ih h⟩

/-- What is read where no field may be missing is read where some may. -/
theorem read_of_strictly (hl : form.lenient = true) {n : Node} {a : α}
    (h : form.strictly.read n = .ok a) : form.read n = .ok a := by
  cases n with
  | object members ending =>
    obtain ⟨⟨seen, b⟩, hmembers, h⟩ := bind_eq_ok.1 h
    obtain ⟨_, hending, h⟩ := bind_eq_ok.1 h
    rw [readMembers_strictly] at hmembers
    refine bind_eq_ok.2 ⟨(seen, b), hmembers, bind_eq_ok.2 ⟨_, hending, ?_⟩⟩
    have hnone : form.missing? seen = none := by
      unfold missing?
      rw [if_pos hl]
    rw [hnone]
    split at h
    · cases h
    · exact h
  | array items ending => exact readPositions_of_strictly h
  | fault | null | bool | number | string => exact h

/-! ## What the fields keep -/

section

variable {P : α → Prop} (hfield : ∀ field ∈ form.fields, ∀ x a b, field.read x a = .ok b → P a → P b)
include hfield

theorem readMembers_keeps {seen met : List String} {a b : α} {members : List (List Piece × Node)}
    (h : form.readMembers seen a members = .ok (met, b)) (ha : P a) : P b := by
  induction members generalizing seen a with
  | nil =>
    cases h
    exact ha
  | cons m members ih =>
    obtain ⟨key, x⟩ := m
    rw [readMembers] at h
    split at h
    · split at h
      · rename_i field hfind
        split at h
        · cases h
        · obtain ⟨c, hc, h⟩ := bind_eq_ok.1 h
          exact ih h (hfield field (List.mem_of_find?_eq_some hfind) x a c hc ha)
      · split at h
        · exact ih h ha
        · cases h
    · cases h

theorem readPositions_keeps {ending : Ending} {done : Nat} {a b : α} {fields : List (Field α)}
    (hfields : ∀ field ∈ fields, field ∈ form.fields) {items : List Node}
    (h : form.readPositions ending done a fields items = .ok b) (ha : P a) : P b := by
  induction fields generalizing items done a with
  | nil =>
    cases items with
    | nil =>
      obtain ⟨_, -, h⟩ := bind_eq_ok.1 h
      cases h
      exact ha
    | cons => cases h
  | cons field fields ih =>
    obtain ⟨hhead, htail⟩ := List.forall_mem_cons.1 hfields
    cases items with
    | nil =>
      obtain ⟨_, -, h⟩ := bind_eq_ok.1 h
      split at h
      · cases h
        exact ha
      · cases h
    | cons x xs =>
      obtain ⟨c, hc, h⟩ := bind_eq_ok.1 h
      exact ih htail h (hfield field hhead x a c hc ha)

/-- What holds of the blank record and is kept by every field holds of what is read. -/
theorem read_keeps (hblank : P form.blank) {n : Node} {a : α} (h : form.read n = .ok a) : P a := by
  cases n with
  | object members ending =>
    obtain ⟨⟨seen, b⟩, hmembers, h⟩ := bind_eq_ok.1 h
    obtain ⟨_, -, h⟩ := bind_eq_ok.1 h
    split at h
    · cases h
    · cases h
      exact readMembers_keeps hfield hmembers hblank
  | array items ending =>
    exact readPositions_keeps hfield (fun _ hf => hf) h hblank
  | fault | null | bool | number | string => cases h

end

end Rerun.Json.Form
