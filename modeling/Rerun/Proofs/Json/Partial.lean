import Rerun.Proofs.Json.Lenient

/-!
# Records of which a part is given

A record that may lack fields is read from an object in which each of its fields stands once or not
at all. The order of the members does not matter, nor what else stands among them; a field that does
not stand there keeps what the blank record has (`Form.read_part`).
-/

namespace Rerun.Json

/-! ## What members say -/

/-- A tree is a text. -/
def Node.IsString (s : String) (n : Node) : Prop := n.text? = some s

/-- A tree is a boolean. -/
def Node.IsBool (b : Bool) (n : Node) : Prop := n = .bool b

/-- What members say under a name: nothing, or a value of the right kind, once. -/
inductive Says {β : Type} (is : β → Node → Prop) (name : String)
    (members : List (List Piece × Node)) : Option β → Prop where
  | nothing (h : valuesAt name members = []) : Says is name members none
  | once {x : Node} {b : β} (h : valuesAt name members = [x]) (hx : is b x) :
      Says is name members (some b)

theorem valuesAt_ne_nil {m : List Piece × Node} {name : String}
    {members : List (List Piece × Node)} (hm : m ∈ members) (hname : pieceText? m.1 = some name) :
    valuesAt name members ≠ [] := by
  have hin : m.2 ∈ valuesAt name members :=
    List.mem_filterMap.2 ⟨m, hm, if_pos hname⟩
  exact List.ne_nil_of_mem hin

namespace Form

variable {α : Type} {form : Form α} {members : List (List Piece × Node)}

/-! ## The fields that are given -/

/-- The form of the fields that stand among the members, which all have to be there. -/
def given (form : Form α) (members : List (List Piece × Node)) : Form α :=
  { form with
    lenient := false
    fields := form.fields.filter fun field => !(valuesAt field.name members).isEmpty }

theorem given_isPlain (h : form.strictly.IsPlain) : (form.given members).IsPlain where
  strict := rfl
  distinct := h.distinct.sublist (List.filter_sublist.map _)
  independent := h.independent.sublist List.filter_sublist

/-- Members are read alike by all fields and by those that stand among them. -/
theorem readMembers_given {seen : List String} {a : α} {rest : List (List Piece × Node)}
    (h : ∀ m ∈ rest, m ∈ members) :
    (form.given members).readMembers seen a rest = form.readMembers seen a rest := by
  induction rest generalizing seen a with
  | nil => rfl
  | cons m rest ih =>
    obtain ⟨key, x⟩ := m
    obtain ⟨hm, hrest⟩ := List.forall_mem_cons.1 h
    rw [readMembers, readMembers]
    cases hkey : pieceText? key with
    | none => rfl
    | some name =>
      have hfind : (form.given members).fields.find? (·.name == name) =
          form.fields.find? (·.name == name) := by
        unfold given
        dsimp only
        rw [List.find?_filter]
        refine congrArg (form.fields.find? ·) (funext fun field => ?_)
        cases hname : field.name == name with
        | false => exact decide_eq_false fun h => Bool.false_ne_true h.2
        | true =>
          obtain rfl : field.name = name := eq_of_beq hname
          simpa using valuesAt_ne_nil hm hkey
      simp only [hfind, ih hrest]

/-! ## Gathering -/

/-- Reads each of some fields that stands among the members; it has to stand there once. -/
def gather (members : List (List Piece × Node)) : List (Field α) → α → Read α
  | [], a => .ok a
  | field :: fields, a =>
    match valuesAt field.name members with
    | [] => gather members fields a
    | [x] => do gather members fields (← field.read x a)
    | _ :: _ :: _ => .error (.duplicateField field.name)

/-- Gathering is filling the fields that are given. -/
theorem fill_of_gather {fields : List (Field α)} {a b : α} (h : gather members fields a = .ok b) :
    let present := fields.filter fun field => !(valuesAt field.name members).isEmpty
    ∃ xs : List Node, (present.map fun field => valuesAt field.name members) =
      xs.map (fun x => [x]) ∧ fill present xs a = .ok b := by
  induction fields generalizing a with
  | nil => exact ⟨[], rfl, h⟩
  | cons field fields ih =>
    rw [gather] at h
    split at h
    · rename_i hvalues
      obtain ⟨xs, hxs, hfill⟩ := ih h
      rw [List.filter_cons_of_neg (by simp [hvalues])]
      exact ⟨xs, hxs, hfill⟩
    · rename_i x hvalues
      obtain ⟨c, hc, h⟩ := bind_eq_ok.1 h
      obtain ⟨xs, hxs, hfill⟩ := ih h
      rw [List.filter_cons_of_pos (by simp [hvalues])]
      refine ⟨x :: xs, ?_, bind_eq_ok.2 ⟨c, hc, hfill⟩⟩
      rw [List.map_cons, List.map_cons, hvalues, hxs]
    · cases h

/-- What members say under a name goes into its field, as the reader of the field gives it; without
a word the record stays as it is. -/
theorem gather_cons {β γ : Type} {is : β → Node → Prop} {read : Node → Read γ} {value : β → γ}
    (hread : ∀ b x, is b x → read x = .ok (value b)) (set : γ → α → α) {name : String}
    {fields : List (Field α)} {said : Option β} (h : Says is name members said) (a : α) :
    gather members (⟨name, fun x a => do return set (← read x) a⟩ :: fields) a =
      gather members fields (said.elim a fun b => set (value b) a) := by
  rw [gather]
  cases h with
  | nothing hnone => rw [hnone]; rfl
  | once hvalues hx => rw [hvalues]; dsimp only; rw [hread _ _ hx]; rfl

/-- A record that may lack fields takes over what members say, in whatever order they stand, and
leaves alone what it does not know. -/
theorem read_part (hl : form.lenient = true) (hf : form.strictly.IsPlain)
    (hk : Known (form.fields.map (·.name)) members) {a : α}
    (h : gather members form.fields form.blank = .ok a) :
    form.read (.object members .closed) = .ok a := by
  have hplain : (form.given members).IsPlain := given_isPlain hf
  obtain ⟨xs, hxs, hfill⟩ := fill_of_gather h
  have hrest : (form.given members).rest [] = (form.given members).fields :=
    List.filter_eq_self.2 fun _ _ => by simp
  -- a known name is that of a field that is given, since a member has it
  have hknown : Known ((form.given members).fields.map (·.name)) members := by
    intro m hm
    obtain ⟨name, hname, hin⟩ := hk m hm
    refine ⟨name, hname, hin.imp_left fun hin => ?_⟩
    obtain ⟨field, hfield, rfl⟩ := List.mem_map.1 hin
    exact List.mem_map_of_mem (List.mem_filter.2 ⟨hfield, by simpa using valuesAt_ne_nil hm hname⟩)
  have hbrings : (form.given members).Brings [] members form.blank a := by
    refine ⟨hknown, List.forall_mem_nil _, xs, ?_, ?_⟩
    · rwa [hrest]
    · rwa [hrest]
  obtain ⟨met, hmembers, -⟩ := (readMembers_eq_ok hplain (List.forall_mem_nil _)).2 hbrings
  rw [readMembers_given fun _ hm => hm] at hmembers
  refine bind_eq_ok.2 ⟨(met, a), hmembers, bind_eq_ok.2 ⟨(), rfl, ?_⟩⟩
  have hnone : form.missing? met = none := by
    unfold missing?
    rw [if_pos hl]
  rw [hnone]
  rfl

end Form

end Rerun.Json
