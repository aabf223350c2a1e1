import Ocrypt.JsonObjects
import Ocrypt.Requests

/-! Values read from JSON into variables that already hold something, field by field: what a record
keeps where a member is null or absent, and that reading does not depend on the order of the members
of an unambiguous object. -/
namespace Ocrypt.JsonRecords
open JsonText JsonObjects List
open Requests (parseInt64)

variable {α σ : Type} {β γ : Type}

def storeString : String → Json → Option String
  | _, .str text => some text
  | old, .null => some old
  | _, _ => none

def storeInt : ℤ → Json → Option ℤ
  | _, .num literal => parseInt64 literal.text
  | old, .null => some old
  | _, _ => none

def storeTime (parse : String → Option ℤ) : ℤ → Json → Option ℤ
  | _, .str text => parse text
  | old, .null => some old
  | _, _ => none

def storeRaw (_ : Option Json) (j : Json) : Option (Option Json) := some (some j)

def storeItems (zero : α) (store : α → Json → Option α) : List α → List Json → Option (List α)
  | _, [] => some []
  | [], j::js => do
    let first ← store zero j
    let rest ← storeItems zero store [] js
    pure (first::rest)
  | old::olds, j::js => do
    let first ← store old j
    let rest ← storeItems zero store olds js
    pure (first::rest)

def storeList (zero : α) (store : α → Json → Option α) :
    Option (List α) → Json → Option (Option (List α))
  | _, .null => some none
  | old, .arr items => (storeItems zero store (old.getD []) items).map some
  | _, _ => none

def storePointer (zero : α) (store : α → Json → Option α) : Option α → Json → Option (Option α)
  | _, .null => some none
  | old, j => (store (old.getD zero) j).map some

def readField (names : List String) (store : α → Json → Option α) (name : String)
    (members : List (String × Json)) (start : α) : Option α :=
  (valuesOf names name members).foldlM store start

def record (names : List String) (read : List (String × Json) → σ → Option σ) : σ → Json → Option σ
  | old, .null => some old
  | old, .obj members => if known names members then read members old else none
  | _, _ => none

lemma bind_same {normal : γ → γ} {x : Option β} {f g : β → Option γ}
    (h : ∀ b, f b = (g b).map normal) : (x >>= f) = (x >>= g).map normal := by
  cases x with
  | none => rfl
  | some b => exact h b

lemma bind_normal {part : β → β} {normal : γ → γ} {x : Option β} {f g : β → Option γ}
    (h : ∀ b, f (part b) = (g b).map normal) : (x.map part >>= f) = (x >>= g).map normal := by
  cases x with
  | none => rfl
  | some b => exact h b

/-- Reading the sorted value over the normal form of a variable gives the normal form of what
reading the value gives. -/
def Respects (normal : α → α) (store : α → Json → Option α) (j : Json) : Prop :=
  ∀ old, store (normal old) (sorted j) = (store old j).map normal

def Plain (store : α → Json → Option α) (j : Json) : Prop :=
  ∀ old, store old (sorted j) = store old j

lemma respects_id {store : α → Json → Option α} {j : Json} :
    Respects id store j ↔ Plain store j := by
  simp [Respects,Plain]

lemma storeString_plain (j : Json) : Plain storeString j := by
  intro old
  cases j <;> rfl

lemma storeInt_plain (j : Json) : Plain storeInt j := by
  intro old
  cases j <;> rfl

lemma storeTime_plain (parse : String → Option ℤ) (j : Json) : Plain (storeTime parse) j := by
  intro old
  cases j <;> rfl

lemma storeRaw_respects (j : Json) : Respects (Option.map sorted) storeRaw j := fun _ => rfl

section
variable {normal : α → α} {store : α → Json → Option α} {zero : α}

lemma storeItems_respects (hz : normal zero = zero) (items : List Json)
    (h : ∀ j ∈ items, Respects normal store j) (olds : List α) :
    storeItems zero store (olds.map normal) (items.map sorted) =
      (storeItems zero store olds items).map (List.map normal) := by
  induction items generalizing olds with
  | nil => simp [storeItems]
  | cons j js ih =>
    have hr := ih fun k hk => h k (mem_cons_of_mem j hk)
    cases olds with
    | nil =>
      have hf := h j mem_cons_self zero
      have hn := hr []
      rw [hz] at hf
      rw [map_nil] at hn
      rw [map_nil,map_cons,storeItems,storeItems,hf,hn]
      cases store zero j <;> cases storeItems zero store [] js <;> rfl
    | cons old olds =>
      rw [map_cons,map_cons,storeItems,storeItems,h j mem_cons_self old,hr olds]
      cases store old j <;> cases storeItems zero store olds js <;> rfl

lemma storeList_respects (hz : normal zero = zero) (j : Json)
    (h : ∀ items, j = .arr items → ∀ item ∈ items, Respects normal store item) :
    Respects (Option.map (List.map normal)) (storeList zero store) j := by
  intro old
  cases j with
  | arr items =>
    have hi := storeItems_respects hz items (h items rfl) (old.getD [])
    have hold : (old.map (List.map normal)).getD [] = (old.getD []).map normal := by
      cases old <;> rfl
    rw [sorted,sortedItems_eq,storeList,storeList,hold,hi]
    cases storeItems zero store (old.getD []) items <;> rfl
  | _ => rfl

lemma storeList_plain (j : Json) (h : ∀ item, Plain store item) :
    Plain (storeList zero store) j := by
  have hr : Respects (Option.map (List.map id)) (storeList zero store) j :=
    storeList_respects rfl j fun _ _ item _ => respects_id.mpr (h item)
  rw [map_id_fun,Option.map_id_fun] at hr
  exact respects_id.mp hr

lemma storePointer_respects (hz : normal zero = zero) (j : Json) (h : Respects normal store j) :
    Respects (Option.map normal) (storePointer zero store) j := by
  intro old
  have hold : (old.map normal).getD zero = normal (old.getD zero) := by
    cases old with
    | none => exact hz.symm
    | some _ => rfl
  have hr := h (old.getD zero)
  cases j with
  | null => rfl
  | _ =>
    unfold storePointer
    simp only [sorted] at hr ⊢
    rw [hold,hr]
    simp only [Option.map_map]
    rfl

end

section
variable {normal : α → α} {store : α → Json → Option α} {names : List String} {name : String}
  {members : List (String × Json)} {closed : String → Bool}
  {read : List (String × Json) → σ → Option σ}

lemma readField_respects (h : (members.map fun m => fold m.1).Nodup)
    (hst : ∀ j ∈ valuesOf names name members, Respects normal store j) (old : α) :
    readField names store name (inOrder members) (normal old) =
      (readField names store name members old).map normal := by
  unfold readField
  rw [valuesOf_sorted h]
  generalize valuesOf names name members = values at hst
  induction values generalizing old with
  | nil => rfl
  | cons j js ih =>
    rw [map_cons,foldlM_cons,foldlM_cons,hst j mem_cons_self old]
    cases store old j with
    | none => rfl
    | some next => exact ih next fun k hk => hst k (mem_cons_of_mem j hk)

lemma readField_plain (h : (members.map fun m => fold m.1).Nodup)
    (hst : ∀ j ∈ valuesOf names name members, Plain store j) (old : α) :
    readField names store name (inOrder members) old = readField names store name members old := by
  have hr := readField_respects h (fun j hj => respects_id.mpr (hst j hj)) old
  rwa [Option.map_id] at hr

lemma unambiguous_of_mem_valuesOf (hf : ∀ key key', fold key = fold key' → closed key = closed key')
    (h : unambiguous closed (.obj members) = true) (ho : closed name = false) {j : Json}
    (hj : j ∈ valuesOf names name members) : unambiguous closed j = true := by
  obtain ⟨m,hm,rfl⟩ := mem_map.mp hj
  obtain ⟨hme,hr⟩ := mem_filter.mp hm
  have hk := hf _ _ (fold_of_resolve (of_decide_eq_true hr))
  rcases (unambiguous_obj_iff.mp h).2 m hme with hcl | hv
  · rw [hk,ho] at hcl
    cases hcl
  · exact hv

lemma record_respects {normal : σ → σ} (j : Json) (h : ∀ members, j = .obj members →
      ∀ old, read (inOrder members) (normal old) = (read members old).map normal) :
    Respects normal (record names read) j := by
  intro old
  cases j with
  | obj members =>
    rw [sorted_obj,record,record,known_sorted,h members rfl old]
    split_ifs <;> rfl
  | _ => rfl

lemma record_plain (j : Json)
    (h : ∀ members, j = .obj members → ∀ old, read (inOrder members) old = read members old) :
    Plain (record names read) j := by
  apply respects_id.mp
  apply record_respects
  intro members hj old
  rw [Option.map_id]
  exact h members hj old

end

end Ocrypt.JsonRecords
