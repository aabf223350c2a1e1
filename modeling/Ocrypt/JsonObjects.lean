import Ocrypt.JsonText
import Mathlib.Data.String.Basic

/-! JSON objects read into records. A document is written canonically with the keys of every object
in order; a record is read from the members in the order of the text, and a key names a field also
in other letters. -/
namespace Ocrypt.JsonObjects
open JsonText List

mutual

def sorted : Json → Json
  | .null => .null
  | .bool value => .bool value
  | .num literal => .num literal
  | .str text => .str text
  | .arr items => .arr (sortedItems items)
  | .obj members => .obj ((sortedMembers members).insertionSort fun a b => a.1 ≤ b.1)

def sortedItems : List Json → List Json
  | [] => []
  | item::rest => sorted item::sortedItems rest

def sortedMembers : List (String × Json) → List (String × Json)
  | [] => []
  | (key,value)::rest => (key,sorted value)::sortedMembers rest

end

lemma sortedItems_eq (items : List Json) : sortedItems items = items.map sorted := by
  induction items with
  | nil => rfl
  | cons item rest ih => rw [sortedItems,ih,map_cons]

variable (members : List (String × Json))

lemma sortedMembers_eq : sortedMembers members = members.map fun m => (m.1,sorted m.2) := by
  induction members with
  | nil => rfl
  | cons member rest ih =>
    obtain ⟨key,value⟩ := member
    rw [sortedMembers,ih,map_cons]

def inOrder : List (String × Json) :=
  (sortedMembers members).insertionSort fun a b => a.1 ≤ b.1

lemma sorted_obj : sorted (.obj members) = .obj (inOrder members) :=
  rfl

lemma inOrder_perm : (inOrder members).Perm (members.map fun m => (m.1,sorted m.2)) := by
  rw [← sortedMembers_eq]
  exact perm_insertionSort _ _

lemma inOrder_sorted : (inOrder members).Pairwise fun a b => a.1 ≤ b.1 := by
  exact pairwise_insertionSort _ _

variable {members members' : List (String × Json)}

lemma sorted_obj_perm (h : members.Perm members')
    (hn : (members.map Prod.fst).Nodup) : sorted (.obj members) = sorted (.obj members') := by
  have hp := (inOrder_perm members).trans ((h.map _).trans (inOrder_perm members').symm)
  have hk : ((inOrder members).map Prod.fst).Nodup := by
    rw [((inOrder_perm members).map Prod.fst).nodup_iff,map_map]
    exact hn
  have han : ∀ a b, a ∈ inOrder members → b ∈ inOrder members' →
      a.1 ≤ b.1 → b.1 ≤ a.1 → a = b := by
    intro a b ha hb hab hba
    exact inj_on_of_nodup_map hk ha (hp.mem_iff.mpr hb) (le_antisymm hab hba)
  rw [sorted_obj,sorted_obj]
  exact congrArg Json.obj
    (hp.eq_of_pairwise han (inOrder_sorted members) (inOrder_sorted members'))

/-- Letters of either case; the long s and the Kelvin sign are such letters too. -/
def foldChar (c : Char) : Char :=
  if c.isLower then c.toUpper
  else if c = Char.ofNat 0x17f then 'S'
  else if c = Char.ofNat 0x212a then 'K'
  else c

def fold (key : String) : List Char := key.toList.map foldChar

variable (names : List String)

/-- The field that a key names: the one that is written so, or else one with the same letters. -/
def resolve (key : String) : Option String :=
  if key ∈ names then some key else names.find? fun name => fold name = fold key

def valuesOf (name : String) (members : List (String × Json)) : List Json :=
  (members.filter fun m => resolve names m.1 = some name).map Prod.snd

def known (members : List (String × Json)) : Bool :=
  members.all fun m => (resolve names m.1).isSome

mutual

/-- No two keys of an object have the same letters; what stands under a closed key does not
matter. -/
def unambiguous (closed : String → Bool) : Json → Bool
  | .arr items => unambiguousItems closed items
  | .obj members =>
    decide ((members.map fun m => fold m.1).Nodup) && unambiguousMembers closed members
  | _ => true

def unambiguousItems (closed : String → Bool) : List Json → Bool
  | [] => true
  | item::rest => unambiguous closed item && unambiguousItems closed rest

def unambiguousMembers (closed : String → Bool) : List (String × Json) → Bool
  | [] => true
  | (key,value)::rest =>
    (closed key || unambiguous closed value) && unambiguousMembers closed rest

end

section
variable {closed : String → Bool} {names : List String} {name key : String} {items : List Json}

lemma unambiguousItems_iff : unambiguousItems closed items = true ↔
    ∀ item ∈ items, unambiguous closed item = true := by
  induction items with
  | nil => simp [unambiguousItems]
  | cons item rest ih => simp [unambiguousItems,ih]

lemma unambiguousMembers_iff : unambiguousMembers closed members = true ↔
    ∀ m ∈ members, closed m.1 = true ∨ unambiguous closed m.2 = true := by
  induction members with
  | nil => simp [unambiguousMembers]
  | cons member rest ih =>
    obtain ⟨key,value⟩ := member
    simp [unambiguousMembers,ih]

lemma unambiguous_obj_iff : unambiguous closed (.obj members) = true ↔
    (members.map fun m => fold m.1).Nodup ∧
      ∀ m ∈ members, closed m.1 = true ∨ unambiguous closed m.2 = true := by
  rw [unambiguous,Bool.and_eq_true,decide_eq_true_eq,unambiguousMembers_iff]

lemma unambiguous_arr_iff : unambiguous closed (.arr items) = true ↔
    ∀ item ∈ items, unambiguous closed item = true := by
  rw [unambiguous,unambiguousItems_iff]

lemma fold_of_resolve (h : resolve names key = some name) : fold key = fold name := by
  unfold resolve at h
  split_ifs at h with hm
  · rw [Option.some.inj h]
  · have hf := find?_some h
    exact (of_decide_eq_true hf).symm

lemma valuesOf_perm (h : members.Perm members') :
    (valuesOf names name members).Perm (valuesOf names name members') :=
  (h.filter _).map _

lemma valuesOf_length (h : (members.map fun m => fold m.1).Nodup) :
    (valuesOf names name members).length ≤ 1 := by
  unfold valuesOf
  rw [length_map]
  by_contra hma
  have hsu : (members.filter fun m => resolve names m.1 = some name).Sublist members :=
    filter_sublist
  have hn := (hsu.map fun m => fold m.1).nodup h
  have hal : ∀ m ∈ members.filter fun m => resolve names m.1 = some name,
      fold m.1 = fold name := by
    intro m hm
    exact fold_of_resolve (of_decide_eq_true (mem_filter.mp hm).2)
  match hl : members.filter fun m => resolve names m.1 = some name with
  | [] => simp [hl] at hma
  | [_] => simp [hl] at hma
  | a::b::rest =>
    rw [hl] at hn hal
    rw [map_cons,nodup_cons,map_cons] at hn
    apply hn.1
    rw [hal a (by simp),hal b (by simp)]
    exact mem_cons_self

lemma valuesOf_map (f : Json → Json) : valuesOf names name (members.map fun m => (m.1,f m.2)) =
    (valuesOf names name members).map f := by
  unfold valuesOf
  rw [filter_map,map_map,map_map]
  rfl

lemma eq_of_perm_of_length {l l' : List Json} (h : l.Perm l') (hl : l.length ≤ 1) : l = l' := by
  match l with
  | [] => exact (nil_perm.mp h).symm
  | [a] => exact (singleton_perm.mp h)

/-- In an unambiguous object the order of the members does not matter for a field. -/
theorem valuesOf_sorted (h : (members.map fun m => fold m.1).Nodup) :
    valuesOf names name (inOrder members) = (valuesOf names name members).map sorted := by
  have hv : (valuesOf names name (inOrder members)).Perm
      ((valuesOf names name members).map sorted) := by
    rw [← valuesOf_map]
    exact valuesOf_perm (inOrder_perm members)
  apply (eq_of_perm_of_length hv.symm _).symm
  rw [length_map]
  exact valuesOf_length h

lemma known_sorted : known names (inOrder members) = known names members := by
  unfold known
  rw [(inOrder_perm members).all_eq,all_map]
  rfl

end

section
variable (closed : String → Bool)

lemma unambiguous_obj_sorted (members : List (String × Json))
    (h : unambiguousMembers closed (sortedMembers members) = unambiguousMembers closed members) :
    unambiguous closed (sorted (.obj members)) = unambiguous closed (.obj members) := by
  have hp := inOrder_perm members
  have hk : ((inOrder members).map fun m => fold m.1).Nodup ↔
      (members.map fun m => fold m.1).Nodup := by
    rw [(hp.map _).nodup_iff,map_map]
    rfl
  rw [← sortedMembers_eq] at hp
  have hme : (∀ m ∈ inOrder members, closed m.1 = true ∨ unambiguous closed m.2 = true) ↔
      ∀ m ∈ members, closed m.1 = true ∨ unambiguous closed m.2 = true := by
    constructor
    · intro hal
      rw [← unambiguousMembers_iff,← h,unambiguousMembers_iff]
      exact fun m hm => hal m (hp.mem_iff.mpr hm)
    · intro hal m hm
      rw [← unambiguousMembers_iff,← h,unambiguousMembers_iff] at hal
      exact hal m (hp.mem_iff.mp hm)
  rw [Bool.eq_iff_iff,sorted_obj,unambiguous_obj_iff,unambiguous_obj_iff,hk,hme]

mutual

lemma unambiguous_sorted : ∀ j, unambiguous closed (sorted j) = unambiguous closed j
  | .null => rfl
  | .bool _ => rfl
  | .num _ => rfl
  | .str _ => rfl
  | .arr items => by
    rw [sorted,unambiguous,unambiguous,unambiguousItems_sorted items]
  | .obj members => unambiguous_obj_sorted closed members (unambiguousMembers_sorted members)

lemma unambiguousItems_sorted :
    ∀ items, unambiguousItems closed (sortedItems items) = unambiguousItems closed items
  | [] => rfl
  | item::rest => by
    rw [sortedItems,unambiguousItems,unambiguousItems,unambiguous_sorted item,
      unambiguousItems_sorted rest]

lemma unambiguousMembers_sorted :
    ∀ members, unambiguousMembers closed (sortedMembers members) = unambiguousMembers closed members
  | [] => rfl
  | (key,value)::rest => by
    rw [sortedMembers,unambiguousMembers,unambiguousMembers,unambiguous_sorted value,
      unambiguousMembers_sorted rest]

end

end

end Ocrypt.JsonObjects
