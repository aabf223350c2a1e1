import Mathlib.Tactic

/-! JSON values, and the compact text that an HTML-safe encoder writes for them. The text of a
value is read back in one way only. -/
namespace Ocrypt.JsonText
open List

def numeralChar (c : Char) : Bool := c.isDigit || c ∈ ['-','+','.','e','E']

structure Numeral where
  text : String
  nonempty : text.toList ≠ []
  chars : ∀ c ∈ text.toList, numeralChar c = true
  deriving DecidableEq

/-- A value as it is written: the members of an object are in order, and a key may come twice. -/
inductive Json
  | null
  | bool (value : Bool)
  | num (literal : Numeral)
  | str (text : String)
  | arr (items : List Json)
  | obj (members : List (String × Json))

def quote : Char := Char.ofNat 0x22

def backslash : Char := Char.ofNat 0x5c

def shortEscape (c : Char) : Option Char :=
  if c = quote ∨ c = backslash then some c
  else if c = Char.ofNat 8 then some 'b'
  else if c = Char.ofNat 9 then some 't'
  else if c = Char.ofNat 10 then some 'n'
  else if c = Char.ofNat 12 then some 'f'
  else if c = Char.ofNat 13 then some 'r'
  else none

/-- Control characters, the characters that HTML reads, and the line separators. -/
def needsCode (c : Char) : Bool :=
  c.toNat < 0x20 || c ∈ ['<','>','&',Char.ofNat 0x2028,Char.ofNat 0x2029]

def escape (c : Char) : List Char :=
  match shortEscape c with
  | some letter => [backslash,letter]
  | none =>
    if needsCode c then
      [backslash,'u',Nat.digitChar (c.toNat / 4096),Nat.digitChar (c.toNat / 256 % 16),
        Nat.digitChar (c.toNat / 16 % 16),Nat.digitChar (c.toNat % 16)]
    else [c]

def writeString (text : String) : List Char :=
  quote::(text.toList.flatMap escape ++ [quote])

mutual

def write : Json → List Char
  | .null => "null".toList
  | .bool true => "true".toList
  | .bool false => "false".toList
  | .num literal => literal.text.toList
  | .str text => writeString text
  | .arr items => '['::writeItems items
  | .obj members => Char.ofNat 0x7b::writeMembers members

def writeItems : List Json → List Char
  | [] => [']']
  | item::rest => write item ++ writeMoreItems rest

def writeMoreItems : List Json → List Char
  | [] => [']']
  | item::rest => ','::(write item ++ writeMoreItems rest)

def writeMembers : List (String × Json) → List Char
  | [] => [Char.ofNat 0x7d]
  | (key,value)::rest => writeString key ++ ':'::(write value ++ writeMoreMembers rest)

def writeMoreMembers : List (String × Json) → List Char
  | [] => [Char.ofNat 0x7d]
  | (key,value)::rest =>
    ','::(writeString key ++ ':'::(write value ++ writeMoreMembers rest))

end

def compact (j : Json) : String := String.ofList (write j)

variable {c : Char} {rest rest' : List Char}

def unescape : List Char → Option (Char × List Char)
  | [] => none
  | c::rest =>
    if c ≠ backslash then some (c,rest)
    else match rest with
      | [] => none
      | letter::rest =>
        if letter = 'u' then
          match rest with
          | p::q::r::s::rest =>
            some (Char.ofNat (hexValue p*4096+hexValue q*256+hexValue r*16+hexValue s), rest)
          | _ => none
        else some (unshort letter,rest)
where
  hexValue (c : Char) : ℕ := if c.isDigit then c.toNat - 48 else c.toNat - 87
  unshort (letter : Char) : Char :=
    if letter = 'b' then Char.ofNat 8 else if letter = 't' then Char.ofNat 9
    else if letter = 'n' then Char.ofNat 10 else if letter = 'f' then Char.ofNat 12
    else if letter = 'r' then Char.ofNat 13 else letter

lemma hexValue_digitChar {n : ℕ} (h : n < 16) : unescape.hexValue (Nat.digitChar n) = n := by
  interval_cases n <;> decide

lemma shortEscape_letter {letter : Char} (h : shortEscape c = some letter) :
    letter ≠ 'u' ∧ unescape.unshort letter = c := by
  unfold shortEscape at h
  split_ifs at h with h1 h2 h3 h4 h5 h6
  · cases h
    rcases h1 with rfl | rfl <;> decide
  all_goals
    cases h
    subst_vars
    decide

lemma needsCode_lt (h : needsCode c = true) : c.toNat < 65536 := by
  simp only [needsCode,Bool.or_eq_true,decide_eq_true_eq,mem_cons,not_mem_nil, or_false] at h
  rcases h with h | rfl | rfl | rfl | rfl | rfl
  · omega
  all_goals decide

lemma unescape_escape (c : Char) (rest : List Char) :
    unescape (escape c ++ rest) = some (c,rest) := by
  unfold escape
  cases hsh : shortEscape c with
  | some letter =>
    obtain ⟨hl,hba⟩ := shortEscape_letter hsh
    simp [unescape,hl,hba]
  | none =>
    have hp : c ≠ backslash := by
      rintro rfl
      revert hsh
      decide
    by_cases hco : needsCode c = true
    · have hlt := needsCode_lt hco
      have hv : c.toNat / 4096*4096+c.toNat / 256 % 16*256+c.toNat / 16 % 16*16 +
          c.toNat % 16 = c.toNat := by omega
      rw [if_pos hco]
      simp only [cons_append,nil_append,unescape,ne_eq,not_true_eq_false,if_false, if_true]
      rw [hexValue_digitChar (by omega),hexValue_digitChar (by omega),
        hexValue_digitChar (by omega),hexValue_digitChar (by omega),hv,Char.ofNat_toNat]
    · rw [if_neg hco]
      simp [unescape,hp]

lemma escape_inj {d : Char} (h : escape c ++ rest = escape d ++ rest') : c = d ∧ rest = rest' := by
  have hr := congrArg unescape h
  rw [unescape_escape,unescape_escape] at hr
  simpa using hr

lemma escape_ne_quote (c : Char) (rest rest' : List Char) : escape c ++ rest ≠ quote::rest' := by
  intro h
  have hr := congrArg unescape h
  rw [unescape_escape] at hr
  obtain ⟨rfl,rfl⟩ := hr
  revert h
  simp [escape,show shortEscape quote = some quote by decide]

lemma escaped_inj : ∀ {cs ds rest rest' : List Char},
    cs.flatMap escape ++ quote::rest = ds.flatMap escape ++ quote::rest' → cs = ds ∧ rest = rest'
  | [], [], rest, rest', h => by simpa using h
  | [], d::ds, rest, rest', h => by
    rw [List.flatMap_cons,List.append_assoc] at h
    exact absurd h.symm (escape_ne_quote d _ _)
  | c::cs, [], rest, rest', h => by
    rw [List.flatMap_cons,List.append_assoc] at h
    exact absurd h (escape_ne_quote c _ _)
  | c::cs, d::ds, rest, rest', h => by
    rw [List.flatMap_cons,List.flatMap_cons,List.append_assoc,List.append_assoc] at h
    obtain ⟨rfl,hta⟩ := escape_inj h
    obtain ⟨rfl,hr⟩ := escaped_inj hta
    exact ⟨rfl,hr⟩

lemma writeString_inj {s t : String}
    (h : writeString s ++ rest = writeString t ++ rest') : s = t ∧ rest = rest' := by
  simp only [writeString,cons_append,append_assoc,List.cons.injEq,true_and] at h
  obtain ⟨hte,hr⟩ := escaped_inj h
  exact ⟨String.toList_injective hte,hr⟩

/-- What may follow a value: nothing, or a character that no number literal has. -/
def Ends (rest : List Char) : Prop := ∀ c ∈ rest.head?, numeralChar c = false

lemma numerals_inj : ∀ {cs ds rest rest' : List Char}, (∀ c ∈ cs, numeralChar c = true) →
    (∀ d ∈ ds, numeralChar d = true) → Ends rest → Ends rest' → cs ++ rest = ds ++ rest' →
      cs = ds ∧ rest = rest'
  | [], [], rest, rest', _, _, _, _, h => ⟨rfl,h⟩
  | [], d::ds, rest, rest', _, hds, hr, _, h => by
    have hd := hds d List.mem_cons_self
    rw [hr d (by rw [List.nil_append] at h; rw [h]; rfl)] at hd
    cases hd
  | c::cs, [], rest, rest', hcs, _, _, hr', h => by
    have hc := hcs c List.mem_cons_self
    rw [hr' c (by rw [List.nil_append] at h; rw [← h]; rfl)] at hc
    cases hc
  | c::cs, d::ds, rest, rest', hcs, hds, hr, hr', h => by
    simp only [List.cons_append,List.cons.injEq] at h
    obtain ⟨rfl,hta⟩ := h
    obtain ⟨rfl,hsame⟩ := numerals_inj (fun x hx => hcs x (List.mem_cons_of_mem _ hx))
      (fun x hx => hds x (List.mem_cons_of_mem _ hx)) hr hr' hta
    exact ⟨rfl,hsame⟩

def natural (n : ℕ) : Numeral where
  text := n.repr
  nonempty := by simp [Nat.toList_repr]
  chars := by
    intro c hc
    rw [Nat.toList_repr] at hc
    simp [numeralChar,Nat.isDigit_of_mem_toDigits (by decide) (by decide) hc]

lemma natural_injective : Function.Injective natural := by
  intro m n h
  have hv := congrArg (fun literal => Nat.ofDigitChars 10 literal.text.toList 0) h
  simpa [natural] using hv

section

inductive Kind
  | null
  | true
  | false
  | num
  | str
  | arr
  | obj
  deriving DecidableEq

def kindOf : Json → Kind
  | .null => .null
  | .bool .true => .true
  | .bool .false => .false
  | .num _ => .num
  | .str _ => .str
  | .arr _ => .arr
  | .obj _ => .obj

def kindOfChar (c : Char) : Option Kind :=
  if c = 'n' then some .null else if c = 't' then some .true else if c = 'f' then some .false
  else if numeralChar c then some .num else if c = quote then some .str
  else if c = '[' then some .arr else if c = Char.ofNat 0x7b then some .obj else none

variable {j k : Json}

lemma kindOfChar_numeral (h : numeralChar c = true) : kindOfChar c = some .num := by
  unfold kindOfChar
  have hn : c ≠ 'n' := by rintro rfl; revert h; decide
  have ht : c ≠ 't' := by rintro rfl; revert h; decide
  have hf : c ≠ 'f' := by rintro rfl; revert h; decide
  rw [if_neg hn,if_neg ht,if_neg hf,if_pos h]

lemma kindOf_write (j : Json) (rest : List Char) :
    (write j ++ rest).head?.bind kindOfChar = some (kindOf j) := by
  match j with
  | .null => rfl
  | .bool .true => rfl
  | .bool .false => rfl
  | .num literal =>
    cases hte : literal.text.toList with
    | nil => exact absurd hte literal.nonempty
    | cons c cs =>
      have hc := literal.chars c (by rw [hte]; exact mem_cons_self)
      simp [write,hte,kindOfChar_numeral hc,kindOf]
  | .str text => rfl
  | .arr items => rfl
  | .obj members => rfl

lemma write_ne (hc : kindOfChar c = none) (j : Json) (rest rest' : List Char) :
    write j ++ rest ≠ c::rest' := by
  intro h
  have hk := kindOf_write j rest
  rw [h] at hk
  simp [hc] at hk

lemma kindOf_eq (h : write j ++ rest = write k ++ rest') : kindOf j = kindOf k := by
  have hj := kindOf_write j rest
  rw [h,kindOf_write k rest'] at hj
  simpa using hj.symm

lemma ends_cons (hc : numeralChar c = false) (rest : List Char) : Ends (c::rest) := by
  simpa [Ends] using hc

lemma ends_moreItems (items : List Json) (rest : List Char) :
    Ends (writeMoreItems items ++ rest) := by
  cases items with
  | nil | cons item items => exact ends_cons (by decide) _

lemma ends_moreMembers (members : List (String × Json)) (rest : List Char) :
    Ends (writeMoreMembers members ++ rest) := by
  cases members with
  | nil | cons member members => exact ends_cons (by decide) _

lemma kindOf_cases (h : kindOf j = kindOf k) :
    (j = .null ∧ k = .null) ∨ (∃ b, j = .bool b ∧ k = .bool b) ∨
      (∃ n m, j = .num n ∧ k = .num m) ∨ (∃ s t, j = .str s ∧ k = .str t) ∨
      (∃ xs ys, j = .arr xs ∧ k = .arr ys) ∨ ∃ xs ys, j = .obj xs ∧ k = .obj ys := by
  rcases j with _ | (_ | _) | _ | _ | _ | _ <;> rcases k with _ | (_ | _) | _ | _ | _ | _ <;>
    simp [kindOf] at h ⊢

def Scalar : Json → Prop
  | .arr _ | .obj _ => False
  | _ => True

lemma write_inj_scalar (hj : Scalar j) (hr : Ends rest)
    (hr' : Ends rest') (h : write j ++ rest = write k ++ rest') : j = k ∧ rest = rest' := by
  obtain ⟨rfl,rfl⟩ | ⟨b,rfl,rfl⟩ | ⟨n,m,rfl,rfl⟩ | ⟨s,t,rfl,rfl⟩ | ⟨_,_,rfl,-⟩ |
    ⟨_,_,rfl,-⟩ := kindOf_cases (kindOf_eq h)
  · exact ⟨rfl,append_cancel_left h⟩
  · exact ⟨rfl,append_cancel_left h⟩
  · obtain ⟨hte,hsame⟩ := numerals_inj n.chars m.chars hr hr' h
    obtain ⟨text,hno,hch⟩ := n
    obtain ⟨text',hno',hch'⟩ := m
    obtain rfl : text = text' := String.toList_injective hte
    exact ⟨rfl,hsame⟩
  · obtain ⟨rfl,hsame⟩ := writeString_inj h
    exact ⟨rfl,hsame⟩
  · exact hj.elim
  · exact hj.elim

mutual

lemma write_inj : ∀ (j k : Json) (rest rest' : List Char), Ends rest → Ends rest' →
    write j ++ rest = write k ++ rest' → j = k ∧ rest = rest'
  | .arr xs,k,rest,rest',hr,hr',h => by
    obtain ⟨hj,-⟩ | ⟨_,hj,-⟩ | ⟨_,_,hj,-⟩ | ⟨_,_,hj,-⟩ | ⟨_,ys,hj,rfl⟩ | ⟨_,_,hj,-⟩ :=
      kindOf_cases (kindOf_eq h) <;> cases hj
    simp only [write,cons_append,List.cons.injEq,true_and] at h
    obtain ⟨rfl,hsame⟩ := writeItems_inj xs ys _ _ h
    exact ⟨rfl,hsame⟩
  | .obj xs,k,rest,rest',hr,hr',h => by
    obtain ⟨hj,-⟩ | ⟨_,hj,-⟩ | ⟨_,_,hj,-⟩ | ⟨_,_,hj,-⟩ | ⟨_,_,hj,-⟩ | ⟨_,ys,hj,rfl⟩ :=
      kindOf_cases (kindOf_eq h) <;> cases hj
    simp only [write,cons_append,List.cons.injEq,true_and] at h
    obtain ⟨rfl,hsame⟩ := writeMembers_inj xs ys _ _ h
    exact ⟨rfl,hsame⟩
  | .null,k,rest,rest',hr,hr',h => write_inj_scalar trivial hr hr' h
  | .bool _,k,rest,rest',hr,hr',h => write_inj_scalar trivial hr hr' h
  | .num _,k,rest,rest',hr,hr',h => write_inj_scalar trivial hr hr' h
  | .str _,k,rest,rest',hr,hr',h => write_inj_scalar trivial hr hr' h

lemma writeItems_inj : ∀ (xs ys : List Json) (rest rest' : List Char),
    writeItems xs ++ rest = writeItems ys ++ rest' → xs = ys ∧ rest = rest'
  | [],[],rest,rest',h => by simpa [writeItems] using h
  | [],y::ys,rest,rest',h => by
    simp only [writeItems,List.append_assoc] at h
    exact absurd h.symm (write_ne (by decide) y _ _)
  | x::xs,[],rest,rest',h => by
    simp only [writeItems,List.append_assoc] at h
    exact absurd h (write_ne (by decide) x _ _)
  | x::xs,y::ys,rest,rest',h => by
    simp only [writeItems,List.append_assoc] at h
    obtain ⟨rfl,hm⟩ := write_inj x y _ _ (ends_moreItems _ _) (ends_moreItems _ _) h
    obtain ⟨rfl,hr⟩ := writeMoreItems_inj xs ys _ _ hm
    exact ⟨rfl,hr⟩

lemma writeMoreItems_inj : ∀ (xs ys : List Json) (rest rest' : List Char),
    writeMoreItems xs ++ rest = writeMoreItems ys ++ rest' → xs = ys ∧ rest = rest'
  | [],[],rest,rest',h => by simpa [writeMoreItems] using h
  | [],y::ys,rest,rest',h => by simp [writeMoreItems] at h
  | x::xs,[],rest,rest',h => by simp [writeMoreItems] at h
  | x::xs,y::ys,rest,rest',h => by
    simp only [writeMoreItems,List.cons_append,List.append_assoc,List.cons.injEq,true_and] at h
    obtain ⟨rfl,hm⟩ := write_inj x y _ _ (ends_moreItems _ _) (ends_moreItems _ _) h
    obtain ⟨rfl,hr⟩ := writeMoreItems_inj xs ys _ _ hm
    exact ⟨rfl,hr⟩

lemma writeMembers_inj : ∀ (xs ys : List (String × Json)) (rest rest' : List Char),
    writeMembers xs ++ rest = writeMembers ys ++ rest' → xs = ys ∧ rest = rest'
  | [],[],rest,rest',h => by simpa [writeMembers] using h
  | [],(key,y)::ys,rest,rest',h => by
    simp [writeMembers,writeString,quote] at h
  | (key,x)::xs,[],rest,rest',h => by
    simp [writeMembers,writeString,quote] at h
  | (key,x)::xs,(key',y)::ys,rest,rest',h => by
    simp only [writeMembers,List.cons_append,List.append_assoc] at h
    obtain ⟨rfl,hco⟩ := writeString_inj h
    simp only [List.cons.injEq,true_and] at hco
    obtain ⟨rfl,hm⟩ := write_inj x y _ _ (ends_moreMembers _ _) (ends_moreMembers _ _) hco
    obtain ⟨rfl,hr⟩ := writeMoreMembers_inj xs ys _ _ hm
    exact ⟨rfl,hr⟩

lemma writeMoreMembers_inj : ∀ (xs ys : List (String × Json)) (rest rest' : List Char),
    writeMoreMembers xs ++ rest = writeMoreMembers ys ++ rest' → xs = ys ∧ rest = rest'
  | [],[],rest,rest',h => by simpa [writeMoreMembers] using h
  | [],(key,y)::ys,rest,rest',h => by simp [writeMoreMembers] at h
  | (key,x)::xs,[],rest,rest',h => by simp [writeMoreMembers] at h
  | (key,x)::xs,(key',y)::ys,rest,rest',h => by
    simp only [writeMoreMembers,List.cons_append,List.append_assoc,List.cons.injEq,true_and] at h
    obtain ⟨rfl,hco⟩ := writeString_inj h
    simp only [List.cons.injEq,true_and] at hco
    obtain ⟨rfl,hm⟩ := write_inj x y _ _ (ends_moreMembers _ _) (ends_moreMembers _ _) hco
    obtain ⟨rfl,hr⟩ := writeMoreMembers_inj xs ys _ _ hm
    exact ⟨rfl,hr⟩

end

lemma compact_injective : Function.Injective compact := by
  intro j k h
  have hte : write j ++ [] = write k ++ [] := by
    simpa using String.ofList_injective h
  exact (write_inj j k [] [] (by simp [Ends]) (by simp [Ends]) hte).1

end

end Ocrypt.JsonText
