import DecisionRules.Proofs.Catalog.Listing
import DecisionRules.Proofs.Catalog.Stored

/-!
# Proofs/Catalog/StableId — stable ids are told by their characters

What a stable id is can be said of its characters (`IsIdentifier`), but what is looked at are the
bytes of a text, and their number.  Both come to the same for every text (`isValid_iff`).  A
character beyond ASCII has bytes beyond ASCII only, and none of these may stand anywhere in a stable
id; where there is no such character, each character is one byte, its code.

So the bytes may as well be counted by characters: where the two numbers differ the text is no
stable id for another reason.
-/

namespace DecisionRules

/-! ## Bytes of ASCII and beyond -/

theorem toList_loop_eq (bytes : ByteArray) (i : Nat) (before : List UInt8) :
    ByteArray.toList.loop bytes i before = before.reverse ++ bytes.data.toList.drop i := by
  fun_induction ByteArray.toList.loop bytes i before with
  | case1 i before h ih =>
    have hi : i < bytes.data.toList.length := h
    have hget : bytes.get! i = bytes.data.toList[i] := getElem!_pos bytes.data i h
    rw [ih, List.drop_eq_getElem_cons hi, List.reverse_cons, List.append_assoc, hget,
      List.singleton_append]
  | case2 i before h =>
    rw [List.drop_eq_nil_of_le (Nat.le_of_not_lt h), List.append_nil]

theorem toList_toUTF8 (s : String) : s.toUTF8.toList = utf8Bytes s := by
  rw [ByteArray.toList, toList_loop_eq]
  rfl

/-- **A character of ASCII** is one byte, its code. -/
theorem utf8EncodeChar_of_lt {c : Char} (h : c.toNat < 128) :
    String.utf8EncodeChar c = [UInt8.ofNat c.toNat] := by
  have hcode : c.val.toNat ≤ 127 := Nat.le_of_lt_succ h
  rw [String.utf8EncodeChar]
  exact if_pos hcode

/-- **The bytes of a character beyond ASCII** are beyond ASCII too. -/
theorem le_of_mem_utf8EncodeChar {c : Char} (h : 128 ≤ c.toNat) :
    ∀ b ∈ String.utf8EncodeChar c, 128 ≤ b.toNat := by
  have hcode : ¬ c.val.toNat ≤ 127 := Nat.not_le_of_lt h
  unfold String.utf8EncodeChar
  generalize c.val.toNat = n at *
  rw [if_neg hcode]
  split_ifs <;> simp <;> omega

/-- A text is in ASCII just if its bytes are. -/
theorem forall_mem_utf8Bytes_lt_iff {s : String} :
    (∀ b ∈ utf8Bytes s, b.toNat < 128) ↔ ∀ c ∈ s.toList, c.toNat < 128 := by
  rw [utf8Bytes_eq]
  constructor
  · intro h c hc
    by_contra hbeyond
    obtain ⟨b, hb⟩ := List.exists_mem_of_ne_nil _ (String.utf8EncodeChar_ne_nil (c := c))
    have hle := le_of_mem_utf8EncodeChar (Nat.le_of_not_lt hbeyond) b hb
    exact absurd (h b (List.mem_flatMap.mpr ⟨c, hc, hb⟩)) (Nat.not_lt_of_le hle)
  · intro h b hb
    obtain ⟨c, hc, hb⟩ := List.mem_flatMap.mp hb
    rw [utf8EncodeChar_of_lt (h c hc), List.mem_singleton] at hb
    rw [hb, UInt8.toNat_ofNat_of_lt' (Nat.lt_trans (h c hc) (by decide))]
    exact h c hc

/-- The bytes of a text in ASCII are the codes of its characters. -/
theorem utf8Bytes_eq_map {s : String} (h : ∀ c ∈ s.toList, c.toNat < 128) :
    utf8Bytes s = s.toList.map fun c => UInt8.ofNat c.toNat := by
  rw [utf8Bytes_eq, List.map_eq_flatMap]
  exact List.flatMap_congr fun c hc => utf8EncodeChar_of_lt (h c hc)

/-- A text in ASCII has as many bytes as characters. -/
theorem length_utf8Bytes {s : String} (h : ∀ c ∈ s.toList, c.toNat < 128) :
    (utf8Bytes s).length = s.length := by
  rw [utf8Bytes_eq_map h, List.length_map, String.length_toList]

namespace StableId

/-! ## The pattern of a stable id -/

section Pattern

variable {α β : Type} {first others first' others' : α → Prop}

/-- There is a first entry, of one kind, and all others are of another kind. -/
def Pattern (first others : α → Prop) : List α → Prop
  | [] => False
  | a :: rest => first a ∧ ∀ b ∈ rest, others b

instance [DecidablePred first] [DecidablePred others] : DecidablePred (Pattern first others)
  | [] => inferInstanceAs (Decidable False)
  | a :: rest => inferInstanceAs (Decidable (first a ∧ ∀ b ∈ rest, others b))

theorem Pattern.forall {p : α → Prop} (hfirst : ∀ a, first a → p a)
    (hothers : ∀ a, others a → p a) : ∀ {xs : List α}, Pattern first others xs → ∀ a ∈ xs, p a
  | _ :: _, h => List.forall_mem_cons.mpr ⟨hfirst _ h.1, fun b hb => hothers b (h.2 b hb)⟩

theorem pattern_congr {xs : List α} (hfirst : ∀ a ∈ xs, first a ↔ first' a)
    (hothers : ∀ a ∈ xs, others a ↔ others' a) :
    Pattern first others xs ↔ Pattern first' others' xs := by
  cases xs with
  | nil => exact Iff.rfl
  | cons a rest =>
    exact and_congr (hfirst a List.mem_cons_self)
      (forall₂_congr fun b hb => hothers b (List.mem_cons_of_mem a hb))

theorem pattern_map {p q : β → Prop} {f : α → β} {xs : List α} :
    Pattern p q (xs.map f) ↔ Pattern (fun a => p (f a)) (fun a => q (f a)) xs := by
  cases xs with
  | nil => exact Iff.rfl
  | cons a rest => exact and_congr_right fun _ => List.forall_mem_map

end Pattern

/-- A character that may stand after the first. -/
def IsInnerChar (c : Char) : Prop := c.isAlphanum = true ∨ c = '_' ∨ c = '-'

instance : DecidablePred IsInnerChar :=
  fun c => inferInstanceAs (Decidable (c.isAlphanum = true ∨ c = '_' ∨ c = '-'))

/-- **A stable id, character by character**: 3 to 64 of them, first a letter or a digit of ASCII,
and then letters, digits, underscores and hyphens. -/
structure IsIdentifier (cs : List Char) : Prop where
  shortest : 3 ≤ cs.length
  longest : cs.length ≤ 64
  pattern : Pattern (fun c => c.isAlphanum = true) IsInnerChar cs

theorem isIdentifier_iff {cs : List Char} : IsIdentifier cs ↔
    (3 ≤ cs.length ∧ cs.length ≤ 64) ∧ Pattern (fun c => c.isAlphanum = true) IsInnerChar cs :=
  ⟨fun h => ⟨⟨h.shortest, h.longest⟩, h.pattern⟩, fun h => ⟨h.1.1, h.1.2, h.2⟩⟩

instance (cs : List Char) : Decidable (IsIdentifier cs) := decidable_of_iff' _ isIdentifier_iff

example : (∀ id ∈ ["loan-decision", "r_1", "ABC", "a-_"], IsIdentifier id.toList) ∧
    ∀ id ∈ ["ab", "-abc", "_abc", "has space", "dot.ted", ""], ¬ IsIdentifier id.toList := by
  decide

/-- Bytes follow the pattern of a stable id, whatever their number. -/
def FitsBytes (bytes : List UInt8) : Prop :=
  Pattern (fun b => isAlphanumeric b = true) (fun b => isInner b = true) bytes

theorem isValidBytes_iff {bytes : List UInt8} : isValidBytes bytes = true ↔
    (3 ≤ bytes.length ∧ bytes.length ≤ 64) ∧ FitsBytes bytes := by
  unfold isValidBytes
  rw [Bool.and_eq_true, decide_eq_true_eq]
  cases bytes with
  | nil => simp [FitsBytes, Pattern]
  | cons first rest =>
    rw [Bool.and_eq_true, List.all_eq_true]
    rfl

/-! ## Codes of letters and digits

The classes of bytes and those of characters have the same codes, all of them below 128. -/

theorem isAlphanum_iff {c : Char} : c.isAlphanum = true ↔
    (48 ≤ c.toNat ∧ c.toNat ≤ 57) ∨ (65 ≤ c.toNat ∧ c.toNat ≤ 90) ∨
      (97 ≤ c.toNat ∧ c.toNat ≤ 122) := by
  have hcodes : c.isAlphanum = true ↔
      ((65 ≤ c.toNat ∧ c.toNat ≤ 90) ∨ (97 ≤ c.toNat ∧ c.toNat ≤ 122)) ∨
        (48 ≤ c.toNat ∧ c.toNat ≤ 57) := by
    delta Char.isAlphanum Char.isAlpha Char.isUpper Char.isLower Char.isDigit
    simp only [Bool.or_eq_true, Bool.and_eq_true, decide_eq_true_eq, ge_iff_le,
      UInt32.le_iff_toNat_le]
    rfl
  rw [hcodes, or_comm]

theorem isInnerChar_iff {c : Char} :
    IsInnerChar c ↔ c.isAlphanum = true ∨ c.toNat = 95 ∨ c.toNat = 45 := by
  simp [IsInnerChar, ← Char.toNat_inj]

theorem isAlphanumeric_iff {b : UInt8} : isAlphanumeric b = true ↔
    (48 ≤ b.toNat ∧ b.toNat ≤ 57) ∨ (65 ≤ b.toNat ∧ b.toNat ≤ 90) ∨
      (97 ≤ b.toNat ∧ b.toNat ≤ 122) := by
  simp [isAlphanumeric, UInt8.le_iff_toNat_le, or_assoc]

theorem isInner_iff {b : UInt8} :
    isInner b = true ↔ isAlphanumeric b = true ∨ b.toNat = 95 ∨ b.toNat = 45 := by
  simp [isInner, ← UInt8.toNat_inj, or_assoc]

/-- All characters of a stable id are in ASCII. -/
theorem IsIdentifier.lt {cs : List Char} (h : IsIdentifier cs) : ∀ c ∈ cs, c.toNat < 128 := by
  refine h.pattern.forall (fun c hc => ?_) fun c hc => ?_
  · have hcode := isAlphanum_iff.mp hc
    omega
  · have hcode := isInnerChar_iff.mp hc
    rw [isAlphanum_iff] at hcode
    omega

/-- All bytes that follow the pattern are in ASCII. -/
theorem FitsBytes.lt {bytes : List UInt8} (h : FitsBytes bytes) : ∀ b ∈ bytes, b.toNat < 128 := by
  refine h.forall (fun b hb => ?_) fun b hb => ?_
  · have hcode := isAlphanumeric_iff.mp hb
    omega
  · have hcode := isInner_iff.mp hb
    rw [isAlphanumeric_iff] at hcode
    omega

/-- The codes of characters of ASCII follow the pattern just if the characters do. -/
theorem fitsBytes_map_iff {cs : List Char} (h : ∀ c ∈ cs, c.toNat < 128) :
    FitsBytes (cs.map fun c => UInt8.ofNat c.toNat) ↔
      Pattern (fun c => c.isAlphanum = true) IsInnerChar cs := by
  have htoNat (c : Char) (hc : c ∈ cs) : (UInt8.ofNat c.toNat).toNat = c.toNat :=
    UInt8.toNat_ofNat_of_lt' (Nat.lt_trans (h c hc) (by decide))
  refine pattern_map.trans (pattern_congr (fun c hc => ?_) fun c hc => ?_)
  · rw [isAlphanumeric_iff, isAlphanum_iff, htoNat c hc]
  · rw [isInner_iff, isInnerChar_iff, isAlphanumeric_iff, isAlphanum_iff, htoNat c hc]

/-! ## Bytes and characters -/

/-- **Bytes follow the pattern just if the characters do**, which are then in ASCII. -/
theorem fitsBytes_iff {id : String} : FitsBytes (utf8Bytes id) ↔
    (∀ c ∈ id.toList, c.toNat < 128) ∧
      Pattern (fun c => c.isAlphanum = true) IsInnerChar id.toList := by
  constructor
  · intro h
    have hascii := forall_mem_utf8Bytes_lt_iff.mp h.lt
    rw [utf8Bytes_eq_map hascii, fitsBytes_map_iff hascii] at h
    exact ⟨hascii, h⟩
  · rintro ⟨hascii, h⟩
    rwa [utf8Bytes_eq_map hascii, fitsBytes_map_iff hascii]

/-- What is checked: the number of bytes, and their pattern. -/
theorem isValid_iff_bytes {id : String} : isValid id = true ↔
    (3 ≤ id.utf8ByteSize ∧ id.utf8ByteSize ≤ 64) ∧ FitsBytes (utf8Bytes id) := by
  rw [isValid, toList_toUTF8, isValidBytes_iff]
  rfl

/-- **The length may be counted in characters**: where bytes follow the pattern there are as many of
them as of characters. -/
theorem isValid_iff_length {id : String} : isValid id = true ↔
    (3 ≤ id.length ∧ id.length ≤ 64) ∧ FitsBytes (utf8Bytes id) := by
  rw [isValid_iff_bytes]
  refine and_congr_left fun hfits => ?_
  have hsize : id.utf8ByteSize = id.length := length_utf8Bytes (fitsBytes_iff.mp hfits).1
  rw [hsize]

/-- **The check accepts the identifiers** and nothing else. -/
theorem isValid_iff {id : String} : isValid id = true ↔ IsIdentifier id.toList := by
  rw [isValid_iff_length, fitsBytes_iff, isIdentifier_iff, String.length_toList]
  refine and_congr_right fun hlength => and_iff_right_of_imp fun hpattern => ?_
  exact IsIdentifier.lt ⟨hlength.1, hlength.2, hpattern⟩

theorem isValid_eq_false_of_mem {id : String} {c : Char} (hc : c ∈ id.toList)
    (hbeyond : 128 ≤ c.toNat) : isValid id = false := by
  rw [← Bool.not_eq_true, isValid_iff]
  exact fun h => absurd (h.lt c hc) (Nat.not_lt_of_le hbeyond)

/-- **Stable ids are told by their characters.**  A text is one if and only if it has 3 to 64
characters, the first a letter or a digit of ASCII and the others letters, digits, underscores or
hyphens.  So no text with a character beyond ASCII is one; and for no text does it make a difference
whether the length is counted in bytes, as it is, or in characters. -/
theorem isValid_iff_isIdentifier (id : String) :
    (isValid id = true ↔ IsIdentifier id.toList) ∧
      (∀ c ∈ id.toList, 128 ≤ c.toNat → isValid id = false) ∧
      (isValid id = true ↔
        (3 ≤ id.utf8ByteSize ∧ id.utf8ByteSize ≤ 64) ∧ FitsBytes id.toUTF8.toList) ∧
      (isValid id = true ↔ (3 ≤ id.length ∧ id.length ≤ 64) ∧ FitsBytes id.toUTF8.toList) := by
  rw [toList_toUTF8]
  exact ⟨isValid_iff, fun c => isValid_eq_false_of_mem, isValid_iff_bytes, isValid_iff_length⟩

/-- Two characters in three bytes, and 64 characters in 65 bytes: the number of characters and that
of bytes fall on two sides of a bound. -/
theorem isValid_iff_isIdentifier_accented :
    let short := "n\u00e9"
    let long := String.ofList ('\u00e9' :: List.replicate 63 'x')
    short.length = 2 ∧ short.utf8ByteSize = 3 ∧ long.length = 64 ∧ long.utf8ByteSize = 65 ∧
      isValid short = false ∧ isValid long = false := by
  intro short long
  refine ⟨by decide, by decide, by decide, by decide, ?_, ?_⟩
  · exact (isValid_iff_isIdentifier short).2.1 '\u00e9' (by decide) (by decide)
  · exact (isValid_iff_isIdentifier long).2.1 '\u00e9' (by decide) (by decide)

end StableId

/-! ## Ids that are stored -/

/-- **A draft is turned down for its id** just if that is no identifier: nothing is looked at
before. -/
theorem RuleDraft.check_eq_badStableId_iff {d : RuleDraft} {id : String} :
    d.check = .error (.badStableId id) ↔
      id = d.stableId ∧ ¬ StableId.IsIdentifier d.stableId.toList := by
  rw [check, ← StableId.isValid_iff]
  by_cases hid : StableId.isValid d.stableId = true
  · refine iff_of_false (fun h => ?_) fun h => h.2 hid
    rw [hid, Bool.not_true, if_neg Bool.false_ne_true] at h
    split at h
    · cases h
    split at h
    · cases h
    · rw [checkCaseNames] at h
      split at h <;> cases h
  · simp [hid, eq_comm]

/-- **Every version is stored under an identifier**, after every run. -/
theorem Session.isIdentifier_of_mem_history {ι : Type} [DecidableEq ι] (src : Sources)
    (requests : List (ι × Request)) (who : ι) (id : String) :
    ∀ v ∈ ((run src requests empty).2.catalogs who).history id,
      StableId.IsIdentifier v.stableId.toList := by
  intro v hv
  have hinOrder := inOrder_of_mem_history src requests who id v hv
  rw [hinOrder.stableId_eq]
  exact StableId.isValid_iff.mp hinOrder.isValid

end DecisionRules
