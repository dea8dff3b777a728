import AddonBuild.Script.Scanner
import Mathlib.Tactic.Lemma

/-!
# Scripts as bytes

The bytes of a script are those of its characters, one after the other. A character of ASCII is one
byte, which falls into the same classes as the character; every byte of another character is at
least `0x80`, so that it counts as part of a word and is no mark of the language.
-/

namespace AddonBuild

namespace Script

/-- The bytes of a list of characters. -/
def encode (s : List Char) : Bytes :=
  s.flatMap String.utf8EncodeChar

@[simp] lemma encode_nil : encode [] = [] := rfl

lemma encode_cons (c : Char) (s : List Char) :
    encode (c :: s) = String.utf8EncodeChar c ++ encode s := rfl

@[simp] lemma encode_append (s t : List Char) : encode (s ++ t) = encode s ++ encode t :=
  List.flatMap_append

lemma length_encode (s : List Char) : (encode s).length = byteLength s := by
  induction s with
  | nil => rfl
  | cons c s ih => rw [encode_cons, List.length_append, String.length_utf8EncodeChar, ih]; rfl

lemma bytes_ofList (s : List Char) : bytes (String.ofList s) = encode s := by
  simp [bytes, encode, List.utf8Encode]

lemma bytes_eq_encode (source : String) : bytes source = encode source.toList := by
  rw [← bytes_ofList, String.ofList_toList]

lemma length_bytes (source : String) : (bytes source).length = source.utf8ByteSize := by
  simp [bytes]

/-! ### Characters of ASCII and others -/

lemma encodeChar_of_lt {c : Char} (h : c.toNat < 0x80) :
    String.utf8EncodeChar c = [c.toUInt8] := by
  rw [String.utf8EncodeChar_eq_singleton]
  · rfl
  · rw [Char.utf8Size_eq_one_iff, UInt32.le_iff_toNat_le]
    exact Nat.le_of_lt_succ h

lemma encode_cons_of_lt {c : Char} (h : c.toNat < 0x80) (s : List Char) :
    encode (c :: s) = c.toUInt8 :: encode s := by
  rw [encode_cons, encodeChar_of_lt h, List.singleton_append]

lemma le_ofNat {n : Nat} (h : 0x80 ≤ n) (h' : n < 0x100) : 0x80 ≤ UInt8.ofNat n := by
  rw [UInt8.le_iff_toNat_le, UInt8.toNat_ofNat', Nat.mod_eq_of_lt h']
  exact h

lemma le_of_mem_encodeChar {c : Char} (h : 0x80 ≤ c.toNat) {b : UInt8}
    (hb : b ∈ String.utf8EncodeChar c) : 0x80 ≤ b := by
  have hc : ¬ c.val.toNat ≤ 0x7f := fun hle => absurd (Nat.le_trans h hle) (by decide)
  simp only [String.utf8EncodeChar, if_neg hc] at hb
  split at hb
  · simp only [List.mem_cons, List.not_mem_nil, or_false] at hb
    obtain rfl | rfl := hb <;> exact le_ofNat (by omega) (by omega)
  · split at hb
    · simp only [List.mem_cons, List.not_mem_nil, or_false] at hb
      obtain rfl | rfl | rfl := hb <;> exact le_ofNat (by omega) (by omega)
    · simp only [List.mem_cons, List.not_mem_nil, or_false] at hb
      obtain rfl | rfl | rfl | rfl := hb <;> exact le_ofNat (by omega) (by omega)

/-- A property of ASCII that holds of every code holds of every character. -/
lemma forall_ascii {p : Char → Prop} (h : ∀ n < 0x80, p (Char.ofNat n)) {c : Char}
    (hc : c.toNat < 0x80) : p c := by
  have := h c.toNat hc
  rwa [Char.ofNat_toNat] at this

lemma isBlankByte_toUInt8 {c : Char} (h : c.toNat < 0x80) : isBlankByte c.toUInt8 = isBlank c :=
  forall_ascii (p := fun c => isBlankByte c.toUInt8 = isBlank c) (by decide) h

lemma isQuoteByte_toUInt8 {c : Char} (h : c.toNat < 0x80) : isQuoteByte c.toUInt8 = isQuote c :=
  forall_ascii (p := fun c => isQuoteByte c.toUInt8 = isQuote c) (by decide) h

lemma isWordStartByte_toUInt8 {c : Char} (h : c.toNat < 0x80) :
    isWordStartByte c.toUInt8 = isWordStart c :=
  forall_ascii (p := fun c => isWordStartByte c.toUInt8 = isWordStart c) (by decide) h

lemma isWordByte_toUInt8 {c : Char} (h : c.toNat < 0x80) : isWordByte c.toUInt8 = isWordChar c :=
  forall_ascii (p := fun c => isWordByte c.toUInt8 = isWordChar c) (by decide) h

lemma toUInt8_inj {c d : Char} (hc : c.toNat < 0x80) (hd : d.toNat < 0x80) :
    c.toUInt8 = d.toUInt8 ↔ c = d := by
  refine ⟨fun h => ?_, fun h => by rw [h]⟩
  have h : c.toNat % 256 = d.toNat % 256 := congrArg UInt8.toNat h
  rw [← Char.toNat_inj]
  omega

lemma ne_toUInt8_of_le {b : UInt8} (h : 0x80 ≤ b) {c : Char} (hc : c.toNat < 0x80) :
    b ≠ c.toUInt8 := by
  rintro rfl
  have h : 0x80 ≤ c.toNat % 256 := UInt8.le_iff_toNat_le.mp h
  omega

lemma isBlankByte_of_le {b : UInt8} (h : 0x80 ≤ b) : isBlankByte b = false := by
  have hne := fun {c : Char} => ne_toUInt8_of_le (c := c) h
  simp [isBlankByte, hne]

lemma isQuoteByte_of_le {b : UInt8} (h : 0x80 ≤ b) : isQuoteByte b = false := by
  have hne := fun {c : Char} => ne_toUInt8_of_le (c := c) h
  simp [isQuoteByte, hne]

lemma isWordStartByte_of_le {b : UInt8} (h : 0x80 ≤ b) : isWordStartByte b = true := by
  simp [isWordStartByte, h]

lemma isWordByte_of_le {b : UInt8} (h : 0x80 ≤ b) : isWordByte b = true := by
  simp [isWordByte, isWordStartByte_of_le h]

lemma ne_of_le {c d : Char} (h : 0x80 ≤ c.toNat) (hd : d.toNat < 0x80) : c ≠ d := by
  rintro rfl
  omega

lemma isBlank_of_le {c : Char} (h : 0x80 ≤ c.toNat) : isBlank c = false := by
  simp [isBlank, ne_of_le h]

lemma isQuote_of_le {c : Char} (h : 0x80 ≤ c.toNat) : isQuote c = false := by
  simp [isQuote, ne_of_le h]

lemma isWordStart_of_le {c : Char} (h : 0x80 ≤ c.toNat) : isWordStart c = true := by
  simp [isWordStart, h]

lemma isWordChar_of_le {c : Char} (h : 0x80 ≤ c.toNat) : isWordChar c = true := by
  simp [isWordChar, isWordStart_of_le h]

/-! ### Beginnings of encoded texts -/

lemma head?_encode {s : List Char} {d : Char} (hd : d.toNat < 0x80) :
    (encode s).head? = some d.toUInt8 ↔ s.head? = some d := by
  cases s with
  | nil => simp
  | cons c s =>
    by_cases hc : c.toNat < 0x80
    · simp [encode_cons_of_lt hc, toUInt8_inj hc hd]
    · obtain ⟨b, t, hbt⟩ := List.exists_cons_of_ne_nil (String.utf8EncodeChar_ne_nil (c := c))
      have hb : 0x80 ≤ b := le_of_mem_encodeChar (Nat.le_of_not_lt hc) (by simp [hbt])
      have hne : c ≠ d := by
        rintro rfl
        exact hc hd
      simp [encode_cons, hbt, hne, ne_toUInt8_of_le hb hd]

section Skip

variable {α : Type} {f : Bytes → α} (hf : ∀ b s, 0x80 ≤ b → f (b :: s) = f s)
include hf

lemma skip_bytes {t : Bytes} (ht : ∀ b ∈ t, 0x80 ≤ b) (s : Bytes) : f (t ++ s) = f s := by
  induction t with
  | nil => rfl
  | cons b t ih =>
    rw [List.cons_append, hf b _ (ht b List.mem_cons_self)]
    exact ih fun d hd => ht d (List.mem_cons_of_mem b hd)

/-- What steps over single bytes steps over the characters outside ASCII. -/
lemma skip_cons {c : Char} (hc : 0x80 ≤ c.toNat) (s : List Char) :
    f (encode (c :: s)) = f (encode s) :=
  skip_bytes hf (fun _ hb => le_of_mem_encodeChar hc hb) (encode s)

/-- A backslash takes away one byte of what follows, which may be the first of several of a
character. -/
lemma skip_tail (c : Char) (s : List Char) : f (encode (c :: s)).tail = f (encode s) := by
  by_cases hc : c.toNat < 0x80
  · rw [encode_cons_of_lt hc, List.tail_cons]
  · rw [encode_cons, List.tail_append_of_ne_nil String.utf8EncodeChar_ne_nil]
    exact skip_bytes hf
      (fun _ hb => le_of_mem_encodeChar (Nat.le_of_not_lt hc) (List.mem_of_mem_tail hb)) _

end Skip

end Script

end AddonBuild
