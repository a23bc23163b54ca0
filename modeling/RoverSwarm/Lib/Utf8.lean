import Mathlib.Data.List.Infix

/-!
# Utf8 — text in byte strings

`decode` is strict: it reads a byte string if and only if it is the encoding of a text.  A text
occurs in another one if and only if its encoding occurs in the encoding (`infix_encode_iff`), since
the first byte of a character is never one of its other bytes.
-/

namespace Utf8

/-- The bytes of a text. -/
def encode (cs : List Char) : List UInt8 := cs.flatMap String.utf8EncodeChar

/-- The text of a byte string; `none` if it is not the encoding of one. -/
def decode (bytes : List UInt8) : Option String := String.fromUTF8? bytes.toByteArray

@[simp] theorem encode_nil : encode [] = [] := rfl

@[simp] theorem encode_cons (c : Char) (cs : List Char) :
    encode (c :: cs) = String.utf8EncodeChar c ++ encode cs := rfl

theorem decode_eq_some_iff {bytes : List UInt8} {s : String} :
    decode bytes = some s ↔ encode s.toList = bytes := by
  have hencode : (encode s.toList).toByteArray = s.toByteArray := String.utf8Encode_toList
  unfold decode String.fromUTF8?
  constructor
  · intro h
    split_ifs at h with hvalid
    obtain rfl : String.fromUTF8 bytes.toByteArray hvalid = s := Option.some.inj h
    exact List.toByteArray_inj.mp hencode
  · rintro rfl
    have hvalid : (encode s.toList).toByteArray.IsValidUTF8 := hencode ▸ s.isValidUTF8
    rw [dif_pos hvalid]
    exact congrArg some (String.toByteArray_inj.mp hencode)

@[simp] theorem decode_encode (s : String) : decode (encode s.toList) = some s :=
  decode_eq_some_iff.mpr rfl

/-! ### Occurrence -/

/-- The first character of a text is known from the bytes. -/
theorem eq_of_utf8EncodeChar_append {c d : Char} {xs ys : List UInt8}
    (h : String.utf8EncodeChar c ++ xs = String.utf8EncodeChar d ++ ys) : c = d := by
  have hdecode := congrArg (fun bytes => ByteArray.utf8DecodeChar? bytes.toByteArray 0) h
  simp only [List.toByteArray_append, ByteArray.utf8DecodeChar?_utf8EncodeChar_append] at hdecode
  exact Option.some.inj hdecode

theorem isPrefix_of_encode {p cs : List Char} (h : encode p <+: encode cs) : p <+: cs := by
  induction p generalizing cs with
  | nil => exact List.nil_prefix
  | cons c p ih =>
    obtain ⟨rest, hrest⟩ := h
    cases cs with
    | nil =>
      have hlength := congrArg List.length hrest
      have hpos := c.utf8Size_pos
      simp at hlength
      omega
    | cons d cs =>
      rw [encode_cons, encode_cons, List.append_assoc] at hrest
      obtain rfl := eq_of_utf8EncodeChar_append hrest
      exact List.cons_prefix_cons.mpr ⟨rfl, ih ⟨rest, List.append_cancel_left hrest⟩⟩

/-- An occurrence starts where a character starts. -/
theorem eq_zero_of_encode_drop {c d : Char} {p : List Char} {xs : List UInt8} {k : ℕ}
    (h : encode (c :: p) <+: (String.utf8EncodeChar d).drop k ++ xs)
    (hk : k < (String.utf8EncodeChar d).length) : k = 0 := by
  have hpos : 0 < (String.utf8EncodeChar c).length := by
    simpa using c.utf8Size_pos
  have hfirst : ((String.utf8EncodeChar c)[0]).IsUTF8FirstByte :=
    UInt8.isUTF8FirstByte_getElem_utf8EncodeChar.mpr rfl
  have hbyte : (String.utf8EncodeChar d)[k] = (String.utf8EncodeChar c)[0] := by
    obtain ⟨rest, hrest⟩ := h
    have hhead := congrArg List.head? hrest
    simp only [encode_cons, List.append_assoc, List.head?_append, List.head?_drop] at hhead
    rw [List.head?_eq_getElem?, List.getElem?_eq_getElem hpos, List.getElem?_eq_getElem hk] at hhead
    exact (Option.some.inj hhead).symm
  rw [← hbyte] at hfirst
  exact UInt8.isUTF8FirstByte_getElem_utf8EncodeChar.mp hfirst

/-- **Occurrence**: a text occurs where its bytes occur. -/
theorem infix_encode_iff {p cs : List Char} (hp : p ≠ []) :
    encode p <:+: encode cs ↔ p <:+: cs := by
  constructor
  · obtain ⟨c, p, rfl⟩ := List.exists_cons_of_ne_nil hp
    intro h
    induction cs with
    | nil =>
      obtain ⟨_, _, hnil⟩ := h
      have hpos := c.utf8Size_pos
      have hlength := congrArg List.length hnil
      simp at hlength
      omega
    | cons d cs ih =>
      obtain ⟨t, hstart, hsuffix⟩ := List.infix_iff_prefix_suffix.mp h
      rw [List.suffix_iff_eq_drop.mp hsuffix, encode_cons d, List.drop_append] at hstart
      generalize (String.utf8EncodeChar d ++ encode cs).length - t.length = k at hstart
      rcases Nat.lt_or_ge k (String.utf8EncodeChar d).length with hk | hk
      · -- inside the first character, so at its start
        obtain rfl := eq_zero_of_encode_drop hstart hk
        rw [Nat.zero_sub, List.drop_zero, List.drop_zero] at hstart
        exact (isPrefix_of_encode hstart).isInfix
      · rw [List.drop_eq_nil_of_le hk, List.nil_append] at hstart
        exact (ih (hstart.isInfix.trans (List.drop_suffix _ _).isInfix)).trans
          (List.suffix_cons d cs).isInfix
  · rintro ⟨before, after, rfl⟩
    exact ⟨encode before, encode after, by simp [encode]⟩

end Utf8
