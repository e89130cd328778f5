/-!
# Order of texts and order of bytes

Texts are compared character by character. UTF-8 keeps that order: the bytes of a lesser character
come before those of a greater one, whatever follows either of them.
-/
namespace ParserPackages.Text

def bytes (s : String) : List UInt8 := s.toUTF8.data.toList

theorem bytes_eq_flatMap (s : String) : bytes s = s.toList.flatMap String.utf8EncodeChar := by
  rw [bytes, String.toUTF8, ← String.ofList_toList (s := s), String.toByteArray_ofList,
    String.ofList_toList]
  simp [List.utf8Encode]

/-- Bytes compare as numbers, and what follows decides between equal ones. -/
private theorem cons_byte_lt {m n : Nat} (hn : n < 256) (hle : m ≤ n) {x y : List UInt8}
    (h : m = n → x < y) : UInt8.ofNat m :: x < UInt8.ofNat n :: y := by
  rw [List.cons_lt_cons_iff]
  rcases Nat.lt_or_eq_of_le hle with hlt | rfl
  · left
    rw [UInt8.lt_iff_toNat_lt, UInt8.toNat_ofNat_of_lt' hn,
      UInt8.toNat_ofNat_of_lt' (Nat.lt_trans hlt hn)]
    exact hlt
  · exact .inr ⟨rfl, h rfl⟩

theorem utf8EncodeChar_append_lt {c d : Char} (h : c < d) (x y : List UInt8) :
    String.utf8EncodeChar c ++ x < String.utf8EncodeChar d ++ y := by
  have hlt : c.val.toNat < d.val.toNat := h
  have hd : d.val.toNat < 0x110000 := by
    have hv := d.valid
    simp only [UInt32.isValidChar, Nat.isValidChar] at hv
    omega
  simp only [String.utf8EncodeChar]
  generalize c.val.toNat = m at hlt ⊢
  generalize d.val.toNat = n at hlt hd ⊢
  -- fewer bytes begin with a lesser byte; as many bytes are the digits of both numbers to base 64
  split
  · split
    · exact cons_byte_lt (by omega) (by omega) (by omega)
    · split
      · exact cons_byte_lt (by omega) (by omega) (by omega)
      · split <;> exact cons_byte_lt (by omega) (by omega) (by omega)
  · rw [if_neg (by omega : ¬ n ≤ 127)]
    split
    · split
      · exact cons_byte_lt (by omega) (by omega) fun _ =>
          cons_byte_lt (by omega) (by omega) (by omega)
      · split <;> exact cons_byte_lt (by omega) (by omega) (by omega)
    · rw [if_neg (by omega : ¬ n ≤ 2047)]
      split
      · split
        · exact cons_byte_lt (by omega) (by omega) fun _ =>
            cons_byte_lt (by omega) (by omega) fun _ =>
              cons_byte_lt (by omega) (by omega) (by omega)
        · exact cons_byte_lt (by omega) (by omega) (by omega)
      · rw [if_neg (by omega : ¬ n ≤ 65535)]
        exact cons_byte_lt (by omega) (by omega) fun _ =>
          cons_byte_lt (by omega) (by omega) fun _ =>
            cons_byte_lt (by omega) (by omega) fun _ =>
              cons_byte_lt (by omega) (by omega) (by omega)

private theorem flatMap_utf8EncodeChar_lt {cs ds : List Char} (h : cs < ds) :
    cs.flatMap String.utf8EncodeChar < ds.flatMap String.utf8EncodeChar := by
  induction cs generalizing ds with
  | nil =>
    cases ds with
    | nil => exact absurd h (List.lt_irrefl _)
    | cons d ds =>
      obtain ⟨b, rest, hb⟩ := List.exists_cons_of_ne_nil
        (String.utf8EncodeChar_ne_nil (c := d))
      rw [List.flatMap_cons, hb]
      exact List.nil_lt_cons ..
  | cons c cs ih =>
    cases ds with
    | nil => exact absurd h (List.not_lt_nil _)
    | cons d ds =>
      rw [List.flatMap_cons, List.flatMap_cons]
      rcases List.cons_lt_cons_iff.1 h with hlt | ⟨rfl, hlt⟩
      · exact utf8EncodeChar_append_lt hlt _ _
      · exact List.append_left_lt (ih hlt)

theorem bytes_lt_of_lt {s t : String} (h : s < t) : bytes s < bytes t := by
  rw [bytes_eq_flatMap, bytes_eq_flatMap]
  exact flatMap_utf8EncodeChar_lt (String.lt_iff.1 h)

end ParserPackages.Text
