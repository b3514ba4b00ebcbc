import Mathlib.Data.List.Basic
import TreeStream.Text.Lines

/-!
# Texts as files

A file holds the UTF-8 form of a text.  Its lines are those of the text, since no part of a longer
code looks like a line feed or a carriage return.

* `Text.Lines.decode?_toBytes`: a file of a text is that text.
* `Text.Lines.toNat_of_mem_code`: a byte below 128 is a character of its own.
* `Text.Lines.ofBytes_toBytes_lines`: texts that are written on a line each are read back.
-/

namespace TreeStream.Text.Lines
set_option autoImplicit false

theorem toBytes_eq_codes (text : String) :
    toBytes text = text.toList.flatMap String.utf8EncodeChar := by
  rw [toBytes, String.toUTF8_eq_toByteArray, ← String.utf8Encode_toList, List.utf8Encode,
    List.toList_data_toByteArray]

theorem toBytes_append (s t : String) : toBytes (s ++ t) = toBytes s ++ toBytes t := by
  simp only [toBytes_eq_codes, String.toList_append, List.flatMap_append]

theorem decode?_toBytes (text : String) : decode? (toBytes text) = some text := by
  have hbytes : (⟨(toBytes text).toArray⟩ : ByteArray) = text.toByteArray := by
    rw [toBytes, String.toUTF8_eq_toByteArray, Array.toArray_toList]
  rw [decode?, hbytes, String.fromUTF8?, dif_pos text.isValidUTF8]
  rfl

/-- All bytes of a code are at least 128, unless it is a single byte. -/
theorem toNat_of_mem_code {c : Char} {b : UInt8} (h : b ∈ String.utf8EncodeChar c)
    (hb : b.toNat < 128) : c.toNat = b.toNat := by
  have hc : c.toNat = c.val.toNat := rfl
  simp only [String.utf8EncodeChar] at h
  split at h
  · obtain rfl := List.mem_singleton.1 h
    rw [UInt8.toNat_ofNat'] at hb ⊢
    omega
  · split at h
    · simp only [List.mem_cons, List.not_mem_nil, or_false] at h
      rcases h with rfl | rfl <;> rw [UInt8.toNat_ofNat'] at hb <;> omega
    · split at h
      · simp only [List.mem_cons, List.not_mem_nil, or_false] at h
        rcases h with rfl | rfl | rfl <;> rw [UInt8.toNat_ofNat'] at hb <;> omega
      · simp only [List.mem_cons, List.not_mem_nil, or_false] at h
        rcases h with rfl | rfl | rfl | rfl <;> rw [UInt8.toNat_ofNat'] at hb <;> omega

/-- The bytes of control characters are those of no other character. -/
theorem not_mem_toBytes {line : String} (hline : ∀ c ∈ line.toList, 0x20 ≤ c.toNat) {b : UInt8}
    (hb : b.toNat < 0x20) : b ∉ toBytes line := by
  intro hmem
  rw [toBytes_eq_codes, List.mem_flatMap] at hmem
  obtain ⟨c, hc, hcode⟩ := hmem
  have hprintable := hline c hc
  have hcontrol := toNat_of_mem_code hcode (Nat.lt_trans hb (by decide))
  omega

theorem dropEnd_toBytes {line : String} (hline : ∀ c ∈ line.toList, 0x20 ≤ c.toNat) :
    dropEnd 10 13 (toBytes line ++ [10]) = toBytes line := by
  have hreturn : (toBytes line).getLast? ≠ some 13 := fun hlast =>
    not_mem_toBytes hline (by decide) (List.mem_of_getLast? hlast)
  simp [dropEnd, hreturn]

theorem ofBytes_toBytes_append {line : String} (hline : ∀ c ∈ line.toList, 0x20 ≤ c.toNat)
    (rest : List UInt8) :
    ofBytes (toBytes (line ++ "\n") ++ rest) = some line :: ofBytes rest := by
  have hfeed : toBytes "\n" = [10] := by decide
  have hinside : ∀ b ∈ toBytes line, (b == 10) = false := by
    intro b hb
    rw [beq_eq_false_iff_ne]
    rintro rfl
    exact not_mem_toBytes hline (by decide) hb
  have hcut := cutAfter_append (· == 10) (toBytes line) 10 rest hinside (by decide)
  rw [ofBytes, toBytes_append, hfeed, List.append_assoc, List.singleton_append, hcut, List.map_cons,
    dropEnd_toBytes hline, decode?_toBytes]
  rfl

/-- Texts without control characters that are written on a line each are read back. -/
theorem ofBytes_toBytes_lines {lines : List String}
    (hlines : ∀ line ∈ lines, ∀ c ∈ line.toList, 0x20 ≤ c.toNat) :
    ofBytes (toBytes (String.join (lines.map (· ++ "\n")))) = lines.map some := by
  induction lines with
  | nil => decide
  | cons line lines ih =>
    have hjoin : String.join ((line :: lines).map (· ++ "\n")) =
        line ++ "\n" ++ String.join (lines.map (· ++ "\n")) := by
      apply String.toList_injective
      simp
    rw [hjoin, toBytes_append, ofBytes_toBytes_append (hlines line List.mem_cons_self),
      ih fun other hother => hlines other (List.mem_cons_of_mem _ hother), List.map_cons]

end TreeStream.Text.Lines
