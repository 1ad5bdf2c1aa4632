import Runbook.Text.Basic

/-!
# Octets

A shell works on the bytes of its texts.  Here bytes are written as the characters of their numbers,
so that commands can be taken apart like any other text.

`toOctets` gives the UTF-8 form of a text.  `ofOctets` reads it back; what is no UTF-8 becomes a
replacement character, one for each longest part that could have begun a character.
-/

namespace Runbook.Text

/-- The byte of a number, as a character. -/
def octet (n : Nat) : Char := Char.ofNat (n % 256)

/-- The UTF-8 form of a character. -/
def octetsOf (c : Char) : Text :=
  let n := c.toNat
  let tail (shift : Nat) : Char := octet (0x80 + n / shift % 64)
  if n < 0x80 then [c]
  else if n < 0x800 then [octet (0xC0 + n / 64), tail 1]
  else if n < 0x10000 then [octet (0xE0 + n / 4096), tail 64, tail 1]
  else [octet (0xF0 + n / 262144), tail 4096, tail 64, tail 1]

/-- The UTF-8 form of a text. -/
def toOctets (t : Text) : Text := t.flatMap octetsOf

/-- What a first byte asks for: the number of bytes behind it, and the bounds of the next one. -/
def sequenceShape? (first : Nat) : Option (Nat × Nat × Nat) :=
  if first < 0xC2 then none
  else if first < 0xE0 then some (1, 0x80, 0xBF)
  else if first = 0xE0 then some (2, 0xA0, 0xBF)
  else if first = 0xED then some (2, 0x80, 0x9F)
  else if first < 0xF0 then some (2, 0x80, 0xBF)
  else if first = 0xF0 then some (3, 0x90, 0xBF)
  else if first < 0xF4 then some (3, 0x80, 0xBF)
  else if first = 0xF4 then some (3, 0x80, 0x8F)
  else none

/-- The bytes at the front of a text that go on with a sequence of `count` more bytes, the next one
between `low` and `high`. -/
def continuation : (count low high : Nat) → Text → Text
  | 0, _, _, _ => []
  | _, _, _, [] => []
  | count + 1, low, high, c :: t =>
    if low ≤ c.toNat && c.toNat ≤ high then c :: continuation count 0x80 0xBF t else []

/-- The character that stands for what is no UTF-8. -/
def replacement : Char := '\ufffd'

/-- The character of a complete sequence. -/
def sequenceChar (first : Nat) (rest : Text) : Char :=
  let lead :=
    if rest.length = 1 then first % 32
    else if rest.length = 2 then first % 16
    else first % 8
  Char.ofNat (rest.foldl (fun n c => n * 64 + c.toNat % 64) lead)

/-- The text that bytes stand for. The first `skip` bytes are done with. -/
def ofOctetsFrom : (skip : Nat) → Text → Text
  | _, [] => []
  | skip + 1, _ :: t => ofOctetsFrom skip t
  | 0, c :: t =>
    if c.toNat < 0x80 then c :: ofOctetsFrom 0 t
    else
      match sequenceShape? c.toNat with
      | none => replacement :: ofOctetsFrom 0 t
      | some (count, low, high) =>
        let rest := continuation count low high t
        let out := if rest.length = count then sequenceChar c.toNat rest else replacement
        out :: ofOctetsFrom rest.length t

/-- The text that bytes stand for. -/
def ofOctets (t : Text) : Text := ofOctetsFrom 0 t

/-- The numbers of bytes. -/
def octetValues (t : Text) : List UInt8 := t.map fun c => c.toNat.toUInt8

/-- Bytes as the characters of their numbers. -/
def ofOctetValues (bytes : List UInt8) : Text := bytes.map fun b => Char.ofNat b.toNat

/-! ## Reading back -/

theorem toNat_octet {n : Nat} (h : n < 0x100) : (octet n).toNat = n := by
  have hvalid : n.isValidChar := .inl (by omega)
  rw [octet, Nat.mod_eq_of_lt h, Char.ofNat, dif_pos hvalid]
  rfl

theorem ofOctetsFrom_append (skipped t : Text) :
    ofOctetsFrom skipped.length (skipped ++ t) = ofOctetsFrom 0 t := by
  induction skipped with
  | nil => rfl
  | cons c skipped ih => exact ih

/-- A sequence as its first byte asks for is read as one character. -/
theorem ofOctetsFrom_sequence {first count low high : Nat} {rest : Text} (t : Text)
    (hlow : 0x80 ≤ first) (hhigh : first < 0x100)
    (hshape : sequenceShape? first = some (count, low, high))
    (hrest : continuation count low high (rest ++ t) = rest) (hlength : rest.length = count) :
    ofOctetsFrom 0 (octet first :: (rest ++ t)) = sequenceChar first rest :: ofOctetsFrom 0 t := by
  rw [ofOctetsFrom, toNat_octet hhigh, if_neg (Nat.not_lt.mpr hlow), hshape]
  simp only [hrest, hlength, if_true]
  rw [← hlength, ofOctetsFrom_append]

/-- A byte within the bounds goes on with a sequence. -/
theorem continuation_cons {count low high n : Nat} (hlow : low ≤ n) (hhigh : n ≤ high)
    (h : n < 0x100) (t : Text) :
    continuation (count + 1) low high (octet n :: t) =
      octet n :: continuation count 0x80 0xBF t := by
  rw [continuation, toNat_octet h]
  simp [hlow, hhigh]

/-- The bounds of the second of three bytes leave out what is written in two, and the surrogates. -/
theorem exists_shape_of_three {n : Nat} (hlow : 0x800 ≤ n) (hhigh : n < 0x10000)
    (hvalid : n < 0xD800 ∨ 0xDFFF < n) :
    ∃ low high, sequenceShape? (0xE0 + n / 4096) = some (2, low, high) ∧
      low ≤ 0x80 + n / 64 % 64 ∧ 0x80 + n / 64 % 64 ≤ high := by
  by_cases hfirst : n / 4096 = 0
  · exact ⟨0xA0, 0xBF, by rw [hfirst]; rfl, by omega, by omega⟩
  by_cases hlast : n / 4096 = 13
  · exact ⟨0x80, 0x9F, by rw [hlast]; rfl, by omega, by omega⟩
  refine ⟨0x80, 0xBF, ?_, by omega, by omega⟩
  rw [sequenceShape?, if_neg (by omega), if_neg (by omega), if_neg (by omega), if_neg (by omega),
    if_pos (by omega)]

/-- The bounds of the second of four bytes leave out what is written in three, and what is too
large. -/
theorem exists_shape_of_four {n : Nat} (hlow : 0x10000 ≤ n) (hhigh : n < 0x110000) :
    ∃ low high, sequenceShape? (0xF0 + n / 262144) = some (3, low, high) ∧
      low ≤ 0x80 + n / 4096 % 64 ∧ 0x80 + n / 4096 % 64 ≤ high := by
  by_cases hfirst : n / 262144 = 0
  · exact ⟨0x90, 0xBF, by rw [hfirst]; rfl, by omega, by omega⟩
  by_cases hlast : n / 262144 = 4
  · exact ⟨0x80, 0x8F, by rw [hlast]; rfl, by omega, by omega⟩
  refine ⟨0x80, 0xBF, ?_, by omega, by omega⟩
  rw [sequenceShape?, if_neg (by omega), if_neg (by omega), if_neg (by omega), if_neg (by omega),
    if_neg (by omega), if_neg (by omega), if_pos (by omega)]

/-- The bytes of a character are read as this character. -/
theorem ofOctetsFrom_octetsOf (c : Char) (t : Text) :
    ofOctetsFrom 0 (octetsOf c ++ t) = c :: ofOctetsFrom 0 t := by
  have hchar : Char.ofNat c.toNat = c := Char.ofNat_toNat c
  have hvalid : c.toNat < 0xD800 ∨ 0xDFFF < c.toNat ∧ c.toNat < 0x110000 := c.valid
  have htail (m : Nat) : 0x80 + m % 64 < 0x100 := by omega
  unfold octetsOf
  generalize hn : c.toNat = n at hchar hvalid
  simp only
  split
  · next h1 => rw [List.singleton_append, ofOctetsFrom, hn, if_pos h1]
  · next h1 =>
    split
    · next h2 =>
      have hshape : sequenceShape? (0xC0 + n / 64) = some (1, 0x80, 0xBF) := by
        rw [sequenceShape?, if_neg (by omega), if_pos (by omega)]
      refine (ofOctetsFrom_sequence t (by omega) (by omega) hshape ?_ rfl).trans ?_
      · rw [List.singleton_append, continuation_cons (by omega) (by omega) (htail _), continuation]
      · have hvalue : (0xC0 + n / 64) % 32 * 64 + (0x80 + n / 1 % 64) % 64 = n := by omega
        simp only [sequenceChar, List.foldl, toNat_octet (htail _)]
        exact congrArg (· :: _) ((congrArg Char.ofNat hvalue).trans hchar)
    · next h2 =>
      split
      · next h3 =>
        obtain ⟨low, high, hshape, hlow, hhigh⟩ := exists_shape_of_three (by omega) h3 (by omega)
        refine (ofOctetsFrom_sequence t (by omega) (by omega) hshape ?_ rfl).trans ?_
        · rw [List.cons_append, continuation_cons hlow hhigh (htail _), List.singleton_append,
            continuation_cons (by omega) (by omega) (htail _), continuation]
        · have hvalue : ((0xE0 + n / 4096) % 16 * 64 + (0x80 + n / 64 % 64) % 64) * 64 +
              (0x80 + n / 1 % 64) % 64 = n := by omega
          simp only [sequenceChar, List.foldl, toNat_octet (htail _)]
          exact congrArg (· :: _) ((congrArg Char.ofNat hvalue).trans hchar)
      · next h3 =>
        obtain ⟨low, high, hshape, hlow, hhigh⟩ :=
          exists_shape_of_four (Nat.not_lt.mp h3) (by omega)
        refine (ofOctetsFrom_sequence t (by omega) (by omega) hshape ?_ rfl).trans ?_
        · rw [List.cons_append, continuation_cons hlow hhigh (htail _), List.cons_append,
            continuation_cons (by omega) (by omega) (htail _), List.singleton_append,
            continuation_cons (by omega) (by omega) (htail _), continuation]
        · have hvalue : (((0xF0 + n / 262144) % 8 * 64 + (0x80 + n / 4096 % 64) % 64) * 64 +
              (0x80 + n / 64 % 64) % 64) * 64 + (0x80 + n / 1 % 64) % 64 = n := by omega
          simp only [sequenceChar, List.foldl, toNat_octet (htail _)]
          exact congrArg (· :: _) ((congrArg Char.ofNat hvalue).trans hchar)

/-- A text is read back from its UTF-8 form. -/
theorem ofOctets_toOctets (t : Text) : ofOctets (toOctets t) = t := by
  induction t with
  | nil => rfl
  | cons c t ih =>
    rw [toOctets, List.flatMap_cons, ofOctets, ofOctetsFrom_octetsOf]
    exact congrArg (c :: ·) ih

/-! ## Numbers of bytes -/

theorem toNat_of_mem_octetsOf {c d : Char} (h : d ∈ octetsOf c) : d.toNat < 0x100 := by
  have hoctet (n : Nat) : (octet n).toNat < 0x100 := by
    have heq : octet n = octet (n % 256) := by rw [octet, octet, Nat.mod_mod]
    rw [heq, toNat_octet (by omega)]
    omega
  unfold octetsOf at h
  simp only at h
  split at h
  · next hc =>
    rw [List.mem_singleton.mp h]
    omega
  · repeat' split at h
    all_goals
      simp only [List.mem_cons, List.not_mem_nil, or_false] at h
      rcases h with rfl | rfl | rfl | rfl
    all_goals exact hoctet _

theorem ofOctetValues_octetValues {t : Text} (h : ∀ c ∈ t, c.toNat < 0x100) :
    ofOctetValues (octetValues t) = t := by
  rw [ofOctetValues, octetValues, List.map_map]
  refine (List.map_congr_left fun c hc => ?_).trans (List.map_id t)
  have hsmall : c.toNat.toUInt8.toNat = c.toNat := by
    rw [Nat.toUInt8, UInt8.toNat_ofNat', Nat.mod_eq_of_lt (h c hc)]
  rw [Function.comp_apply, hsmall, Char.ofNat_toNat]
  rfl

end Runbook.Text
