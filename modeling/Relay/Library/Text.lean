import Mathlib.Tactic.Common

/-!
# Text operations of Python's string type

Strings are handled as lists of characters: hexadecimal digits, `replace` by nothing, `strip`,
`split`, `lower`, `isspace`, `decode`, the decimal digits of all scripts, the percent-encoding of
`urllib.parse.quote` and the last component of a path.
-/

namespace Text

universe u

variable {α : Type u}

/-- A hexadecimal digit, in lower case. -/
def hexDigit (n : ℕ) : Char := if n < 10 then Char.ofNat (48 + n) else Char.ofNat (87 + n)

/-- The last `width` hexadecimal digits of `n`. -/
def hex : ℕ → ℕ → List Char
  | 0, _ => []
  | width + 1, n => hex width (n / 16) ++ [hexDigit (n % 16)]

/-- The value of a hexadecimal digit. -/
def hexValue (c : Char) : ℕ := if c.toNat < 58 then c.toNat - 48 else c.toNat - 87

/-- `text.replace(pat, "")`; `skip` counts the characters of an occurrence still to drop. -/
def remove (pat : List Char) : ℕ → List Char → List Char
  | _, [] => []
  | skip + 1, _ :: cs => remove pat skip cs
  | 0, c :: cs =>
    if pat.isPrefixOf (c :: cs) then remove pat (pat.length - 1) cs else c :: remove pat 0 cs

/-- `text.strip(...)` for the characters that meet `p`. -/
def strip (p : Char → Bool) (l : List Char) : List Char :=
  ((l.dropWhile p).reverse.dropWhile p).reverse

/-- `str.isspace`. -/
def isSpace (c : Char) : Bool :=
  let n := c.toNat
  (9 ≤ n && n ≤ 13) || (28 ≤ n && n ≤ 32) || n = 0x85 || n = 0xa0 || n = 0x1680 ||
    (0x2000 ≤ n && n ≤ 0x200a) || n = 0x2028 || n = 0x2029 || n = 0x202f || n = 0x205f || n = 0x3000

/-- The characters `int` drops around a number: `str.isspace` without four ASCII separators. -/
def isIntSpace (c : Char) : Bool := isSpace c && !(28 ≤ c.toNat && c.toNat ≤ 31)

/-- The zeros of the scripts that have decimal digits; the other nine follow each zero. -/
def decimalZeros : List ℕ :=
  [0x30, 0x660, 0x6f0, 0x7c0, 0x966, 0x9e6, 0xa66, 0xae6, 0xb66, 0xbe6, 0xc66, 0xce6, 0xd66, 0xde6,
    0xe50, 0xed0, 0xf20, 0x1040, 0x1090, 0x17e0, 0x1810, 0x1946, 0x19d0, 0x1a80, 0x1a90, 0x1b50,
    0x1bb0, 0x1c40, 0x1c50, 0xa620, 0xa8d0, 0xa900, 0xa9d0, 0xa9f0, 0xaa50, 0xabf0, 0xff10, 0x104a0,
    0x10d30, 0x11066, 0x110f0, 0x11136, 0x111d0, 0x112f0, 0x11450, 0x114d0, 0x11650, 0x116c0,
    0x11730, 0x118e0, 0x11950, 0x11c50, 0x11d50, 0x11da0, 0x11f50, 0x16a60, 0x16ac0, 0x16b50,
    0x1d7ce, 0x1d7d8, 0x1d7e2, 0x1d7ec, 0x1d7f6, 0x1e140, 0x1e2f0, 0x1e4f0, 0x1e950, 0x1fbf0]

/-- The ASCII digit for a decimal digit of any script; other characters stay as they are. -/
def asciiDigit (c : Char) : Char :=
  match decimalZeros.find? fun z => z ≤ c.toNat && c.toNat < z + 10 with
  | some z => Char.ofNat (48 + (c.toNat - z))
  | none => c

/-- The lower case of a character.  Beyond ASCII there are two characters whose lower case has a
letter of ASCII; the others, whose lower case has none, stand for themselves. -/
def lowerChar (c : Char) : List Char :=
  if 65 ≤ c.toNat ∧ c.toNat ≤ 90 then [Char.ofNat (c.toNat + 32)]
  else if c.toNat = 0x130 then ['i', Char.ofNat 0x307]
  else if c.toNat = 0x212a then ['k']
  else [c]

/-- `text.lower()`, as a text is compared with one of ASCII. -/
def lower (s : String) : String := String.ofList (s.toList.flatMap lowerChar)

/-- `data.decode()`; `none` is `UnicodeDecodeError`. -/
def decode (data : List UInt8) : Option String := String.fromUTF8? data.toByteArray

/-- A byte of `data.lower()`. -/
def lowerByte (b : UInt8) : UInt8 := if 65 ≤ b ∧ b ≤ 90 then b + 32 else b

/-- The byte of an ASCII character. -/
def byte (c : Char) : UInt8 := c.toNat.toUInt8

/-- A lower-case letter of ASCII that no character beyond ASCII has in its lower case. -/
def IsPlainLower (c : Char) : Prop := 97 ≤ c.toNat ∧ c.toNat ≤ 122 ∧ c ≠ 'i' ∧ c ≠ 'k'

/-- The bytes of a text in UTF-8. -/
def utf8 (s : String) : List ℕ := s.toUTF8.toList.map UInt8.toNat

/-- The bytes `quote` never encodes. -/
def unreserved (b : ℕ) : Bool :=
  (48 ≤ b && b ≤ 57) || (65 ≤ b && b ≤ 90) || (97 ≤ b && b ≤ 122) ||
    b = 95 || b = 46 || b = 45 || b = 126

/-- A hexadecimal digit, in upper case. -/
def upperDigit (n : ℕ) : Char := if n < 10 then Char.ofNat (48 + n) else Char.ofNat (55 + n)

/-- `urllib.parse.quote(text, safe="/")`. -/
def quote (s : String) : String :=
  String.ofList ((utf8 s).flatMap fun b =>
    if unreserved b || b = 47 then [Char.ofNat b] else ['%', upperDigit (b / 16), upperDigit (b % 16)])

/-- `urllib.parse.quote_plus(text)`. -/
def quotePlus (s : String) : String :=
  String.ofList ((utf8 s).flatMap fun b =>
    if unreserved b then [Char.ofNat b] else if b = 32 then ['+']
    else ['%', upperDigit (b / 16), upperDigit (b % 16)])

/-- `urllib.parse.urlencode(fields)`. -/
def urlencode (fields : List (String × String)) : String :=
  "&".intercalate (fields.map fun f => quotePlus f.1 ++ "=" ++ quotePlus f.2)

/-- The components of a text between the characters that meet `p`. -/
def splitOn (p : α → Bool) : List α → List (List α)
  | [] => [[]]
  | c :: cs => if p c then [] :: splitOn p cs else
    match splitOn p cs with
    | [] => [[c]]
    | w :: ws => (c :: w) :: ws

/-- The components that are not empty. -/
def words (p : α → Bool) (l : List α) : List (List α) := (splitOn p l).filter fun w => !w.isEmpty

/-- `PurePosixPath(text).name`: the last component that is neither empty nor a dot. -/
def pathName (l : List Char) : List Char :=
  (((splitOn (· = '/') l).filter fun w => w ≠ [] && w ≠ ['.']).getLast?).getD []

/-- A path without its empty and `.` segments, where `..` takes back the segment before it. -/
def resolveDots (segments : List (List Char)) : List (List Char) :=
  segments.foldl (fun path w => if w = [] ∨ w = ['.'] then path
    else if w = ['.', '.'] then path.dropLast else path ++ [w]) []

/-- A segment that stands for itself. -/
def IsPlain (w : List Char) : Prop := w ≠ [] ∧ w ≠ ['.'] ∧ w ≠ ['.', '.']

theorem length_hex (w n : ℕ) : (hex w n).length = w := by
  induction w generalizing n with
  | zero => rfl
  | succ w ih => simp [hex, ih]

theorem remove_of_not_mem {pat l : List Char} {c : Char} (hc : c ∉ l) :
    remove (c :: pat) 0 l = l := by
  induction l with
  | nil => rfl
  | cons d l ih =>
    simp only [List.mem_cons, not_or] at hc
    have : (c :: pat).isPrefixOf (d :: l) = false := by
      rw [List.isPrefixOf, beq_false_of_ne hc.1, Bool.false_and]
    rw [remove, this, ih hc.2]
    simp

theorem strip_of_forall {p : Char → Bool} {l : List Char} (h : ∀ c ∈ l, p c = false) :
    strip p l = l := by
  have drop : ∀ m : List Char, (∀ c ∈ m, p c = false) → m.dropWhile p = m := by
    intro m hm
    cases m with
    | nil => rfl
    | cons c m => rw [List.dropWhile_cons, hm c (by simp)]; rfl
  rw [strip, drop l h, drop _ fun c hc => h c (List.mem_reverse.1 hc), List.reverse_reverse]

/-- What stands before and after the last separator is determined by the whole. -/
theorem append_separator_inj {c : Char} {p p' q q' : List Char} (hq : c ∉ q) (hq' : c ∉ q')
    (h : p ++ c :: q = p' ++ c :: q') : p = p' ∧ q = q' := by
  have hrest : ∀ {a r r' : List Char}, c ∉ r → c :: r = a ++ c :: r' → a = [] ∧ r = r' := by
    intro a r r' hr heq
    cases a with
    | nil => exact ⟨rfl, (List.cons.inj heq).2⟩
    | cons x a =>
      obtain ⟨-, rfl⟩ := List.cons.inj heq
      exact absurd (List.mem_append_right _ List.mem_cons_self) hr
  rcases List.append_eq_append_iff.1 h with ⟨a, rfl, heq⟩ | ⟨a, rfl, heq⟩
  · obtain ⟨rfl, rfl⟩ := hrest hq heq
    exact ⟨(List.append_nil _).symm, rfl⟩
  · obtain ⟨rfl, rfl⟩ := hrest hq' heq
    exact ⟨List.append_nil _, rfl⟩

theorem splitOn_ne_nil (p : α → Bool) (l : List α) : splitOn p l ≠ [] := by
  cases l with
  | nil => simp [splitOn]
  | cons c l =>
    unfold splitOn
    split
    · simp
    · split <;> simp

/-- A text without separators is one component. -/
theorem splitOn_of_forall {p : α → Bool} {l : List α} (h : ∀ c ∈ l, p c = false) :
    splitOn p l = [l] := by
  induction l with
  | nil => rfl
  | cons c l ih =>
    rw [splitOn, h c (by simp), ih fun d hd => h d (by simp [hd])]
    rfl

/-- The components before and after a separator. -/
theorem splitOn_append_cons {p : α → Bool} {c : α} (hc : p c = true) (a b : List α) :
    splitOn p (a ++ c :: b) = splitOn p a ++ splitOn p b := by
  induction a with
  | nil => simp [splitOn, hc]
  | cons d a ih =>
    rw [List.cons_append, splitOn, splitOn, ih]
    split
    · rfl
    · cases h : splitOn p a with
      | nil => exact absurd h (splitOn_ne_nil p a)
      | cons w ws => rfl

/-- The component before the first separator. -/
theorem splitOn_segment {p : α → Bool} {c : α} (hc : p c = true) {a : List α}
    (ha : ∀ d ∈ a, p d = false) (b : List α) : splitOn p (a ++ c :: b) = a :: splitOn p b := by
  rw [splitOn_append_cons hc, splitOn_of_forall ha]
  rfl

/-- No component contains a separator. -/
theorem not_mem_of_mem_splitOn {p : α → Bool} {l w : List α} (h : w ∈ splitOn p l) :
    ∀ c ∈ w, p c = false := by
  induction l generalizing w with
  | nil =>
    rw [splitOn, List.mem_singleton] at h
    simp [h]
  | cons d l ih =>
    rw [splitOn] at h
    split at h
    · rcases List.mem_cons.1 h with rfl | h
      · simp
      · exact ih h
    · rename_i hd
      rw [Bool.not_eq_true] at hd
      cases hl : splitOn p l with
      | nil => exact absurd hl (splitOn_ne_nil p l)
      | cons v ws =>
        simp only [hl] at h
        rcases List.mem_cons.1 h with rfl | h
        · intro c hc
          rcases List.mem_cons.1 hc with rfl | hc
          · exact hd
          · exact ih (by simp [hl]) c hc
        · exact ih (by simp [hl, h])

/-- A text without components is made of separators. -/
theorem words_eq_nil {p : α → Bool} {l : List α} : words p l = [] ↔ ∀ c ∈ l, p c = true := by
  induction l with
  | nil => simp [words, splitOn]
  | cons c l ih =>
    rw [List.forall_mem_cons, ← ih, words, splitOn]
    cases hc : p c with
    | true => simp [words]
    | false =>
      cases hl : splitOn p l with
      | nil => exact absurd hl (splitOn_ne_nil p l)
      | cons w ws => simp

/-- A path of plain segments stands for itself. -/
theorem resolveDots_of_plain {l : List (List Char)} (h : ∀ w ∈ l, IsPlain w) : resolveDots l = l := by
  unfold resolveDots
  suffices hfold : ∀ path : List (List Char), l.foldl (fun path w => if w = [] ∨ w = ['.'] then path
      else if w = ['.', '.'] then path.dropLast else path ++ [w]) path = path ++ l from hfold []
  induction l with
  | nil => simp
  | cons w l ih =>
    intro path
    obtain ⟨hnil, hdot, hdots⟩ := h w (by simp)
    rw [List.foldl_cons, if_neg (by simp [hnil, hdot]), if_neg hdots, ih fun v hv => h v (by simp [hv])]
    simp

/-! ### Bytes of ASCII texts -/

theorem decode_eq_some {data : List UInt8} {t : String} :
    decode data = some t ↔ data = t.toList.flatMap String.utf8EncodeChar := by
  have hbytes : t.toByteArray = (t.toList.flatMap String.utf8EncodeChar).toByteArray := by
    rw [← List.utf8Encode, ← String.toByteArray_ofList, String.ofList_toList]
  unfold decode String.fromUTF8?
  constructor
  · intro h
    split at h
    · obtain rfl := Option.some.inj h
      have : data.toByteArray = _ := hbytes
      simpa using congrArg (fun b => b.data.toList) this
    · cases h
  · rintro rfl
    have : (t.toList.flatMap String.utf8EncodeChar).toByteArray.IsValidUTF8 := hbytes ▸ t.isValidUTF8
    rw [dif_pos this]
    congr 1
    exact String.toByteArray_inj.1 hbytes.symm

theorem ascii_forall {P : Char → Prop} (h : ∀ n : Fin 128, P (Char.ofNat n)) {c : Char}
    (hc : c.toNat < 128) : P c := by
  simpa using h ⟨c.toNat, hc⟩

theorem lowerChar_of_ascii {c : Char} (h : c.toNat < 128) : lowerChar c = [c.toLower] :=
  ascii_forall (P := fun c => lowerChar c = [c.toLower]) (by decide) h

theorem utf8EncodeChar_of_ascii {c : Char} (h : c.toNat < 128) :
    String.utf8EncodeChar c = [byte c] :=
  ascii_forall (P := fun c => String.utf8EncodeChar c = [byte c]) (by decide) h

theorem lowerByte_byte {c : Char} (h : c.toNat < 128) : lowerByte (byte c) = byte c.toLower :=
  ascii_forall (P := fun c => lowerByte (byte c) = byte c.toLower) (by decide) h

theorem toNat_lt_of_lowerChar {c : Char} (h : ∀ d ∈ lowerChar c, IsPlainLower d) : c.toNat < 128 := by
  unfold lowerChar at h
  split_ifs at h with hupper hdot hkelvin
  · omega
  · exact absurd rfl (h 'i' (by simp)).2.2.1
  · exact absurd rfl (h 'k' (by simp)).2.2.2
  · have := (h c (by simp)).2.1
    omega

/-- A text of ASCII is read from its bytes. -/
theorem decode_map_byte {l : List Char} (h : ∀ c ∈ l, c.toNat < 128) :
    decode (l.map byte) = some (String.ofList l) := by
  rw [decode_eq_some, String.toList_ofList]
  induction l with
  | nil => rfl
  | cons c l ih =>
    rw [List.map_cons, List.flatMap_cons, utf8EncodeChar_of_ascii (h c List.mem_cons_self),
      ih fun d hd => h d (List.mem_cons_of_mem c hd)]
    rfl

theorem lower_ofList {l : List Char} (h : ∀ c ∈ l, c.toNat < 128) :
    lower (String.ofList l) = String.ofList (l.map Char.toLower) := by
  rw [lower, String.toList_ofList]
  congr 1
  induction l with
  | nil => rfl
  | cons c l ih =>
    rw [List.flatMap_cons, lowerChar_of_ascii (h c List.mem_cons_self),
      ih fun d hd => h d (List.mem_cons_of_mem c hd)]
    rfl

theorem map_lowerByte {l : List Char} (h : ∀ c ∈ l, c.toNat < 128) :
    (l.map byte).map lowerByte = (l.map Char.toLower).map byte := by
  rw [List.map_map, List.map_map]
  exact List.map_congr_left fun c hc => lowerByte_byte (h c hc)

theorem char_byte {c : Char} (h : c.toNat < 128) : Char.ofNat (byte c).toNat = c :=
  ascii_forall (P := fun c => Char.ofNat (byte c).toNat = c) (by decide) h

theorem map_char_byte {l : List Char} (h : ∀ c ∈ l, c.toNat < 128) :
    (l.map byte).map (fun b => Char.ofNat b.toNat) = l := by
  rw [List.map_map]
  exact (List.map_congr_left fun c hc => char_byte (h c hc)).trans (List.map_id _)

theorem exists_ascii {data : List UInt8} (h : ∀ b ∈ data, b.toNat < 128) :
    ∃ l : List Char, (∀ c ∈ l, c.toNat < 128) ∧ data = l.map byte := by
  have hbyte : ∀ n : Fin 128, (Char.ofNat n).toNat < 128 ∧ byte (Char.ofNat n) = n.val.toUInt8 := by
    decide
  refine ⟨data.map fun b => Char.ofNat b.toNat, fun c hc => ?_, ?_⟩
  · obtain ⟨b, hb, rfl⟩ := List.mem_map.1 hc
    exact (hbyte ⟨b.toNat, h b hb⟩).1
  · rw [List.map_map]
    refine ((List.map_congr_left fun b hb => ?_).trans (List.map_id _)).symm
    simpa using (hbyte ⟨b.toNat, h b hb⟩).2

theorem toNat_lt_of_lowerByte {b : UInt8} (h : (lowerByte b).toNat < 128) : b.toNat < 128 := by
  unfold lowerByte at h
  split_ifs at h with hupper
  · have := UInt8.le_iff_toNat_le.1 hupper.2
    have h90 : (90 : UInt8).toNat = 90 := rfl
    omega
  · exact h

/-- **Bytes that spell a word in any case.**  They decode to a text whose lower case is the word
exactly when their own lower case is the bytes of the word. -/
theorem exists_decode_lower_iff {data : List UInt8} {w : List Char} (hw : ∀ d ∈ w, IsPlainLower d) :
    (∃ t, decode data = some t ∧ lower t = String.ofList w) ↔ data.map lowerByte = w.map byte := by
  constructor
  · rintro ⟨t, hdecode, hlower⟩
    have hflat : t.toList.flatMap lowerChar = w := String.ofList_inj.1 hlower
    have hascii : ∀ c ∈ t.toList, c.toNat < 128 := fun c hc =>
      toNat_lt_of_lowerChar fun d hd => hw d (hflat ▸ List.mem_flatMap.2 ⟨c, hc, hd⟩)
    have hdata : data = t.toList.map byte := by
      rw [decode_eq_some.1 hdecode, decode_eq_some.1 (decode_map_byte hascii), String.toList_ofList]
    have hlow : t.toList.map Char.toLower = w := by
      rw [← String.ofList_inj, ← lower_ofList hascii, String.ofList_toList, hlower]
    rw [hdata, map_lowerByte hascii, hlow]
  · intro h
    have hword : ∀ d ∈ w, d.toNat < 128 := fun d hd => by have := (hw d hd).2.1; omega
    have hlt : ∀ b ∈ data, b.toNat < 128 := fun b hb => by
      obtain ⟨d, hd, hbd⟩ := List.mem_map.1 (h ▸ List.mem_map_of_mem (f := lowerByte) hb)
      refine toNat_lt_of_lowerByte (hbd ▸ ?_)
      have hd' := hword d hd
      exact ascii_forall (P := fun c => (byte c).toNat < 128) (by decide) hd'
    obtain ⟨l, hascii, rfl⟩ := exists_ascii hlt
    refine ⟨String.ofList l, decode_map_byte hascii, ?_⟩
    have hlower : ∀ c ∈ l.map Char.toLower, c.toNat < 128 := by
      intro c hc
      obtain ⟨a, ha, rfl⟩ := List.mem_map.1 hc
      exact ascii_forall (P := fun c => c.toLower.toNat < 128) (by decide) (hascii a ha)
    rw [lower_ofList hascii, ← map_char_byte hlower, ← map_lowerByte hascii, h,
      map_char_byte hword]

end Text
