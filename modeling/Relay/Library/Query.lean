import Mathlib.Data.List.Basic
import Relay.Library.Text

/-!
# Reading a query string

`Text.urlencode` writes fields as a query string.  Here is how a server reads one: the fields stand
between ampersands, a plus sign is a space, and `%XX` is the byte that the digits stand for.

* `Query.bytes`: the bytes that a text stands for;
* `Query.parse`: the fields of a query string;
* `parse_urlencode`: what is written is what is read, whatever the fields contain.
-/

namespace Query

open Text

/-! ### Components -/

/-- The value of a hexadecimal digit, in either case. -/
def digitValue (c : Char) : Option ℕ :=
  if 48 ≤ c.toNat ∧ c.toNat ≤ 57 then some (c.toNat - 48)
  else if 65 ≤ c.toNat ∧ c.toNat ≤ 70 then some (c.toNat - 55)
  else if 97 ≤ c.toNat ∧ c.toNat ≤ 102 then some (c.toNat - 87)
  else none

/-- The bytes that a text stands for; a percent sign without two digits stands for itself. -/
def bytes : List Char → List UInt8
  | [] => []
  | '%' :: a :: b :: l =>
    match digitValue a, digitValue b with
    | some x, some y => (16 * x + y).toUInt8 :: bytes l
    | _, _ => 37 :: bytes (a :: b :: l)
  | '+' :: l => 32 :: bytes l
  | c :: l => String.utf8EncodeChar c ++ bytes l

/-- The text that a component stands for. -/
def component (l : List Char) : Option String := decode (bytes l)

/-- The bytes of a text that `quote_plus` writes. -/
def written (b : ℕ) : List Char :=
  if unreserved b then [Char.ofNat b] else if b = 32 then ['+']
  else ['%', upperDigit (b / 16), upperDigit (b % 16)]

theorem digitValue_upperDigit {n : ℕ} (h : n < 16) : digitValue (upperDigit n) = some n := by
  have hall : ∀ n : Fin 16, digitValue (upperDigit n) = some n.val := by decide
  exact hall ⟨n, h⟩

/-- Any other character stands for itself. -/
theorem bytes_cons {c : Char} (hpercent : c ≠ '%') (hplus : c ≠ '+') (l : List Char) :
    bytes (c :: l) = String.utf8EncodeChar c ++ bytes l := by
  rw [bytes.eq_def]
  split <;> simp_all

/-- A byte that is never encoded is written as its character, which stands for itself. -/
theorem written_unreserved {b : ℕ} (h : unreserved b = true) :
    b < 128 ∧ Char.ofNat b ≠ '%' ∧ Char.ofNat b ≠ '+' ∧ Char.ofNat b ≠ '&' ∧ Char.ofNat b ≠ '=' ∧
      String.utf8EncodeChar (Char.ofNat b) = [b.toUInt8] := by
  have hb : b < 128 := by
    simp only [unreserved, Bool.or_eq_true, Bool.and_eq_true, decide_eq_true_eq] at h
    omega
  have hall : ∀ b : Fin 128, unreserved b = true → Char.ofNat b ≠ '%' ∧ Char.ofNat b ≠ '+' ∧
      Char.ofNat b ≠ '&' ∧ Char.ofNat b ≠ '=' ∧
        String.utf8EncodeChar (Char.ofNat b) = [b.val.toUInt8] := by decide
  exact ⟨hb, hall ⟨b, hb⟩ h⟩

/-- What is written for a byte is read as this byte. -/
theorem bytes_written {b : ℕ} (hb : b < 256) (l : List Char) :
    bytes (written b ++ l) = b.toUInt8 :: bytes l := by
  unfold written
  split
  · rename_i h
    obtain ⟨-, hpercent, hplus, -, -, hself⟩ := written_unreserved h
    rw [List.singleton_append, bytes_cons hpercent hplus, hself]
    rfl
  split
  · rename_i h
    rw [h]
    rfl
  · have hhigh : digitValue (upperDigit (b / 16)) = some (b / 16) := digitValue_upperDigit (by omega)
    have hlow : digitValue (upperDigit (b % 16)) = some (b % 16) := digitValue_upperDigit (by omega)
    simp only [List.cons_append, List.nil_append, bytes, hhigh, hlow]
    rw [Nat.div_add_mod]

theorem bytes_flatMap_written {l : List UInt8} :
    bytes ((l.map UInt8.toNat).flatMap written) = l := by
  induction l with
  | nil => rfl
  | cons b l ih =>
    rw [List.map_cons, List.flatMap_cons, bytes_written b.toNat_lt, ih]
    simp

theorem toList_quotePlus (s : String) : (quotePlus s).toList = (utf8 s).flatMap written := by
  unfold quotePlus
  rw [String.toList_ofList]
  rfl

theorem toList_data (data : ByteArray) : data.toList = data.data.toList := by
  have hloop : ∀ i r, ByteArray.toList.loop data i r = r.reverse ++ data.data.toList.drop i := by
    intro i r
    fun_induction ByteArray.toList.loop data i r with
    | case1 i r h ih =>
      have hi : i < data.data.toList.length := by simpa using h
      have hget : data.get! i = data.data.toList[i] := by
        simp only [ByteArray.get!, Array.getElem_toList]
        exact getElem!_pos data.data i (by simpa using hi)
      rw [ih, List.drop_eq_getElem_cons hi, List.reverse_cons, List.append_assoc, hget]
      rfl
    | case2 i r h =>
      have hi : data.data.toList.length ≤ i := by simpa using h
      rw [List.drop_eq_nil_of_le hi, List.append_nil]
  exact hloop 0 []

/-- **A text that is quoted is read as it was.** -/
theorem component_quotePlus (s : String) : component (quotePlus s).toList = some s := by
  unfold component
  rw [toList_quotePlus, utf8, bytes_flatMap_written, decode_eq_some, toList_data]
  have hbytes : s.toUTF8 = (s.toList.flatMap String.utf8EncodeChar).toByteArray := by
    rw [← List.utf8Encode, ← String.toByteArray_ofList, String.ofList_toList]
    rfl
  simpa using congrArg (fun b => b.data.toList) hbytes

/-- What is quoted contains no separator. -/
theorem not_mem_quotePlus {s : String} {c : Char} (hc : c = '&' ∨ c = '=') : c ∉ (quotePlus s).toList := by
  have hdigit : ∀ n : Fin 16, upperDigit n ≠ '&' ∧ upperDigit n ≠ '=' := by decide
  rw [toList_quotePlus, List.mem_flatMap]
  rintro ⟨b, hb, hmem⟩
  obtain ⟨b, -, rfl⟩ := List.mem_map.1 hb
  have hlt := b.toNat_lt
  unfold written at hmem
  split at hmem
  · rename_i h
    obtain ⟨-, -, -, hamp, heq, -⟩ := written_unreserved h
    rw [List.mem_singleton] at hmem
    rcases hc with rfl | rfl
    · exact hamp hmem.symm
    · exact heq hmem.symm
  split at hmem
  · rcases hc with rfl | rfl <;> simp at hmem
  · have hhigh := hdigit ⟨b.toNat / 16, by omega⟩
    have hlow := hdigit ⟨b.toNat % 16, by omega⟩
    simp only [List.mem_cons, List.not_mem_nil, or_false] at hmem
    rcases hc with rfl | rfl
    · rcases hmem with hmem | hmem | hmem
      · cases hmem
      · exact hhigh.1 hmem.symm
      · exact hlow.1 hmem.symm
    · rcases hmem with hmem | hmem | hmem
      · cases hmem
      · exact hhigh.2 hmem.symm
      · exact hlow.2 hmem.symm

/-! ### Fields -/

/-- A field: its name stands before the first equals sign. -/
def field (l : List Char) : Option (String × String) := do
  let name ← component (l.takeWhile (· ≠ '='))
  let value ← component ((l.dropWhile (· ≠ '=')).drop 1)
  some (name, value)

/-- The fields of a query string. -/
def parse (text : String) : Option (List (String × String)) :=
  (words (· = '&') text.toList).mapM field

theorem field_written (f : String × String) :
    field ((quotePlus f.1).toList ++ '=' :: (quotePlus f.2).toList) = some f := by
  have hname : ∀ c ∈ (quotePlus f.1).toList, decide (c ≠ '=') = true := by
    intro c hc
    exact decide_eq_true fun he => not_mem_quotePlus (.inr he) hc
  unfold field
  rw [List.takeWhile_append_of_pos hname, List.dropWhile_append_of_pos hname]
  simp [component_quotePlus]

/-- Texts without separators, written between separators, are the components. -/
theorem splitOn_intercalate {α : Type*} [DecidableEq α] {c : α} {ws : List (List α)} (hws : ws ≠ [])
    (h : ∀ w ∈ ws, c ∉ w) : splitOn (· = c) ([c].intercalate ws) = ws := by
  induction ws with
  | nil => exact absurd rfl hws
  | cons w ws ih =>
    have hw : ∀ d ∈ w, decide (d = c) = false := fun d hd =>
      decide_eq_false fun he => h w List.mem_cons_self (he ▸ hd)
    cases ws with
    | nil => simpa using splitOn_of_forall hw
    | cons v ws =>
      have hrest := ih (by simp) fun x hx => h x (List.mem_cons_of_mem _ hx)
      rw [List.intercalate_cons_cons, List.append_assoc, List.singleton_append,
        splitOn_segment (by simp) hw, hrest]

/-- What is written for a field. -/
def segment (f : String × String) : List Char := (quotePlus f.1).toList ++ '=' :: (quotePlus f.2).toList

theorem toList_segment (f : String × String) :
    (quotePlus f.1 ++ "=" ++ quotePlus f.2).toList = segment f := by
  simp [segment]

theorem mapM_field_segment (fields : List (String × String)) :
    (fields.map segment).mapM field = some fields := by
  induction fields with
  | nil => rfl
  | cons f fields ih =>
    have hf : field (segment f) = some f := field_written f
    rw [List.map_cons, List.mapM_cons, hf, ih]
    rfl

/-- **The fields that are written are the fields that are read.** -/
theorem parse_urlencode (fields : List (String × String)) : parse (urlencode fields) = some fields := by
  have hwords : (fields.map fun f => quotePlus f.1 ++ "=" ++ quotePlus f.2).map String.toList =
      fields.map segment := by
    rw [List.map_map]
    exact List.map_congr_left fun f _ => toList_segment f
  have hsep : ∀ w ∈ fields.map segment, '&' ∉ w := by
    rintro w hw hmem
    obtain ⟨f, -, rfl⟩ := List.mem_map.1 hw
    rcases List.mem_append.1 hmem with hmem | hmem
    · exact not_mem_quotePlus (.inl rfl) hmem
    · rcases List.mem_cons.1 hmem with hmem | hmem
      · cases hmem
      · exact not_mem_quotePlus (.inl rfl) hmem
  have hnonempty : ∀ w ∈ fields.map segment, (!w.isEmpty) = true := by
    intro w hw
    obtain ⟨f, -, rfl⟩ := List.mem_map.1 hw
    simp [segment]
  unfold parse urlencode words
  rw [String.toList_intercalate, hwords, show "&".toList = ['&'] from rfl]
  by_cases hnil : fields.map segment = []
  · rw [List.map_eq_nil_iff] at hnil
    rw [hnil]
    rfl
  · rw [splitOn_intercalate hnil hsep, List.filter_eq_self.2 hnonempty, mapM_field_segment]

end Query
