import Mathlib.Tactic
import Relay.Library.Text

/-!
# UUIDs and their texts

A UUID is a 128-bit number.  `Uuid.text` is its canonical text and `Uuid.parse` reads any text
that Python's `uuid.UUID` reads: upper or lower case, with or without hyphens, braced, with a
`urn:` or `uuid:` prefix.

* `Uuid.parse_text`: the canonical text is read back;
* `Uuid.text_injective`: it determines the UUID.
-/

/-- A 128-bit identifier. -/
structure Uuid where
  bits : BitVec 128
  deriving DecidableEq

namespace Uuid

open Text

instance : Inhabited Uuid := ⟨⟨0⟩⟩

/-- The UUID of a number. -/
def ofNat (n : ℕ) : Uuid := ⟨BitVec.ofNat 128 n⟩

/-- The 32 hexadecimal digits. -/
def digits (u : Uuid) : List Char := hex 32 u.bits.toNat

/-- The canonical text: groups of 8, 4, 4, 4 and 12 digits. -/
def chars (u : Uuid) : List Char :=
  u.digits.take 8 ++ '-' :: (u.digits.drop 8).take 4 ++ '-' :: (u.digits.drop 12).take 4 ++
    '-' :: (u.digits.drop 16).take 4 ++ '-' :: u.digits.drop 20

/-- `str(uuid)`. -/
def text (u : Uuid) : String := String.ofList u.chars

/-! ### Reading -/

/-- The value of a hexadecimal digit of either case. -/
def digitValue (c : Char) : Option ℕ :=
  if '0' ≤ c ∧ c ≤ '9' then some (c.toNat - 48)
  else if 'a' ≤ c ∧ c ≤ 'f' then some (c.toNat - 87)
  else if 'A' ≤ c ∧ c ≤ 'F' then some (c.toNat - 55)
  else none

/-- Digits with single underscores between them; `gap` says that a digit must come next. -/
def readDigits : Bool → ℕ → List Char → Option ℕ
  | gap, acc, [] => if gap then none else some acc
  | gap, acc, c :: cs =>
    if c = '_' then if gap then none else readDigits true acc cs
    else (digitValue c).bind fun d => readDigits false (16 * acc + d) cs

/-- The optional prefix of a hexadecimal literal, and the underscore that may follow it. -/
def dropPrefix : List Char → List Char
  | '0' :: 'x' :: '_' :: cs => cs
  | '0' :: 'X' :: '_' :: cs => cs
  | '0' :: 'x' :: cs => cs
  | '0' :: 'X' :: cs => cs
  | cs => cs

/-- `int(text, 16)` of a text without a minus sign. -/
def readInt (l : List Char) : Option ℕ :=
  let l := strip isIntSpace (l.map asciiDigit)
  let l := if l.head? = some '+' then l.tail else l
  readDigits true 0 (dropPrefix l)

/-- `uuid.UUID(text)`; `none` is `ValueError`. -/
def parse (s : String) : Option Uuid :=
  let l := remove "uuid:".toList 0 (remove "urn:".toList 0 s.toList)
  let l := (strip (fun c => c = '{' || c = '}') l).filter fun c => c ≠ '-'
  if l.length = 32 then (readInt l).map ofNat else none

/-! ### The round trip -/

/-- The characters of canonical digits. -/
def IsDigit (c : Char) : Prop := ∃ n : Fin 16, c = hexDigit n

theorem isDigit_hexDigit (n : ℕ) : IsDigit (hexDigit (n % 16)) :=
  ⟨⟨n % 16, Nat.mod_lt _ (by decide)⟩, rfl⟩

theorem isDigit_of_mem_hex {w n : ℕ} {c : Char} (h : c ∈ hex w n) : IsDigit c := by
  induction w generalizing n with
  | zero => simp [hex] at h
  | succ w ih =>
    rcases List.mem_append.1 h with h | h
    · exact ih h
    · rw [List.mem_singleton.1 h]
      exact isDigit_hexDigit n

theorem IsDigit.ne_slash {c : Char} (h : IsDigit c) : c ≠ '/' := by
  obtain ⟨n, rfl⟩ := h
  revert n
  decide

/-- What a digit is not, and its value. -/
theorem IsDigit.spec {c : Char} (h : IsDigit c) :
    c ≠ 'u' ∧ c ≠ '{' ∧ c ≠ '}' ∧ c ≠ '-' ∧ c ≠ '+' ∧ c ≠ 'x' ∧ c ≠ 'X' ∧ c ≠ '_' ∧
      isIntSpace c = false := by
  obtain ⟨n, rfl⟩ := h
  revert n
  decide

theorem IsDigit.asciiDigit {c : Char} (h : IsDigit c) : asciiDigit c = c := by
  obtain ⟨n, rfl⟩ := h
  revert n
  decide

theorem digitValue_hexDigit (n : ℕ) : digitValue (hexDigit (n % 16)) = some (n % 16) := by
  have : ∀ m : Fin 16, digitValue (hexDigit m) = some m.val := by decide
  exact this ⟨n % 16, Nat.mod_lt _ (by decide)⟩

theorem readDigits_append_hex (w n acc : ℕ) (gap : Bool) (hw : gap = true → w ≠ 0) :
    readDigits gap acc (hex w n) = some (acc * 16 ^ w + n % 16 ^ w) := by
  have step : ∀ (l : List Char) (gap : Bool) (acc m k : ℕ), (∀ c ∈ l, IsDigit c) →
      (gap = true → l ≠ []) → readDigits gap acc l = some m →
      readDigits gap acc (l ++ [hexDigit (k % 16)]) = some (16 * m + k % 16) := by
    intro l
    induction l with
    | nil =>
      intro gap acc m k _ hgap h
      cases gap with
      | true => exact absurd rfl (hgap rfl)
      | false =>
        obtain rfl : acc = m := by simpa [readDigits] using h
        have := (isDigit_hexDigit k).spec.2.2.2.2.2.2.2.1
        simp [readDigits, this, digitValue_hexDigit]
    | cons c l ih =>
      intro gap acc m k hl hgap h
      have hc := (hl c (by simp)).spec.2.2.2.2.2.2.2.1
      rw [readDigits, if_neg hc] at h
      obtain ⟨d, hd, h⟩ := Option.bind_eq_some_iff.1 h
      rw [List.cons_append, readDigits, if_neg hc, hd, Option.bind_some]
      exact ih false _ m k (fun x hx => hl x (by simp [hx])) (by simp) h
  induction w generalizing n with
  | zero =>
    cases gap with
    | true => exact absurd rfl (hw rfl)
    | false => simp [hex, readDigits, Nat.mod_one]
  | succ w ih =>
    rw [hex]
    by_cases h0 : w = 0
    · subst h0
      have hne := (isDigit_hexDigit n).spec.2.2.2.2.2.2.2.1
      simp [hex, readDigits, hne, digitValue_hexDigit, Nat.mul_comm]
    · rw [step (hex w (n / 16)) gap acc _ n (fun c => isDigit_of_mem_hex)
        (fun _ he => h0 (by simpa [he] using (length_hex w (n / 16)).symm))
        (ih (n / 16) fun _ => h0)]
      congr 1
      have h1 : n % 16 ^ (w + 1) = 16 * (n / 16 % 16 ^ w) + n % 16 := by
        rw [pow_succ, mul_comm (16 ^ w) 16, Nat.mod_mul]; omega
      rw [h1, pow_succ]; ring

theorem readInt_hex (n : ℕ) : readInt (hex 32 n) = some (n % 16 ^ 32) := by
  have hd : ∀ c ∈ hex 32 n, IsDigit c := fun c => isDigit_of_mem_hex
  obtain ⟨a, b, tl, hl⟩ : ∃ a b tl, hex 32 n = a :: b :: tl := by
    have := length_hex 32 n
    match hm : hex 32 n with
    | [] => simp [hm] at this
    | [_] => simp [hm] at this
    | a :: b :: tl => exact ⟨a, b, tl, rfl⟩
  have ha := (hd a (by simp [hl])).spec
  have hb := (hd b (by simp [hl])).spec
  have hp : dropPrefix (hex 32 n) = hex 32 n := by
    rw [hl]
    unfold dropPrefix
    split <;> simp_all
  have hplus : ¬ (hex 32 n).head? = some '+' := by
    rw [hl]; simpa using ha.2.2.2.2.1
  have hsame : (hex 32 n).map Text.asciiDigit = hex 32 n :=
    (List.map_congr_left fun c hc => (hd c hc).asciiDigit).trans (List.map_id _)
  rw [readInt, hsame, strip_of_forall fun c hc => (hd c hc).spec.2.2.2.2.2.2.2.2]
  simp only [if_neg hplus, hp]
  rw [readDigits_append_hex 32 n 0 true (by simp), zero_mul, zero_add]

theorem isDigit_or_hyphen {u : Uuid} {c : Char} (h : c ∈ u.chars) : IsDigit c ∨ c = '-' := by
  have hd : ∀ c ∈ u.digits, IsDigit c := fun c => isDigit_of_mem_hex
  simp only [chars, List.mem_append, List.mem_cons] at h
  rcases h with (((h | rfl | h) | rfl | h) | rfl | h) | rfl | h
  · exact .inl (hd c (List.mem_of_mem_take h))
  · exact .inr rfl
  · exact .inl (hd c (List.mem_of_mem_drop (List.mem_of_mem_take h)))
  · exact .inr rfl
  · exact .inl (hd c (List.mem_of_mem_drop (List.mem_of_mem_take h)))
  · exact .inr rfl
  · exact .inl (hd c (List.mem_of_mem_drop (List.mem_of_mem_take h)))
  · exact .inr rfl
  · exact .inl (hd c (List.mem_of_mem_drop h))

theorem filter_chars (u : Uuid) : (u.chars.filter fun c => c ≠ '-') = u.digits := by
  have hd : ∀ l : List Char, (∀ c ∈ l, c ∈ u.digits) → (l.filter fun c => c ≠ '-') = l := by
    intro l hl
    refine List.filter_eq_self.2 fun c hc => ?_
    simpa using (isDigit_of_mem_hex (hl c hc)).spec.2.2.2.1
  simp only [chars, List.filter_append, List.filter_cons]
  rw [hd (u.digits.take 8) fun c hc => List.mem_of_mem_take hc,
    hd ((u.digits.drop 8).take 4) fun c hc => List.mem_of_mem_drop (List.mem_of_mem_take hc),
    hd ((u.digits.drop 12).take 4) fun c hc => List.mem_of_mem_drop (List.mem_of_mem_take hc),
    hd ((u.digits.drop 16).take 4) fun c hc => List.mem_of_mem_drop (List.mem_of_mem_take hc),
    hd (u.digits.drop 20) fun c hc => List.mem_of_mem_drop hc]
  simp only [ne_eq, not_true_eq_false, decide_false, Bool.false_eq_true, if_false]
  have h16 : (u.digits.drop 16).take 4 ++ u.digits.drop 20 = u.digits.drop 16 := by
    rw [show u.digits.drop 20 = (u.digits.drop 16).drop 4 by rw [List.drop_drop]]
    exact List.take_append_drop 4 _
  have h12 : (u.digits.drop 12).take 4 ++ u.digits.drop 16 = u.digits.drop 12 := by
    rw [show u.digits.drop 16 = (u.digits.drop 12).drop 4 by rw [List.drop_drop]]
    exact List.take_append_drop 4 _
  have h8 : (u.digits.drop 8).take 4 ++ u.digits.drop 12 = u.digits.drop 8 := by
    rw [show u.digits.drop 12 = (u.digits.drop 8).drop 4 by rw [List.drop_drop]]
    exact List.take_append_drop 4 _
  simp only [List.append_assoc, h16, h12, h8, List.take_append_drop]

/-- The canonical text is read back. -/
@[simp] theorem parse_text (u : Uuid) : parse u.text = some u := by
  have hu : 'u' ∉ u.chars := fun h => by
    rcases isDigit_or_hyphen h with h | h
    · exact h.spec.1 rfl
    · exact absurd h (by decide)
  have hs : ∀ c ∈ u.chars, (c = '{' || c = '}') = false := fun c hc => by
    rcases isDigit_or_hyphen hc with h | rfl
    · simp [h.spec.2.1, h.spec.2.2.1]
    · rfl
  have hrem : remove "uuid:".toList 0 (remove "urn:".toList 0 u.chars) = u.chars := by
    have h1 : remove "urn:".toList 0 u.chars = u.chars := remove_of_not_mem hu
    rw [h1]
    exact remove_of_not_mem hu
  unfold parse
  simp only [text, String.toList_ofList, hrem]
  rw [strip_of_forall hs, filter_chars]
  have hn : u.bits.toNat < 16 ^ 32 := u.bits.isLt
  rw [if_pos (show u.digits.length = 32 from length_hex 32 _),
    show readInt u.digits = some (u.bits.toNat % 16 ^ 32) from readInt_hex _,
    Nat.mod_eq_of_lt hn]
  simp [ofNat]

theorem text_injective : Function.Injective text := fun u v h => by
  have := congrArg parse h
  simpa using this

end Uuid
