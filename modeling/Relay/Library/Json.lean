import Mathlib.Algebra.Ring.Nat
import Mathlib.Data.List.Sort
import Relay.Library.Sequence
import Relay.Library.Text

/-!
# JSON values as a Python program handles them

The values `json.loads` returns, what a program asks of them (truth, `str`, `dict.get`) and the
text `json.dumps` writes.

* `Json.truthy`, `Json.get`, `Json.str'`, `Json.toInt`: `bool(value)`, `value.get(key)`,
  `str(value)`, `int(value)`;
* `Json.dumps`: the writer, for the separators and the escaping chosen by a `Style`;
* `unescape_escape`: an escaped character can be read back, so that
* `dumps_prefix_injective`: the compact text of a value made of strings, lists and objects can be
  continued in one way only, and `dumps_injective`: it determines the value;
* `dumps_sortFields_inj`: with sorted keys it determines a dictionary, whatever the order of its
  fields.
-/

/-- A JSON value.  A float is the text `repr` prints, with its truth value. -/
inductive Json where
  | null
  | bool (value : Bool)
  | int (value : ℤ)
  | float (text : String) (nonzero : Bool)
  | str (value : String)
  | arr (items : List Json)
  | obj (fields : List (String × Json))

namespace Json

open Sequence Text

/-- `bool(value)`. -/
def truthy : Json → Bool
  | null => false
  | bool b => b
  | int n => n != 0
  | float _ nonzero => nonzero
  | str s => s != ""
  | arr items => !items.isEmpty
  | obj fields => !fields.isEmpty

/-- `value.get(key)` of an object; `none` when the key is absent. -/
def get (fields : List (String × Json)) (key : String) : Option Json :=
  (fields.find? fun f => f.1 = key).map Prod.snd

/-! ### `str` and `repr` -/

/-- `repr` of one character of a string quoted by `quote`; `printable` is `str.isprintable`. -/
def reprChar (printable : Char → Bool) (quote c : Char) : List Char :=
  if c = quote ∨ c = '\\' then ['\\', c]
  else if c = '\n' then ['\\', 'n']
  else if c = '\r' then ['\\', 'r']
  else if c = '\t' then ['\\', 't']
  else if printable c then [c]
  else if c.toNat < 256 then '\\' :: 'x' :: hex 2 c.toNat
  else if c.toNat < 65536 then '\\' :: 'u' :: hex 4 c.toNat
  else '\\' :: 'U' :: hex 8 c.toNat

/-- `repr` of a string. -/
def reprString (printable : Char → Bool) (s : String) : List Char :=
  let quote := if s.toList.contains '\'' && !s.toList.contains '"' then '"' else '\''
  quote :: s.toList.flatMap (reprChar printable quote) ++ [quote]

mutual

/-- `repr(value)`. -/
def repr (printable : Char → Bool) : Json → List Char
  | null => "None".toList
  | bool b => if b then "True".toList else "False".toList
  | int n => (toString n).toList
  | float text _ => text.toList
  | str s => reprString printable s
  | arr items => '[' :: reprItems printable true items
  | obj fields => '{' :: reprFields printable true fields

/-- The elements of a list, from the first (`true`) or a later one on. -/
def reprItems (printable : Char → Bool) : Bool → List Json → List Char
  | _, [] => [']']
  | first, x :: xs =>
    (if first then [] else ", ".toList) ++ repr printable x ++ reprItems printable false xs

/-- The entries of a dictionary, from the first (`true`) or a later one on. -/
def reprFields (printable : Char → Bool) : Bool → List (String × Json) → List Char
  | _, [] => ['}']
  | first, (k, x) :: xs =>
    (if first then [] else ", ".toList) ++ reprString printable k ++ ": ".toList ++
      repr printable x ++ reprFields printable false xs

end

/-- `str(value)`: a string is itself, anything else is its `repr`. -/
def str' (printable : Char → Bool) : Json → String
  | str s => s
  | value => String.ofList (repr printable value)

/-! ### `int` -/

/-- The digits of an `int` literal, with single underscores between them, after a number `n`;
`decimal` is `unicodedata.decimal`. -/
def readDigits (decimal : Char → Option ℕ) (n : ℕ) : List Char → Option ℕ
  | [] => none
  | [c] => (decimal c).map (10 * n + ·)
  | c :: '_' :: cs => (decimal c).bind fun d => readDigits decimal (10 * n + d) cs
  | c :: cs => (decimal c).bind fun d => readDigits decimal (10 * n + d) cs

/-- A literal of at most 4300 digits. -/
def readNat (decimal : Char → Option ℕ) (cs : List Char) : Option ℕ :=
  if 4300 < (cs.filter (· ≠ '_')).length then none else readDigits decimal 0 cs

/-- `int(text)`; `none` is `ValueError`. -/
def readInt (decimal : Char → Option ℕ) (text : String) : Option ℤ :=
  match strip isIntSpace text.toList with
  | '-' :: cs => (readNat decimal cs).map fun n => -n
  | '+' :: cs => (readNat decimal cs).map fun n => n
  | cs => (readNat decimal cs).map fun n => n

/-- The value of ASCII digits. -/
def digitsValue (cs : List Char) : ℕ := cs.foldl (fun n c => 10 * n + (c.toNat - 48)) 0

/-- `int(x)` of the float that `repr` prints as these digits, point and exponent: the part before
the point of the decimal number, which is that of the float itself up to 2 ^ 53. -/
def truncateDecimal (cs : List Char) : ℕ :=
  let mantissa := cs.takeWhile (· ≠ 'e')
  let exponent := cs.drop (mantissa.length + 1)
  let whole := mantissa.takeWhile (· ≠ '.')
  let fraction := mantissa.drop (whole.length + 1)
  let value := digitsValue (whole ++ fraction)
  match exponent with
  | '-' :: digits => value / 10 ^ (digitsValue digits + fraction.length)
  | '+' :: digits => value * 10 ^ digitsValue digits / 10 ^ fraction.length
  | digits => value * 10 ^ digitsValue digits / 10 ^ fraction.length

/-- `int(value)`, or the class of its exception. -/
def toInt (decimal : Char → Option ℕ) : Json → Except String ℤ
  | null => .error "TypeError"
  | bool b => .ok (if b then 1 else 0)
  | int n => .ok n
  | float text _ =>
    match text.toList with
    | ['n', 'a', 'n'] => .error "ValueError"
    | ['i', 'n', 'f'] | ['-', 'i', 'n', 'f'] => .error "OverflowError"
    | '-' :: cs => .ok (-(truncateDecimal cs))
    | cs => .ok (truncateDecimal cs)
  | str s =>
    match readInt decimal s with
    | some n => .ok n
    | none => .error "ValueError"
  | arr _ => .error "TypeError"
  | obj _ => .error "TypeError"

/-! ### `json.dumps` -/

/-- The separators and the escaping of a `json.dumps` call. -/
structure Style where
  item : String
  key : String
  ensureAscii : Bool

/-- The defaults of `json.dumps`. -/
def Style.default : Style := ⟨", ", ": ", true⟩

/-- `separators=(",", ":"), ensure_ascii=False`. -/
def Style.compact : Style := ⟨",", ":", false⟩

/-- One character inside a JSON string. -/
def escape (ensureAscii : Bool) (c : Char) : List Char :=
  if c = '"' then ['\\', '"']
  else if c = '\\' then ['\\', '\\']
  else if c = '\n' then ['\\', 'n']
  else if c = '\r' then ['\\', 'r']
  else if c = '\t' then ['\\', 't']
  else if c = '\x0c' then ['\\', 'f']
  else if c = '\x08' then ['\\', 'b']
  else if c.toNat < 32 then '\\' :: 'u' :: hex 4 c.toNat
  else if !ensureAscii || c.toNat < 127 then [c]
  else if c.toNat < 65536 then '\\' :: 'u' :: hex 4 c.toNat
  else '\\' :: 'u' :: hex 4 (0xd800 + (c.toNat - 0x10000) / 0x400) ++
    '\\' :: 'u' :: hex 4 (0xdc00 + (c.toNat - 0x10000) % 0x400)

/-- A JSON string. -/
def dumpsString (ensureAscii : Bool) (s : String) : List Char :=
  '"' :: s.toList.flatMap (escape ensureAscii) ++ ['"']

mutual

/-- The text of a value. -/
def dumps (style : Style) : Json → List Char
  | null => "null".toList
  | bool b => if b then "true".toList else "false".toList
  | int n => (toString n).toList
  | float text _ => text.toList
  | str s => dumpsString style.ensureAscii s
  | arr items => '[' :: dumpsItems style true items
  | obj fields => '{' :: dumpsFields style true fields

/-- The elements of a list, from the first (`true`) or a later one on. -/
def dumpsItems (style : Style) : Bool → List Json → List Char
  | _, [] => [']']
  | first, x :: xs =>
    (if first then [] else style.item.toList) ++ dumps style x ++ dumpsItems style false xs

/-- The fields of an object, from the first (`true`) or a later one on. -/
def dumpsFields (style : Style) : Bool → List (String × Json) → List Char
  | _, [] => ['}']
  | first, (k, x) :: xs =>
    (if first then [] else style.item.toList) ++ dumpsString style.ensureAscii k ++
      style.key.toList ++ dumps style x ++ dumpsFields style false xs

end

/-- The order of `sorted` on strings: by code points, a prefix first. -/
def textLe : List Char → List Char → Bool
  | [], _ => true
  | _ :: _, [] => false
  | a :: l, b :: m => a.toNat < b.toNat || (a.toNat = b.toNat && textLe l m)

/-- The fields of an object in the order of `sort_keys=True`. -/
def sortFields (fields : List (String × Json)) : List (String × Json) :=
  fields.insertionSort fun a b => textLe a.1.toList b.1.toList

/-! ### Reading the compact text back -/

/-- Reads one escaped character. -/
def unescape : List Char → Option (Char × List Char)
  | '\\' :: 'u' :: '0' :: '0' :: a :: b :: rest =>
    some (Char.ofNat (16 * hexValue a + hexValue b), rest)
  | '\\' :: 'n' :: rest => some ('\n', rest)
  | '\\' :: 'r' :: rest => some ('\r', rest)
  | '\\' :: 't' :: rest => some ('\t', rest)
  | '\\' :: 'f' :: rest => some ('\x0c', rest)
  | '\\' :: 'b' :: rest => some ('\x08', rest)
  | '\\' :: c :: rest => some (c, rest)
  | c :: rest => some (c, rest)
  | [] => none

theorem hex_four_of_lt {n : ℕ} (h : n < 32) :
    hex 4 n = ['0', '0', hexDigit (n / 16), hexDigit (n % 16)] ∧
      16 * hexValue (hexDigit (n / 16)) + hexValue (hexDigit (n % 16)) = n := by
  have : ∀ m : Fin 32, hex 4 m = ['0', '0', hexDigit (m / 16), hexDigit (m % 16)] ∧
      16 * hexValue (hexDigit (m / 16)) + hexValue (hexDigit (m % 16)) = m := by decide
  exact this ⟨n, h⟩

theorem unescape_escape (c : Char) (rest : List Char) :
    unescape (escape false c ++ rest) = some (c, rest) := by
  unfold escape
  split_ifs with h₁ h₂ h₃ h₄ h₅ h₆ h₇ h₈ h₉
  · subst h₁; rfl
  · subst h₂; rfl
  · subst h₃; rfl
  · subst h₄; rfl
  · subst h₅; rfl
  · subst h₆; rfl
  · subst h₇; rfl
  · obtain ⟨hd, hv⟩ := hex_four_of_lt h₈
    rw [hd]
    simp only [List.cons_append, List.nil_append, unescape, hv, Char.ofNat_toNat]
  · -- a character that stands for itself is no backslash
    rw [List.singleton_append, unescape.eq_8]
    all_goals
      intros
      simp_all
  · simp at h₉
  · simp at h₉

/-- An escaped character does not start with a quotation mark. -/
theorem escape_ne_quote (c : Char) (rest more : List Char) :
    escape false c ++ rest ≠ '"' :: more := by
  intro h
  have hu := unescape_escape c rest
  rw [h] at hu
  obtain ⟨rfl, rfl⟩ : c = '"' ∧ rest = more := by
    simpa [unescape, eq_comm] using hu
  simp [escape] at h

theorem flatMap_escape_prefix_injective {s t r r' : List Char}
    (h : s.flatMap (escape false) ++ '"' :: r = t.flatMap (escape false) ++ '"' :: r') :
    s = t ∧ r = r' := by
  induction s generalizing t with
  | nil =>
    cases t with
    | nil => simpa using h
    | cons c t =>
      rw [List.flatMap_cons, List.append_assoc] at h
      exact absurd h.symm (escape_ne_quote c _ _)
  | cons c s ih =>
    cases t with
    | nil =>
      rw [List.flatMap_cons, List.append_assoc] at h
      exact absurd h (escape_ne_quote c _ _)
    | cons d t =>
      simp only [List.flatMap_cons, List.append_assoc] at h
      have hc := unescape_escape c (s.flatMap (escape false) ++ '"' :: r)
      rw [h, unescape_escape, Option.some.injEq, Prod.mk.injEq] at hc
      obtain ⟨rfl, hrest⟩ := hc
      obtain ⟨rfl, rfl⟩ := ih hrest.symm
      exact ⟨rfl, rfl⟩

theorem dumpsString_prefix_injective {s t : String} {r r' : List Char}
    (h : dumpsString false s ++ r = dumpsString false t ++ r') : s = t ∧ r = r' := by
  have h' : s.toList.flatMap (escape false) ++ '"' :: r =
      t.toList.flatMap (escape false) ++ '"' :: r' := by
    simpa [dumpsString] using h
  obtain ⟨hs, hr⟩ := flatMap_escape_prefix_injective h'
  exact ⟨String.toList_injective hs, hr⟩

mutual

/-- A value made of strings, lists and objects. -/
def Textual : Json → Prop
  | str _ => True
  | arr items => TextualItems items
  | obj fields => TextualFields fields
  | _ => False

/-- All elements are made of strings, lists and objects. -/
def TextualItems : List Json → Prop
  | [] => True
  | x :: xs => Textual x ∧ TextualItems xs

/-- All field values are made of strings, lists and objects. -/
def TextualFields : List (String × Json) → Prop
  | [] => True
  | (_, x) :: xs => Textual x ∧ TextualFields xs

end

/-- How the text of a textual value starts. -/
theorem Textual.head {j : Json} (h : Textual j) :
    ∃ c tl, dumps .compact j = c :: tl ∧ (c = '"' ∨ c = '[' ∨ c = '{') := by
  cases j <;> simp only [Textual] at h
  · exact ⟨'"', _, rfl, .inl rfl⟩
  · exact ⟨'[', _, rfl, .inr (.inl rfl)⟩
  · exact ⟨'{', _, rfl, .inr (.inr rfl)⟩

theorem Textual.append_ne {j : Json} (h : Textual j) {c : Char} {r r' : List Char}
    (hc : c ≠ '"' ∧ c ≠ '[' ∧ c ≠ '{') : dumps .compact j ++ r ≠ c :: r' := by
  obtain ⟨d, tl, hd, hdc⟩ := h.head
  rw [hd, List.cons_append]
  intro he
  obtain rfl : d = c := (List.cons.inj he).1
  tauto

mutual

/-- The compact text of a textual value is not the beginning of another one's. -/
theorem dumps_prefix_injective : ∀ (i j : Json) (r r' : List Char), Textual i → Textual j →
    dumps .compact i ++ r = dumps .compact j ++ r' → i = j ∧ r = r'
  | str s, j, r, r', _, hj, h => by
    cases j with
    | str t =>
      obtain ⟨rfl, rfl⟩ := dumpsString_prefix_injective h
      exact ⟨rfl, rfl⟩
    | arr items => simp [dumps, dumpsString] at h
    | obj fields => simp [dumps, dumpsString] at h
    | _ => exact hj.elim
  | arr items, j, r, r', hi, hj, h => by
    cases j with
    | str t => simp [dumps, dumpsString] at h
    | arr items' =>
      obtain ⟨rfl, rfl⟩ := dumpsItems_prefix_injective items items' r r' true hi hj
        (List.cons.inj h).2
      exact ⟨rfl, rfl⟩
    | obj fields => simp [dumps] at h
    | _ => exact hj.elim
  | obj fields, j, r, r', hi, hj, h => by
    cases j with
    | str t => simp [dumps, dumpsString] at h
    | arr items => simp [dumps] at h
    | obj fields' =>
      obtain ⟨rfl, rfl⟩ := dumpsFields_prefix_injective fields fields' r r' true hi hj
        (List.cons.inj h).2
      exact ⟨rfl, rfl⟩
    | _ => exact hj.elim
  | null, _, _, _, hi, _, _ => hi.elim
  | bool _, _, _, _, hi, _, _ => hi.elim
  | int _, _, _, _, hi, _, _ => hi.elim
  | float _ _, _, _, _, hi, _, _ => hi.elim

theorem dumpsItems_prefix_injective : ∀ (l m : List Json) (r r' : List Char) (first : Bool),
    TextualItems l → TextualItems m →
    dumpsItems .compact first l ++ r = dumpsItems .compact first m ++ r' → l = m ∧ r = r'
  | [], [], r, r', _, _, _, h => ⟨rfl, by simpa [dumpsItems] using h⟩
  | [], y :: ys, r, r', first, _, hm, h => by
    cases first with
    | false => simp [dumpsItems, Style.compact] at h
    | true =>
      simp only [dumpsItems, if_true, List.nil_append, List.append_assoc] at h
      exact absurd h.symm (hm.1.append_ne (by decide))
  | x :: xs, [], r, r', first, hl, _, h => by
    cases first with
    | false => simp [dumpsItems, Style.compact] at h
    | true =>
      simp only [dumpsItems, if_true, List.nil_append, List.append_assoc] at h
      exact absurd h (hl.1.append_ne (by decide))
  | x :: xs, y :: ys, r, r', first, hl, hm, h => by
    simp only [dumpsItems, List.append_assoc, List.append_cancel_left_eq] at h
    obtain ⟨rfl, rest⟩ := dumps_prefix_injective x y _ _ hl.1 hm.1 h
    obtain ⟨rfl, rfl⟩ := dumpsItems_prefix_injective xs ys r r' false hl.2 hm.2 rest
    exact ⟨rfl, rfl⟩

theorem dumpsFields_prefix_injective : ∀ (l m : List (String × Json)) (r r' : List Char)
    (first : Bool), TextualFields l → TextualFields m →
    dumpsFields .compact first l ++ r = dumpsFields .compact first m ++ r' → l = m ∧ r = r'
  | [], [], r, r', _, _, _, h => ⟨rfl, by simpa [dumpsFields] using h⟩
  | [], (k, y) :: ys, r, r', first, _, hm, h => by
    cases first <;> simp [dumpsFields, dumpsString, Style.compact] at h
  | (k, x) :: xs, [], r, r', first, hl, _, h => by
    cases first <;> simp [dumpsFields, dumpsString, Style.compact] at h
  | (k, x) :: xs, (k', y) :: ys, r, r', first, hl, hm, h => by
    simp only [dumpsFields, List.append_assoc, List.append_cancel_left_eq] at h
    obtain ⟨rfl, value⟩ := dumpsString_prefix_injective h
    rw [List.append_cancel_left_eq] at value
    obtain ⟨rfl, rest⟩ := dumps_prefix_injective x y _ _ hl.1 hm.1 value
    obtain ⟨rfl, rfl⟩ := dumpsFields_prefix_injective xs ys r r' false hl.2 hm.2 rest
    exact ⟨rfl, rfl⟩

end

/-- The compact text determines a textual value. -/
theorem dumps_injective {i j : Json} (hi : Textual i) (hj : Textual j)
    (h : dumps .compact i = dumps .compact j) : i = j :=
  (dumps_prefix_injective i j [] [] hi hj (by simpa using h)).1

@[simp] theorem textualItems_iff {l : List Json} : TextualItems l ↔ ∀ x ∈ l, Textual x := by
  induction l with
  | nil => simp [TextualItems]
  | cons x xs ih => simp [TextualItems, ih]

@[simp] theorem textualFields_iff {l : List (String × Json)} :
    TextualFields l ↔ ∀ f ∈ l, Textual f.2 := by
  induction l with
  | nil => simp [TextualFields]
  | cons f fs ih => simp [TextualFields, ih]

@[simp] theorem mem_sortFields {l : List (String × Json)} {f : String × Json} :
    f ∈ sortFields l ↔ f ∈ l := List.mem_insertionSort _

/-- The compact text of an object with sorted keys determines its fields. -/
theorem mem_iff_of_dumps_sortFields {l m : List (String × Json)} (hl : ∀ f ∈ l, Textual f.2)
    (hm : ∀ f ∈ m, Textual f.2)
    (h : dumps .compact (.obj (sortFields l)) = dumps .compact (.obj (sortFields m)))
    (f : String × Json) : f ∈ l ↔ f ∈ m := by
  have hsorted : obj (sortFields l) = obj (sortFields m) := by
    refine dumps_injective ?_ ?_ h
    · simpa [Textual] using hl
    · simpa [Textual] using hm
  have hfields : sortFields l = sortFields m := by simpa using hsorted
  rw [← mem_sortFields, hfields, mem_sortFields]

/-! ### Sorted keys -/

theorem textLe_total (l m : List Char) : textLe l m = true ∨ textLe m l = true := by
  induction l generalizing m with
  | nil => exact .inl rfl
  | cons a l ih =>
    cases m with
    | nil => exact .inr rfl
    | cons b m =>
      simp only [textLe, Bool.or_eq_true, Bool.and_eq_true, decide_eq_true_eq]
      rcases ih m with h | h
      · rcases Nat.lt_trichotomy a.toNat b.toNat with hlt | heq | hgt
        · exact .inl (.inl hlt)
        · exact .inl (.inr ⟨heq, h⟩)
        · exact .inr (.inl hgt)
      · rcases Nat.lt_trichotomy a.toNat b.toNat with hlt | heq | hgt
        · exact .inl (.inl hlt)
        · exact .inr (.inr ⟨heq.symm, h⟩)
        · exact .inr (.inl hgt)

theorem textLe_trans {l m n : List Char} (h : textLe l m = true) (k : textLe m n = true) :
    textLe l n = true := by
  induction l generalizing m n with
  | nil => rfl
  | cons a l ih =>
    cases m with
    | nil => cases h
    | cons b m =>
      cases n with
      | nil => cases k
      | cons c n =>
        simp only [textLe, Bool.or_eq_true, Bool.and_eq_true, decide_eq_true_eq] at h k ⊢
        rcases h with h | ⟨h, hrest⟩
        · left
          omega
        · rcases k with k | ⟨k, krest⟩
          · left
            omega
          · exact .inr ⟨h.trans k, ih hrest krest⟩

theorem textLe_antisymm {l m : List Char} (h : textLe l m = true) (k : textLe m l = true) :
    l = m := by
  induction l generalizing m with
  | nil =>
    cases m with
    | nil => rfl
    | cons b m => cases k
  | cons a l ih =>
    cases m with
    | nil => cases h
    | cons b m =>
      simp only [textLe, Bool.or_eq_true, Bool.and_eq_true, decide_eq_true_eq] at h k
      have hab : a.toNat = b.toNat := by omega
      have hrest : textLe l m = true ∧ textLe m l = true := by
        constructor
        · exact (h.resolve_left (by omega)).2
        · exact (k.resolve_left (by omega)).2
      obtain rfl : a = b := Char.toNat_inj.1 hab
      rw [ih hrest.1 hrest.2]

theorem pairwise_sortFields (l : List (String × Json)) :
    (sortFields l).Pairwise fun a b => textLe a.1.toList b.1.toList = true :=
  @pairwise_orderBy _ (fun a b : String × Json => textLe a.1.toList b.1.toList)
    (fun _ _ => textLe_total _ _) (fun _ _ _ => textLe_trans) l

/-- Fields with distinct keys come into one order, whatever order they had. -/
theorem sortFields_eq_of_perm {l m : List (String × Json)} (hkeys : (l.map Prod.fst).Nodup)
    (h : l.Perm m) : sortFields l = sortFields m := by
  have hl : (sortFields l).Perm l := List.perm_insertionSort _ l
  have hm : (sortFields m).Perm m := List.perm_insertionSort _ m
  refine List.Perm.eq_of_pairwise (fun a b ha hb hab hba => ?_) (pairwise_sortFields l)
    (pairwise_sortFields m) ((hl.trans h).trans hm.symm)
  have hkey : a.1 = b.1 := String.toList_injective (textLe_antisymm hab hba)
  exact List.inj_on_of_nodup_map hkeys (hl.mem_iff.1 ha) (h.mem_iff.2 (hm.mem_iff.1 hb)) hkey

/-- A field with its key, among fields with distinct keys. -/
theorem get_eq_some {l : List (String × Json)} (hkeys : (l.map Prod.fst).Nodup) {key : String}
    {value : Json} : get l key = some value ↔ (key, value) ∈ l := by
  unfold get
  rw [Option.map_eq_some_iff]
  constructor
  · rintro ⟨⟨k, v⟩, hfind, rfl⟩
    obtain rfl : k = key := by simpa using List.find?_some hfind
    exact List.mem_of_find?_eq_some hfind
  · intro hmem
    cases hfind : l.find? fun f => f.1 = key with
    | none => exact absurd (decide_eq_true rfl) (List.find?_eq_none.1 hfind _ hmem)
    | some f =>
      have hkey : f.1 = key := by simpa using List.find?_some hfind
      exact ⟨f, rfl, congrArg Prod.snd
        (List.inj_on_of_nodup_map hkeys (List.mem_of_find?_eq_some hfind) hmem hkey)⟩

/-- Dictionaries with the same values for all keys are permutations of each other. -/
theorem perm_iff_get {l m : List (String × Json)} (hl : (l.map Prod.fst).Nodup)
    (hm : (m.map Prod.fst).Nodup) : l.Perm m ↔ ∀ key, get l key = get m key := by
  rw [List.perm_ext_iff_of_nodup hl.of_map hm.of_map]
  constructor
  · intro h key
    apply Option.ext
    intro value
    rw [get_eq_some hl, get_eq_some hm, h]
  · rintro h ⟨key, value⟩
    rw [← get_eq_some hl, ← get_eq_some hm, h]

/-- **The compact text with sorted keys determines a dictionary of textual values**, and the order
of its fields does not matter. -/
theorem dumps_sortFields_inj {l m : List (String × Json)} (hl : (l.map Prod.fst).Nodup)
    (hm : (m.map Prod.fst).Nodup) (htl : ∀ f ∈ l, Textual f.2) (htm : ∀ f ∈ m, Textual f.2) :
    dumps .compact (.obj (sortFields l)) = dumps .compact (.obj (sortFields m)) ↔
      ∀ key, get l key = get m key := by
  rw [← perm_iff_get hl hm]
  constructor
  · intro h
    exact (List.perm_ext_iff_of_nodup hl.of_map hm.of_map).2 (mem_iff_of_dumps_sortFields htl htm h)
  · intro h
    rw [sortFields_eq_of_perm hl h]

end Json
