import Mathlib.Algebra.Group.Nat.Defs
import Mathlib.Data.List.Basic
import Mathlib.Data.List.Infix

/-!
# Byte strings

The functions of Go's `strings` and `strconv` that the programs use, on the bytes of a string. White space is
that of `unicode.IsSpace`; the case mapping is the one that identifiers see: what it leaves alone has no
image among the ASCII letters.
-/

namespace Text

open List Option Bool

variable {s : List UInt8} {b : UInt8} {fuel n d : Nat}

/-! ### Trimming -/

def space (b : UInt8) : Bool := (0x09 ≤ b && b ≤ 0x0D) || b == 0x20

/-- The three bytes of a white space rune. -/
def space3 (a b c : UInt8) : Bool :=
  (a == 0xE1 && b == 0x9A && c == 0x80) ||
    (a == 0xE2 && b == 0x80 && ((0x80 ≤ c && c ≤ 0x8A) || c == 0xA8 || c == 0xA9 || c == 0xAF)) ||
    (a == 0xE2 && b == 0x81 && c == 0x9F) || (a == 0xE3 && b == 0x80 && c == 0x80)

/-- The length of the white space rune that a string starts with, `0` if it starts with none. -/
def spaceWidth : List UInt8 → Nat
  | [] => 0
  | [a] => if space a then 1 else 0
  | [a, b] => if space a then 1 else if a == 0xC2 && (b == 0x85 || b == 0xA0) then 2 else 0
  | a :: b :: c :: _ =>
    if space a then 1 else if a == 0xC2 && (b == 0x85 || b == 0xA0) then 2 else if space3 a b c then 3 else 0

/-- The same for the last rune, with the bytes in reverse. -/
def spaceWidthBack : List UInt8 → Nat
  | [] => 0
  | [a] => if space a then 1 else 0
  | [b, a] => if space b then 1 else if a == 0xC2 && (b == 0x85 || b == 0xA0) then 2 else 0
  | c :: b :: a :: _ =>
    if space c then 1 else if b == 0xC2 && (c == 0x85 || c == 0xA0) then 2 else if space3 a b c then 3 else 0

/-- Drop from the front as long as `width` finds something there. -/
def dropFront (width : List UInt8 → Nat) : Nat → List UInt8 → List UInt8
  | 0, s => s
  | fuel + 1, s => if width s = 0 then s else dropFront width fuel (s.drop (width s))

def trimLeft (s : List UInt8) : List UInt8 := dropFront spaceWidth s.length s

def trimRight (s : List UInt8) : List UInt8 := (dropFront spaceWidthBack s.length s.reverse).reverse

/-- `strings.TrimSpace`. -/
def trimSpace (s : List UInt8) : List UInt8 := trimRight (trimLeft s)

theorem width_dropFront {width : List UInt8 → Nat} (hnil : width [] = 0) (hfuel : s.length ≤ fuel) :
    width (dropFront width fuel s) = 0 := by
  induction fuel generalizing s with
  | zero => rwa [length_eq_zero_iff.mp (Nat.le_zero.mp hfuel)]
  | succ fuel ih =>
    rw [dropFront]
    split_ifs with hzero
    · exact hzero
    · exact ih (by rw [length_drop]; omega)

theorem dropFront_of_zero {width : List UInt8 → Nat} (hzero : width s = 0) (fuel : Nat) : dropFront width fuel s = s := by
  cases fuel with
  | zero => rfl
  | succ => rw [dropFront, if_pos hzero]

theorem dropFront_suffix (width : List UInt8 → Nat) (fuel : Nat) (s : List UInt8) : dropFront width fuel s <:+ s := by
  induction fuel generalizing s with
  | zero => exact suffix_refl s
  | succ fuel ih =>
    rw [dropFront]
    split_ifs
    · exact suffix_refl s
    · exact (ih _).trans (drop_suffix _ s)

/-- White space at the front of a part is at the front of the whole. -/
theorem spaceWidth_front {p t : List UInt8} (hzero : spaceWidth (p ++ t) = 0) : spaceWidth p = 0 := by
  match p, t with
  | [], _ => rfl
  | [a], [] | [a, b], [] => simpa using hzero
  | [a], [b] | [a], b :: c :: t | [a, b], c :: t | a :: b :: c :: p, t =>
    simp only [cons_append, nil_append, spaceWidth] at hzero ⊢
    split_ifs at hzero ⊢
    all_goals rfl

theorem trimSpace_trimSpace (s : List UInt8) : trimSpace (trimSpace s) = trimSpace s := by
  have hfront : spaceWidth (trimLeft s) = 0 := width_dropFront rfl le_rfl
  obtain ⟨t, ht⟩ : trimRight (trimLeft s) <+: trimLeft s := by
    have := dropFront_suffix spaceWidthBack (trimLeft s).length (trimLeft s).reverse
    simpa [trimRight] using reverse_prefix.mpr this
  rw [← ht] at hfront
  have hleft : trimLeft (trimSpace s) = trimSpace s := dropFront_of_zero (spaceWidth_front hfront) _
  rw [trimSpace, hleft]
  unfold trimSpace trimRight
  rw [reverse_reverse, dropFront_of_zero (width_dropFront rfl (by simp))]

/-- A byte that neither is nor begins nor ends white space. -/
def plain (b : UInt8) : Bool := !space b && decide (b < 0x80)

theorem forall_byte {p : UInt8 → Bool} (h : ∀ n : Fin 256, p (.ofNat n) = true) (b : UInt8) : p b = true := by
  have := h ⟨b.toNat, b.toNat_lt⟩
  rwa [UInt8.ofNat_toNat] at this

theorem trimSpace_of_plain (h : s.all plain = true) : trimSpace s = s := by
  have hne (b : UInt8) (hb : plain b = true) : space b = false ∧ b ≠ 0xC2 ∧ b ≠ 0xE1 ∧ b ≠ 0xE2 ∧ b ≠ 0xE3 := by
    have := forall_byte (p := fun b => !plain b || decide (space b = false ∧ b ≠ 0xC2 ∧ b ≠ 0xE1 ∧ b ≠ 0xE2 ∧ b ≠ 0xE3))
      (by decide +kernel) b
    simpa [hb] using this
  have hwidth : ∀ s : List UInt8, s.all plain = true → spaceWidth s = 0 ∧ spaceWidthBack s = 0
    | [], _ => ⟨rfl, rfl⟩
    | [a], h | [a, b], h | a :: b :: c :: _, h => by
      simp only [all_cons, and_eq_true] at h
      simp [spaceWidth, spaceWidthBack, space3, h, hne]
  have hback := (hwidth s.reverse (by simpa using h)).2
  rw [trimSpace, trimLeft, dropFront_of_zero (hwidth s h).1, trimRight, dropFront_of_zero hback, reverse_reverse]

/-! ### Runes -/

/-- The bytes that follow the first one of a rune. -/
def tailByte (b : UInt8) : Bool := 0x80 ≤ b && b ≤ 0xBF

/-- The second byte of a rune, which has to fit the first one. -/
def secondByte (a b : UInt8) : Bool :=
  (if a == 0xE0 then 0xA0 else if a == 0xF0 then 0x90 else 0x80) ≤ b && b ≤ (if a == 0xED then 0x9F else if a == 0xF4 then 0x8F else 0xBF)

/-- The length of the rune that a string starts with, `0` if it starts with none. -/
def runeWidth : List UInt8 → Nat
  | [] => 0
  | [a] => if a < 0x80 then 1 else 0
  | [a, b] => if a < 0x80 then 1 else if 0xC2 ≤ a && a ≤ 0xDF && tailByte b then 2 else 0
  | [a, b, c] =>
    if a < 0x80 then 1 else if 0xC2 ≤ a && a ≤ 0xDF && tailByte b then 2
    else if 0xE0 ≤ a && a ≤ 0xEF && secondByte a b && tailByte c then 3 else 0
  | a :: b :: c :: d :: _ =>
    if a < 0x80 then 1 else if 0xC2 ≤ a && a ≤ 0xDF && tailByte b then 2
    else if 0xE0 ≤ a && a ≤ 0xEF && secondByte a b && tailByte c then 3
    else if 0xF0 ≤ a && a ≤ 0xF4 && secondByte a b && tailByte c && tailByte d then 4 else 0

def decodeRunes : Nat → List UInt8 → List (List UInt8)
  | 0, _ => []
  | _, [] => []
  | fuel + 1, b :: s =>
    -- a byte that starts no rune is read as U+FFFD
    if runeWidth (b :: s) = 0 then [0xEF, 0xBF, 0xBD] :: decodeRunes fuel s
    else (b :: s).take (runeWidth (b :: s)) :: decodeRunes fuel ((b :: s).drop (runeWidth (b :: s)))

/-- `[]rune(s)`, each rune as the bytes that encode it. -/
def runes (s : List UInt8) : List (List UInt8) := decodeRunes s.length s

/-- `utf8.RuneCountInString`. -/
def runeCount (s : List UInt8) : Nat := (runes s).length

/-! ### Case -/

def lowerByte (b : UInt8) : UInt8 := if 0x41 ≤ b && b ≤ 0x5A then b + 0x20 else b

/-- `strings.ToLower`, on the runes whose image is ASCII: the capital letters, the Kelvin sign and the dotted
capital I. -/
def toLower : List UInt8 → List UInt8
  | 0xE2 :: 0x84 :: 0xAA :: rest => 0x6B :: toLower rest
  | 0xC4 :: 0xB0 :: rest => 0x69 :: toLower rest
  | b :: rest => lowerByte b :: toLower rest
  | [] => []

def upperByte (b : UInt8) : UInt8 := if 0x61 ≤ b && b ≤ 0x7A then b - 0x20 else b

/-- `strings.ToUpper`, on the runes whose image is ASCII: the small letters, the dotless i and the long s. -/
def toUpper : List UInt8 → List UInt8
  | 0xC4 :: 0xB1 :: rest => 0x49 :: toUpper rest
  | 0xC5 :: 0xBF :: rest => 0x53 :: toUpper rest
  | b :: rest => upperByte b :: toUpper rest
  | [] => []

/-- `strings.Contains`. -/
def contains (s part : List UInt8) : Bool := s.tails.any part.isPrefixOf

/-! ### Numbers -/

def digit36 (b : UInt8) : Option Nat :=
  if 0x30 ≤ b && b ≤ 0x39 then some (b.toNat - 0x30)
  else if 0x61 ≤ b && b ≤ 0x7A then some (b.toNat - 0x61 + 10)
  else if 0x41 ≤ b && b ≤ 0x5A then some (b.toNat - 0x41 + 10)
  else none

/-- `strconv.ParseUint(s, 36, 64)`. -/
def parseUint36 (s : List UInt8) : Option Nat :=
  if s = [] then none
  else s.foldl (fun acc b => do
    let n ← acc
    let d ← digit36 b
    if n * 36 + d < 2 ^ 64 then some (n * 36 + d) else none) (some 0)

def char36 (d : Nat) : UInt8 := if d < 10 then (0x30 + d).toUInt8 else (0x57 + d).toUInt8

def format36 : Nat → Nat → List UInt8
  | 0, _ => []
  | fuel + 1, n => if n < 36 then [char36 n] else format36 fuel (n / 36) ++ [char36 (n % 36)]

/-- `strconv.FormatUint(n, 36)`: 13 digits are enough for 64 bits. -/
def formatUint36 (n : Nat) : List UInt8 := format36 13 n

def capital (b : UInt8) : Bool := 0x41 ≤ b && b ≤ 0x5A

/-- Written as `FormatUint` writes: without leading zeros and capital letters. -/
def canonical36 (s : List UInt8) : Prop := s.head? ≠ some 0x30 ∧ ∀ b ∈ s, capital b = false

/-- One digit more, in 64 bits. -/
def feed36 (acc : Option Nat) (b : UInt8) : Option Nat := do
  let n ← acc
  let d ← digit36 b
  if n * 36 + d < 2 ^ 64 then some (n * 36 + d) else none

theorem feed36_inv {acc : Option Nat} (h : feed36 acc b = some n) :
    ∃ m d, acc = some m ∧ digit36 b = some d ∧ n = m * 36 + d ∧ n < 2 ^ 64 := by
  obtain ⟨m, rfl, h⟩ := bind_eq_some_iff.mp h
  obtain ⟨d, hd, h⟩ := bind_eq_some_iff.mp h
  split_ifs at h with hlt
  cases h
  exact ⟨m, d, rfl, hd, rfl, hlt⟩

theorem char36_spec : ∀ d < 36, digit36 (char36 d) = some d ∧ capital (char36 d) = false ∧ (char36 d = 0x30 → d = 0) := by
  decide +kernel

theorem digit36_spec (h : digit36 b = some d) : d < 36 ∧ (capital b = false → char36 d = b) ∧ b ≠ 0x2E ∧ b ≠ 0x3A := by
  have := forall_byte (p := fun b => (digit36 b).all fun d =>
    decide (d < 36) && (capital b || char36 d == b) && b != 0x2E && b != 0x3A) (by decide +kernel) b
  simp only [h, all_some, and_eq_true, or_eq_true, decide_eq_true_eq, beq_iff_eq, bne_iff_ne] at this
  exact ⟨this.1.1.1, fun hcap => this.1.1.2.resolve_left (by simp [hcap]), this.1.2, this.2⟩

theorem foldl_lt {s : List UInt8} (h : s.foldl feed36 (some 0) = some n) : n < 2 ^ 64 := by
  cases s using List.reverseRecOn with
  | nil =>
    cases h
    decide
  | append_singleton =>
    rw [foldl_append] at h
    obtain ⟨m, d, -, -, -, hlt⟩ := feed36_inv h
    exact hlt

/-- Neither a dot nor a colon is a digit. -/
theorem mem_digits {s : List UInt8} (h : s.foldl feed36 (some 0) = some n) (hb : b ∈ s) : b ≠ 0x2E ∧ b ≠ 0x3A := by
  induction s using List.reverseRecOn generalizing n with
  | nil => cases hb
  | append_singleton s c ih =>
    rw [foldl_append] at h
    obtain ⟨m, d, hm, hd, -⟩ := feed36_inv h
    rcases mem_append.mp hb with hb | hb
    · exact ih hm hb
    · rw [mem_singleton.mp hb]
      exact (digit36_spec hd).2.2

theorem feed36_char36 {m : Nat} (hd : d < 36) (hlt : m * 36 + d < 2 ^ 64) : feed36 (some m) (char36 d) = some (m * 36 + d) := by
  rw [feed36, (char36_spec d hd).1]
  exact if_pos hlt

theorem mem_format36 (h : b ∈ format36 fuel n) : ∃ d < 36, b = char36 d := by
  induction fuel generalizing n with
  | zero => cases h
  | succ fuel ih =>
    rw [format36] at h
    split_ifs at h with hn
    · exact ⟨n, hn, mem_singleton.mp h⟩
    · rcases mem_append.mp h with h | h
      · exact ih h
      · exact ⟨n % 36, Nat.mod_lt _ (by decide), mem_singleton.mp h⟩

theorem length_format36 : (format36 fuel n).length ≤ fuel := by
  induction fuel generalizing n with
  | zero => exact le_rfl
  | succ fuel ih =>
    rw [format36]
    split_ifs
    · exact Nat.le_add_left 1 fuel
    · rw [length_append]
      exact Nat.succ_le_succ ih

/-- What is written is read back. -/
theorem foldl_format36 (hfuel : n < 36 ^ fuel) (hn : n < 2 ^ 64) : (format36 fuel n).foldl feed36 (some 0) = some n := by
  induction fuel generalizing n with
  | zero =>
    obtain rfl : n = 0 := by omega
    rfl
  | succ fuel ih =>
    rw [format36]
    split_ifs with hlt
    · simpa using feed36_char36 (m := 0) hlt (by omega)
    · rw [foldl_append, ih (by omega) (by omega), foldl_cons, foldl_nil,
        feed36_char36 (Nat.mod_lt _ (by decide)) (by omega), Nat.div_add_mod']

theorem parse_format (hn : n ≠ 0) (hlt : n < 2 ^ 64) : parseUint36 (formatUint36 n) = some n := by
  have hread := foldl_format36 (show n < 36 ^ 13 by omega) hlt
  refine (if_neg fun hnil => ?_).trans hread
  rw [show format36 13 n = [] from hnil] at hread
  exact hn (some.inj hread).symm

/-- What is read and was written canonically is what would be written. -/
theorem canonical_foldl (hread : s.foldl feed36 (some 0) = some n) (hcanon : canonical36 s) :
    s = [] ∧ n = 0 ∨ n ≠ 0 ∧ ∀ fuel, n < 36 ^ fuel → s = format36 fuel n := by
  induction s using List.reverseRecOn generalizing n with
  | nil => exact .inl ⟨rfl, (some.inj hread).symm⟩
  | append_singleton s b ih =>
    rw [foldl_append] at hread
    obtain ⟨m, d, hm, hd, rfl, -⟩ := feed36_inv hread
    obtain ⟨hd', hchar, -⟩ := digit36_spec hd
    have hb := hchar (hcanon.2 b (by simp))
    right
    rcases ih hm ⟨fun hhead => hcanon.1 (by simp [hhead]), fun c hc => hcanon.2 c (by simp [hc])⟩ with ⟨rfl, rfl⟩ | ⟨hm, hs⟩
    · have hne : d ≠ 0 := by
        rintro rfl
        exact hcanon.1 (by simp [← hb, char36])
      refine ⟨by omega, fun fuel hfuel => ?_⟩
      cases fuel with
      | zero => omega
      | succ => simp [format36, hd', hb]
    · refine ⟨by omega, fun fuel hfuel => ?_⟩
      cases fuel with
      | zero => omega
      | succ fuel =>
        rw [format36, if_neg (by omega), hs fuel (by omega), show (m * 36 + d) / 36 = m by omega, show (m * 36 + d) % 36 = d by omega, hb]

theorem canonical_format36 (hn : n ≠ 0) (hfuel : n < 36 ^ fuel) : canonical36 (format36 fuel n) := by
  have hhead : ∃ b rest, format36 fuel n = b :: rest ∧ b ≠ 0x30 := by
    induction fuel generalizing n with
    | zero => omega
    | succ fuel ih =>
      rw [format36]
      split_ifs with hlt
      · exact ⟨_, [], rfl, fun hzero => hn ((char36_spec n hlt).2.2 hzero)⟩
      · obtain ⟨b, rest, hb, hne⟩ := ih (n := n / 36) (by omega) (by omega)
        exact ⟨b, _, by rw [hb, cons_append], hne⟩
  obtain ⟨b, rest, hb, hne⟩ := hhead
  refine ⟨by simpa [hb] using hne, fun c hc => ?_⟩
  obtain ⟨d, hd, rfl⟩ := mem_format36 hc
  exact (char36_spec d hd).2.1

/-! ### Decimals -/

/-- The verb `%d`. -/
def decimal (n : Nat) : List UInt8 := (Nat.toDigits 10 n).map fun c => UInt8.ofNat c.toNat

def decimalInt (n : Int) : List UInt8 := if n < 0 then 0x2D :: decimal n.natAbs else decimal n.natAbs

theorem digit_of_mem_decimal (h : b ∈ decimal n) : 0x30 ≤ b ∧ b ≤ 0x39 := by
  obtain ⟨c, hc, rfl⟩ := mem_map.mp h
  have hdigit := Nat.isDigit_of_mem_toDigits (by omega) (by omega) hc
  simp only [Char.isDigit, Bool.and_eq_true, decide_eq_true_eq] at hdigit
  have hlow : 48 ≤ c.toNat := hdigit.1
  have hhigh : c.toNat ≤ 57 := hdigit.2
  simp only [UInt8.le_iff_toNat_le, UInt8.toNat_ofNat']
  have hval : c.toNat % 2 ^ 8 = c.toNat := by omega
  rw [hval]
  exact ⟨hlow, hhigh⟩

theorem chars_decimal (n : Nat) : (decimal n).map (fun b => Char.ofNat b.toNat) = Nat.toDigits 10 n := by
  unfold decimal
  rw [List.map_map]
  refine (map_congr_left fun c hc => ?_).trans (map_id _)
  have hdigit := Nat.isDigit_of_mem_toDigits (by omega) (by omega) hc
  simp only [Char.isDigit, Bool.and_eq_true, decide_eq_true_eq] at hdigit
  have hhigh : c.toNat ≤ 57 := hdigit.2
  have hval : (UInt8.ofNat c.toNat).toNat = c.toNat := by
    simp only [UInt8.toNat_ofNat']
    omega
  rw [Function.comp_apply, hval, id, Char.ofNat_toNat]

theorem decimal_inj {k : Nat} (h : decimal n = decimal k) : n = k := by
  have hdigits : Nat.toDigits 10 n = Nat.toDigits 10 k := by rw [← chars_decimal, ← chars_decimal, h]
  calc n = Nat.ofDigitChars 10 (Nat.toDigits 10 n) 0 := Nat.ofDigitChars_ten_toDigits.symm
    _ = Nat.ofDigitChars 10 (Nat.toDigits 10 k) 0 := by rw [hdigits]
    _ = k := Nat.ofDigitChars_ten_toDigits

theorem decimal_ne_nil : decimal n ≠ [] := by
  simp [decimal, Nat.toDigits_ne_nil]

theorem decimalInt_inj {n k : Int} (h : decimalInt n = decimalInt k) : n = k := by
  have hminus (m : Nat) (rest : List UInt8) : decimal m ≠ 0x2D :: rest := by
    intro heq
    have hdigit := digit_of_mem_decimal (n := m) (b := 0x2D) (by rw [heq]; exact mem_cons_self)
    exact absurd hdigit.1 (by decide)
  unfold decimalInt at h
  split_ifs at h with hn hk hk
  · have habs := decimal_inj (List.cons.inj h).2
    omega
  · exact absurd h.symm (hminus _ _)
  · exact absurd h (hminus _ _)
  · have habs := decimal_inj h
    omega

theorem notMem_decimal {b : UInt8} (hb : ¬ (0x30 ≤ b ∧ b ≤ 0x39)) (n : Nat) : b ∉ decimal n :=
  fun hmem => hb (digit_of_mem_decimal hmem)

theorem notMem_decimalInt {b : UInt8} (hb : ¬ (0x30 ≤ b ∧ b ≤ 0x39)) (hminus : b ≠ 0x2D) (n : Int) : b ∉ decimalInt n := by
  unfold decimalInt
  split_ifs
  · simpa [hminus] using notMem_decimal hb n.natAbs
  · exact notMem_decimal hb _

theorem colon_notMem_decimal (n : Nat) : 0x3A ∉ decimal n := notMem_decimal (by decide) n

theorem colon_notMem_decimalInt (n : Int) : 0x3A ∉ decimalInt n := notMem_decimalInt (by decide) (by decide) n

/-! ### Parts -/

/-- The last part of a joined text is found again if no last part has the separator. -/
theorem append_cut {α : Type} {c : α} {us vs xs ys : List α} (hus : c ∉ us) (hvs : c ∉ vs) (h : xs ++ c :: us = ys ++ c :: vs) :
    xs = ys ∧ us = vs := by
  rcases append_eq_append_iff.mp h with ⟨zs, rfl, hzs⟩ | ⟨zs, rfl, hzs⟩
  · cases zs with
    | nil => simpa using hzs
    | cons =>
      obtain ⟨-, rfl⟩ := List.cons.inj hzs
      exact absurd (by simp) hus
  · cases zs with
    | nil => simpa [eq_comm] using hzs
    | cons =>
      obtain ⟨-, rfl⟩ := List.cons.inj hzs
      exact absurd (by simp) hvs

/-- The first part is found again if no first part has the separator. -/
theorem append_cut_front {α : Type} {c : α} {us vs xs ys : List α} (hxs : c ∉ xs) (hys : c ∉ ys) (h : xs ++ c :: us = ys ++ c :: vs) :
    xs = ys ∧ us = vs := by
  have hback : us.reverse ++ c :: xs.reverse = vs.reverse ++ c :: ys.reverse := by simpa using congrArg reverse h
  obtain ⟨hrest, hfirst⟩ := append_cut (by simpa using hxs) (by simpa using hys) hback
  exact ⟨reverse_injective hfirst, reverse_injective hrest⟩

/-- `strings.TrimPrefix(s, "@")`. -/
def trimAt : List UInt8 → List UInt8
  | 0x40 :: s => s
  | s => s

end Text
