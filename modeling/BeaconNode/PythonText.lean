import Mathlib.Algebra.Group.Nat.Defs
import Mathlib.Data.Char
import Mathlib.Data.List.Induction

namespace BeaconNode.PythonText

/-- A text without lone surrogates, as its code points. -/
abbrev Text := List Char

/-- The code points for which isspace is true. -/
def whitespace : List Nat :=
  [0x09, 0x0a, 0x0b, 0x0c, 0x0d, 0x1c, 0x1d, 0x1e, 0x1f, 0x20, 0x85, 0xa0, 0x1680, 0x2000, 0x2001, 0x2002, 0x2003,
    0x2004, 0x2005, 0x2006, 0x2007, 0x2008, 0x2009, 0x200a, 0x2028, 0x2029, 0x202f, 0x205f, 0x3000]

/-- The code points at which splitlines ends a line. -/
def lineBoundaries : List Nat := [0x0a, 0x0b, 0x0c, 0x0d, 0x1c, 0x1d, 0x1e, 0x85, 0x2028, 0x2029]

def isWhitespace (c : Char) : Bool := c.toNat ∈ whitespace
def isLineBoundary (c : Char) : Bool := c.toNat ∈ lineBoundaries

def wordsFrom (word : Text) : Text → List Text
  | [] => if word = [] then [] else [word]
  | c :: cs =>
      if isWhitespace c then
        if word = [] then wordsFrom [] cs else word :: wordsFrom [] cs
      else wordsFrom (word ++ [c]) cs

def split (text : Text) : List Text := wordsFrom [] text

def linesFrom (line : Text) : Text → List Text
  | [] => if line = [] then [] else [line]
  | '\r' :: '\n' :: cs => line :: linesFrom [] cs
  | c :: cs => if isLineBoundary c then line :: linesFrom [] cs else linesFrom (line ++ [c]) cs

def splitlines (text : Text) : List Text := linesFrom [] text

/-- The two parts around the first occurrence of a character, as split with a
bound of one returns them. -/
def splitOnce (separator : Char) (text : Text) : Text × Text :=
  (text.takeWhile (· ≠ separator), (text.dropWhile (· ≠ separator)).tail)

/-- What the functions on text take from the interpreter: its Unicode database
and its bound on the digits of integers in text, with 0 for none. -/
structure Interpreter where
  decimalDigit : Char → Option Nat
  maxStrDigits : Nat
  ascii_digit : ∀ c : Char, c.toNat < 128 →
    decimalDigit c = if 48 ≤ c.toNat ∧ c.toNat ≤ 57 then some (c.toNat - 48) else none
  digit_lt : ∀ c d, decimalDigit c = some d → d < 10
  maxStrDigits_large : maxStrDigits = 0 ∨ 640 ≤ maxStrDigits

/-- The zeros of the runs of ten decimal digits, in Unicode 14. -/
def decimalZeros : List Nat :=
  [0x30, 0x660, 0x6f0, 0x7c0, 0x966, 0x9e6, 0xa66, 0xae6, 0xb66, 0xbe6, 0xc66, 0xce6, 0xd66, 0xde6, 0xe50, 0xed0, 0xf20,
    0x1040, 0x1090, 0x17e0, 0x1810, 0x1946, 0x19d0, 0x1a80, 0x1a90, 0x1b50, 0x1bb0, 0x1c40, 0x1c50, 0xa620, 0xa8d0,
    0xa900, 0xa9d0, 0xa9f0, 0xaa50, 0xabf0, 0xff10, 0x104a0, 0x10d30, 0x11066, 0x110f0, 0x11136, 0x111d0, 0x112f0,
    0x11450, 0x114d0, 0x11650, 0x116c0, 0x11730, 0x118e0, 0x11950, 0x11c50, 0x11d50, 0x11da0, 0x16a60, 0x16ac0, 0x16b50,
    0x1d7ce, 0x1d7d8, 0x1d7e2, 0x1d7ec, 0x1d7f6, 0x1e140, 0x1e2f0, 0x1e950, 0x1fbf0]

def unicodeDigit (c : Char) : Option Nat :=
  (decimalZeros.find? (fun start => start ≤ c.toNat ∧ c.toNat < start + 10)).map (c.toNat - ·)

theorem unicodeDigit_ascii (c : Char) (h : c.toNat < 128) :
    unicodeDigit c = if 48 ≤ c.toNat ∧ c.toNat ≤ 57 then some (c.toNat - 48) else none := by
  have hzeros : decimalZeros = 48 :: decimalZeros.tail := rfl
  have hlarge : ∀ start ∈ decimalZeros.tail, 128 ≤ start := by decide
  have hnone : decimalZeros.tail.find? (fun start => start ≤ c.toNat ∧ c.toNat < start + 10) = none := by
    rw [List.find?_eq_none]
    intro start hs hin
    have hbounds := of_decide_eq_true hin
    have hstart := hlarge start hs
    omega
  rw [unicodeDigit, hzeros, List.find?_cons, hnone]
  by_cases hdigit : 48 ≤ c.toNat ∧ c.toNat ≤ 57
  · have hhead : 48 ≤ c.toNat ∧ c.toNat < 48 + 10 := by omega
    simp only [hhead, hdigit, and_self, decide_true, if_true, Option.map_some]
  · have hhead : ¬ (48 ≤ c.toNat ∧ c.toNat < 48 + 10) := by omega
    simp only [hhead, hdigit, decide_false, if_false, Option.map_none]

/-- An interpreter with the bound on digits that is the default since 3.11. -/
def cpython : Interpreter where
  decimalDigit := unicodeDigit
  maxStrDigits := 4300
  ascii_digit := unicodeDigit_ascii
  digit_lt := by
    intro c d h
    obtain ⟨start, hfind, rfl⟩ := Option.map_eq_some_iff.mp h
    have hin := List.find?_some hfind
    have hbounds := of_decide_eq_true hin
    omega
  maxStrDigits_large := Or.inr (by decide)

inductive ValueError
  | tooManyDigits
  | invalidLiteral
  | notHexadecimal
  deriving DecidableEq

variable (interpreter : Interpreter)

def isDigit (c : Char) : Bool := (interpreter.decimalDigit c).isSome

def isDecimal (text : Text) : Bool := text ≠ [] && text.all (isDigit interpreter)

def TooLong (digits : Nat) : Prop := interpreter.maxStrDigits ≠ 0 ∧ interpreter.maxStrDigits < digits

instance (digits : Nat) : Decidable (TooLong interpreter digits) :=
  inferInstanceAs (Decidable (_ ∧ _))

def digitsValue (digits : Text) : Nat :=
  digits.foldl (fun n c => 10 * n + (interpreter.decimalDigit c).getD 0) 0

def natOfDigits (digits : Text) : Except ValueError Nat :=
  if TooLong interpreter digits.length then .error .tooManyDigits else .ok (digitsValue interpreter digits)

/-- The digits of a literal after its first. An underscore stands between two
digits. -/
def digitsFrom : Text → Option Text
  | [] => some []
  | '_' :: c :: cs => if isDigit interpreter c then (digitsFrom cs).map (c :: ·) else none
  | c :: cs => if isDigit interpreter c then (digitsFrom cs).map (c :: ·) else none

def literalDigits : Text → Option Text
  | [] => none
  | c :: cs => if isDigit interpreter c then (digitsFrom interpreter cs).map (c :: ·) else none

def strip (text : Text) : Text := ((text.dropWhile isWhitespace).reverse.dropWhile isWhitespace).reverse

/-- The int function on a text. -/
def intOfText (text : Text) : Except ValueError Int :=
  let unsigned (digits : Text) : Except ValueError Nat :=
    match literalDigits interpreter digits with
    | none => .error .invalidLiteral
    | some digits => natOfDigits interpreter digits
  match strip text with
  | '-' :: digits => (unsigned digits).map (fun n => -n)
  | '+' :: digits => (unsigned digits).map (fun n => n)
  | digits => (unsigned digits).map (fun n => n)

/-- The str function on an integer. -/
def textOfInt (n : Int) : Except ValueError Text :=
  let digits := Nat.toDigits 10 n.natAbs
  if TooLong interpreter digits.length then .error .tooManyDigits
  else .ok (if n < 0 then '-' :: digits else digits)

def hexDigitValue (c : Char) : Option Nat :=
  if 48 ≤ c.toNat ∧ c.toNat ≤ 57 then some (c.toNat - 48)
  else if 97 ≤ c.toNat ∧ c.toNat ≤ 102 then some (c.toNat - 87)
  else if 65 ≤ c.toNat ∧ c.toNat ≤ 70 then some (c.toNat - 55)
  else none

def isAsciiSpace (c : Char) : Bool := c.toNat = 32 || (9 ≤ c.toNat && c.toNat ≤ 13)

/-- The fromhex method of bytes. White space may stand between two bytes. -/
def fromHex : Text → Except ValueError (List UInt8)
  | [] => .ok []
  | [c] => if isAsciiSpace c then .ok [] else .error .notHexadecimal
  | c :: d :: cs =>
      if isAsciiSpace c then fromHex (d :: cs)
      else match hexDigitValue c, hexDigitValue d with
        | some high, some low => (fromHex cs).map (UInt8.ofNat (16 * high + low) :: ·)
        | _, _ => .error .notHexadecimal

/-- No character at which a text is split. -/
def Unbroken (text : Text) : Prop := ∀ c ∈ text, isWhitespace c = false

instance (text : Text) : Decidable (Unbroken text) := List.decidableBAll (fun c => isWhitespace c = false) text

theorem isWhitespace_of_isLineBoundary {c : Char} (h : isLineBoundary c = true) : isWhitespace c = true := by
  have hsub : ∀ n ∈ lineBoundaries, n ∈ whitespace := by decide
  simp only [isLineBoundary, decide_eq_true_eq] at h
  simp only [isWhitespace, decide_eq_true_eq]
  exact hsub _ h

theorem Unbroken.append {s t : Text} (hs : Unbroken s) (ht : Unbroken t) : Unbroken (s ++ t) := by
  intro c hc
  rcases List.mem_append.mp hc with hc | hc
  · exact hs c hc
  · exact ht c hc

theorem wordsFrom_word (word text rest : Text) (h : Unbroken text) :
    wordsFrom word (text ++ rest) = wordsFrom (word ++ text) rest := by
  induction text generalizing word with
  | nil => simp
  | cons c cs ih =>
      have hc := h c (by simp)
      rw [List.cons_append, wordsFrom, hc, if_neg Bool.false_ne_true, ih _ (fun d hd => h d (by simp [hd])),
        List.append_assoc, List.singleton_append]

theorem wordsFrom_words (word : Text) (words : List Text) (hw : word ≠ [] ∧ Unbroken word)
    (h : ∀ w ∈ words, w ≠ [] ∧ Unbroken w) :
    wordsFrom [] (word ++ words.flatMap (fun w => ' ' :: w)) = word :: words := by
  induction words generalizing word with
  | nil =>
      rw [wordsFrom_word [] word _ hw.2]
      simp [wordsFrom, hw.1]
  | cons w ws ih =>
      have hspace : isWhitespace ' ' = true := by decide
      rw [wordsFrom_word [] word _ hw.2, List.nil_append, List.flatMap_cons, List.cons_append, wordsFrom, hspace,
        if_pos rfl, if_neg hw.1, ih w (h w (by simp)) (fun v hv => h v (by simp [hv]))]

theorem Unbroken.isLineBoundary {text : Text} (h : Unbroken text) {c : Char} (hc : c ∈ text) :
    isLineBoundary c = false := by
  by_contra hb
  rw [Bool.not_eq_false] at hb
  have hspace := h c hc
  rw [isWhitespace_of_isLineBoundary hb] at hspace
  cases hspace

theorem linesFrom_line (line text : Text) (h : ∀ c ∈ text, isLineBoundary c = false) (rest : Text) :
    linesFrom line (text ++ '\n' :: rest) = (line ++ text) :: linesFrom [] rest := by
  induction text generalizing line with
  | nil =>
      have hn : isLineBoundary '\n' = true := by decide
      rw [List.nil_append, List.append_nil, linesFrom, if_pos hn]
      intro cs hc
      exact absurd hc (by decide)
  | cons c cs ih =>
      have hboundary := h c (by simp)
      rw [List.cons_append, linesFrom, hboundary, if_neg Bool.false_ne_true, ih _ (fun d hd => h d (by simp [hd])),
        List.append_assoc, List.singleton_append]
      intro ds hc
      rw [hc] at hboundary
      exact absurd hboundary (by decide)

theorem splitOnce_append {separator : Char} {name : Text} (h : separator ∉ name) (value : Text) :
    splitOnce separator (name ++ separator :: value) = (name, value) := by
  have hname : ∀ c ∈ name, decide (c ≠ separator) = true := by
    intro c hc
    simp only [decide_eq_true_eq]
    rintro rfl
    exact h hc
  rw [splitOnce, List.takeWhile_append_of_pos hname, List.dropWhile_append_of_pos hname]
  simp

/-- A numeral as it is printed: ASCII digits without a leading zero. -/
def Canonical (text : Text) : Prop :=
  (∀ c ∈ text, 48 ≤ c.toNat ∧ c.toNat ≤ 57) ∧ (text.head? = some '0' → text = ['0'])

variable {interpreter} {text : Text}

theorem decimalDigit_digitChar (interpreter : Interpreter) {n : Nat} (h : n < 10) :
    interpreter.decimalDigit (Nat.digitChar n) = some n := by
  have hc := Nat.toNat_digitChar_of_lt_ten h
  rw [interpreter.ascii_digit _ (by omega), if_pos (by omega), hc]
  exact congrArg some (Nat.add_sub_cancel_left 48 n)

theorem digitChar_of_digit {c : Char} (h : 48 ≤ c.toNat ∧ c.toNat ≤ 57) : Nat.digitChar (c.toNat - 48) = c := by
  apply Char.toNat_inj.mp
  rw [Nat.toNat_digitChar_of_lt_ten (by omega)]
  omega

theorem digitsValue_snoc (digits : Text) (c : Char) :
    digitsValue interpreter (digits ++ [c]) =
      10 * digitsValue interpreter digits + (interpreter.decimalDigit c).getD 0 := by
  rw [digitsValue, List.foldl_append]
  rfl

theorem head?_snoc (h : text ≠ []) (c : Char) : (text ++ [c]).head? = text.head? := by
  cases text with
  | nil => exact absurd rfl h
  | cons d ds => rfl

theorem toDigits_head (n : Nat) (h : 0 < n) : (Nat.toDigits 10 n).head? ≠ some '0' := by
  induction n using Nat.strongRecOn with
  | ind n ih =>
      by_cases hlt : n < 10
      · rw [Nat.toDigits_of_lt_base hlt, List.head?_singleton]
        have hdigit : ∀ m < 10, 0 < m → some (Nat.digitChar m) ≠ some '0' := by decide
        exact hdigit n hlt h
      · rw [Nat.toDigits_of_base_le (by decide) (not_lt.mp hlt), head?_snoc Nat.toDigits_ne_nil]
        exact ih (n / 10) (by omega) (by omega)

theorem canonical_toDigits (n : Nat) : Canonical (Nat.toDigits 10 n) := by
  constructor
  · intro c hc
    have hd := Nat.isDigit_of_mem_toDigits (by decide) (by decide) hc
    simpa [Char.isDigit, UInt32.le_iff_toNat_le] using hd
  · intro hhead
    cases n with
    | zero => rfl
    | succ n => exact absurd hhead (toDigits_head (n + 1) (Nat.succ_pos n))

theorem toDigits_digitsValue (interpreter : Interpreter) (hne : text ≠ []) (h : Canonical text) :
    Nat.toDigits 10 (digitsValue interpreter text) = text := by
  induction text using List.reverseRecOn with
  | nil => exact absurd rfl hne
  | append_singleton digits c ih =>
      have hc := h.1 c (by simp)
      have hdigit : interpreter.decimalDigit c = some (c.toNat - 48) := by
        have hlt : c.toNat - 48 < 10 := by omega
        have hread := decimalDigit_digitChar interpreter hlt
        rwa [digitChar_of_digit hc] at hread
      rw [digitsValue_snoc, hdigit, Option.getD_some]
      by_cases hnil : digits = []
      · subst hnil
        have hlt : 10 * digitsValue interpreter [] + (c.toNat - 48) < 10 := by
          change 10 * 0 + (c.toNat - 48) < 10
          omega
        rw [Nat.toDigits_of_lt_base hlt, List.nil_append]
        change [Nat.digitChar (10 * 0 + (c.toNat - 48))] = [c]
        rw [Nat.mul_zero, Nat.zero_add, digitChar_of_digit hc]
      · have hhead : digits.head? ≠ some '0' := by
          intro hz
          have hwhole := h.2 ((head?_snoc hnil c).trans hz)
          have hlength := congrArg List.length hwhole
          rw [List.length_append, List.length_singleton, List.length_singleton] at hlength
          exact hnil (List.length_eq_zero_iff.mp (by omega))
        have hcanonical : Canonical digits := ⟨fun d hd => h.1 d (by simp [hd]), fun hz => absurd hz hhead⟩
        have hih := ih hnil hcanonical
        have hpos : 0 < digitsValue interpreter digits := by
          rw [Nat.pos_iff_ne_zero]
          intro hz
          rw [hz, Nat.toDigits_zero] at hih
          rw [← hih] at hhead
          exact hhead rfl
        rw [← Nat.toDigits_append_toDigits (by decide) hpos (by omega), hih,
          Nat.toDigits_of_lt_base (by omega), digitChar_of_digit hc]

/-- A decimal text is read and printed unchanged exactly when it is a printed
numeral within the bound on digits. -/
theorem textOfInt_digitsValue (hne : text ≠ []) :
    textOfInt interpreter (digitsValue interpreter text) = .ok text ↔
      Canonical text ∧ ¬ TooLong interpreter text.length := by
  have hsign : ¬ ((digitsValue interpreter text : Nat) : Int) < 0 := by omega
  simp only [textOfInt, Int.natAbs_natCast, hsign, if_false]
  constructor
  · intro h
    split at h
    · cases h
    next hlong =>
      have htext := Except.ok.inj h
      rw [htext] at hlong
      exact ⟨htext ▸ canonical_toDigits _, hlong⟩
  · rintro ⟨hc, hlong⟩
    rw [toDigits_digitsValue interpreter hne hc, if_neg hlong]

/-- Numbers of 64 bits are short enough for every interpreter. -/
theorem not_tooLong_toDigits (interpreter : Interpreter) {n : Nat} (h : n < 2 ^ 64) :
    ¬ TooLong interpreter (Nat.toDigits 10 n).length := by
  have hdigits : (Nat.toDigits 10 n).length ≤ 20 := (Nat.length_toDigits_le_iff (by decide) (by decide)).mpr (by omega)
  rintro ⟨hlimit, hlong⟩
  rcases interpreter.maxStrDigits_large with hzero | hlarge
  · exact hlimit hzero
  · omega

theorem textOfInt_natCast (interpreter : Interpreter) {n : Nat} (h : n < 2 ^ 64) :
    textOfInt interpreter n = .ok (Nat.toDigits 10 n) := by
  have hsign : ¬ (n : Int) < 0 := by omega
  simp only [textOfInt, Int.natAbs_natCast, if_neg (not_tooLong_toDigits interpreter h), if_neg hsign]

end BeaconNode.PythonText
