import BeaconNode.Words
import Mathlib.Data.List.TakeWhile

namespace BeaconNode.TextStream

open Words

/-- The bytes of a literal. All literals of the sources are ASCII. -/
def ascii (s : String) : Bytes := s.toList.map (fun c => UInt8.ofNat c.toNat)

def space : UInt8 := 32
def newline : UInt8 := 10
def equals : UInt8 := 61

/-- std::isspace in the C locale, which formatted extraction skips. -/
def isSpace (c : UInt8) : Bool := c == 32 || (9 ≤ c && c ≤ 13)

def SpaceFree (text : Bytes) : Prop := ∀ c ∈ text, isSpace c = false

instance (text : Bytes) : Decidable (SpaceFree text) :=
  decidable_of_iff (text.all (fun c => !isSpace c) = true) (by simp [SpaceFree])

def tokensFrom (token : Bytes) : Bytes → List Bytes
  | [] => if token = [] then [] else [token]
  | c :: cs =>
      if isSpace c then
        if token = [] then tokensFrom [] cs else token :: tokensFrom [] cs
      else tokensFrom (token ++ [c]) cs

/-- The values that repeated extraction into a string reads from a stream. -/
def splitTokens (text : Bytes) : List Bytes := tokensFrom [] text

def linesFrom (line : Bytes) : Bytes → List Bytes
  | [] => if line = [] then [] else [line]
  | c :: cs => if c = newline then line :: linesFrom [] cs else linesFrom (line ++ [c]) cs

/-- The values that repeated getline reads. Text after the last newline is a
line of its own unless it is empty. -/
def getLines (text : Bytes) : List Bytes := linesFrom [] text

/-- The single line that the first getline reads. -/
def firstLine (text : Bytes) : Bytes := text.takeWhile (· ≠ newline)

def startsWith (token pre : Bytes) : Bool := pre.isPrefixOf token

/-- The text before the first equals sign and, when there is one, the text
after it. -/
def splitEquals (token : Bytes) : Bytes × Option Bytes :=
  (token.takeWhile (· ≠ equals), (token.dropWhile (· ≠ equals)).tail?)

def isDigit (c : UInt8) : Bool := 48 ≤ c && c ≤ 57

def decimalValue (digits : Bytes) : Nat := digits.foldl (fun n c => 10 * n + (c.toNat - 48)) 0

/-- std::to_string of an unsigned integer. -/
def decimal (n : Nat) : Bytes := (Nat.toDigits 10 n).map (fun c => UInt8.ofNat c.toNat)

structure FromChars where
  value : Option UInt64
  rest : Bytes

/-- std::from_chars for a 64-bit unsigned target: the longest run of digits
is consumed, no sign or space is accepted, and the target is written only
when the number fits. -/
def fromChars (text : Bytes) : FromChars :=
  let digits := text.takeWhile isDigit
  if digits = [] then ⟨none, text⟩
  else if decimalValue digits < 2 ^ 64 then ⟨some (UInt64.ofNat (decimalValue digits)), text.dropWhile isDigit⟩
  else ⟨none, text.dropWhile isDigit⟩

theorem SpaceFree.append {s t : Bytes} (hs : SpaceFree s) (ht : SpaceFree t) : SpaceFree (s ++ t) := by
  intro c hc
  rcases List.mem_append.mp hc with hc | hc
  · exact hs c hc
  · exact ht c hc

theorem SpaceFree.sublist {s t : Bytes} (ht : SpaceFree t) (h : s.Sublist t) : SpaceFree s :=
  fun c hc => ht c (h.subset hc)

theorem SpaceFree.newline_not_mem {s : Bytes} (hs : SpaceFree s) : newline ∉ s := by
  intro hc
  exact Bool.noConfusion (hs newline hc)

theorem tokensFrom_word (token word rest : Bytes) (h : SpaceFree word) :
    tokensFrom token (word ++ rest) = tokensFrom (token ++ word) rest := by
  induction word generalizing token with
  | nil => simp
  | cons c cs ih =>
      have hc : isSpace c = false := h c (by simp)
      simp only [List.cons_append, tokensFrom, hc, Bool.false_eq_true, if_false]
      rw [ih _ (fun d hd => h d (by simp [hd]))]
      simp

theorem tokensFrom_space (token rest : Bytes) (h : token ≠ []) :
    tokensFrom token (space :: rest) = token :: tokensFrom [] rest := by
  simp [tokensFrom, h, show isSpace space = true from rfl]

theorem splitTokens_words (word : Bytes) (words : List Bytes)
    (h : ∀ w ∈ word :: words, w ≠ [] ∧ SpaceFree w) :
    splitTokens (word ++ words.flatMap (fun w => space :: w)) = word :: words := by
  induction words generalizing word with
  | nil =>
      obtain ⟨hne, hs⟩ := h word (by simp)
      have he := tokensFrom_word [] word [] hs
      simpa [splitTokens, tokensFrom, hne] using he
  | cons w ws ih =>
      obtain ⟨hne, hs⟩ := h word (by simp)
      have hw := ih w (fun v hv => h v (by simp [List.mem_cons.mp hv]))
      rw [splitTokens] at hw ⊢
      rw [tokensFrom_word [] word _ hs, List.nil_append, List.flatMap_cons, List.cons_append,
        tokensFrom_space _ _ hne, hw]

theorem tokensFrom_trailing (token text : Bytes) (c : UInt8) (h : isSpace c = true) :
    tokensFrom token (text ++ [c]) = tokensFrom token text := by
  induction text generalizing token with
  | nil => simp [tokensFrom, h]
  | cons d ds ih => simp only [List.cons_append, tokensFrom, ih]

theorem tokensFrom_mem {token text t : Bytes} (hs : SpaceFree token) (h : t ∈ tokensFrom token text) :
    t ≠ [] ∧ SpaceFree t := by
  induction text generalizing token with
  | nil =>
      by_cases he : token = []
      · simp [tokensFrom, he] at h
      · simp only [tokensFrom, he, if_false, List.mem_singleton] at h
        exact h ▸ ⟨he, hs⟩
  | cons c cs ih =>
      simp only [tokensFrom] at h
      split at h
      · split at h
        next he => exact ih (by simp [SpaceFree]) h
        next he =>
          rcases List.mem_cons.mp h with rfl | h
          · exact ⟨he, hs⟩
          · exact ih (by simp [SpaceFree]) h
      next hc =>
        refine ih (hs.append ?_) h
        simpa [SpaceFree] using hc

theorem splitTokens_mem {text t : Bytes} (h : t ∈ splitTokens text) : t ≠ [] ∧ SpaceFree t :=
  tokensFrom_mem (by simp [SpaceFree]) h

theorem splitTokens_fields {text verb : Bytes} {fields : List Bytes} (h : splitTokens text = verb :: fields) :
    ∀ t ∈ fields, SpaceFree t := by
  intro t ht
  exact (splitTokens_mem (h ▸ List.mem_cons_of_mem verb ht)).2

theorem linesFrom_line (line text rest : Bytes) (h : newline ∉ text) :
    linesFrom line (text ++ newline :: rest) = (line ++ text) :: linesFrom [] rest := by
  induction text generalizing line with
  | nil => simp [linesFrom]
  | cons c cs ih =>
      rw [List.mem_cons, not_or] at h
      rw [List.cons_append, linesFrom, if_neg (Ne.symm h.1), ih _ h.2]
      simp

theorem getLines_lines (lines : List Bytes) (h : ∀ l ∈ lines, newline ∉ l) :
    getLines (lines.flatMap (fun l => l ++ [newline])) = lines := by
  rw [getLines]
  induction lines with
  | nil => rfl
  | cons l ls ih =>
      rw [List.flatMap_cons, List.append_assoc, List.singleton_append,
        linesFrom_line [] l _ (h l (by simp)), ih (fun k hk => h k (by simp [hk]))]
      rfl

theorem firstLine_append (line rest : Bytes) (h : newline ∉ line) :
    firstLine (line ++ newline :: rest) = line := by
  have hn : ∀ c ∈ line, decide (c ≠ newline) = true := by
    intro c hc
    have hne : c ≠ newline := fun he => h (he ▸ hc)
    exact decide_eq_true hne
  rw [firstLine, List.takeWhile_append_of_pos hn]
  simp

theorem splitEquals_append (name value : Bytes) (h : equals ∉ name) :
    splitEquals (name ++ equals :: value) = (name, some value) := by
  have hn : ∀ c ∈ name, decide (c ≠ equals) = true := by
    intro c hc
    have hne : c ≠ equals := fun he => h (he ▸ hc)
    exact decide_eq_true hne
  rw [splitEquals, List.takeWhile_append_of_pos hn, List.dropWhile_append_of_pos hn]
  simp

theorem digit_toNat {n : Nat} {c : Char} (h : c ∈ Nat.toDigits 10 n) :
    48 ≤ c.toNat ∧ c.toNat ≤ 57 := by
  have hd := Nat.isDigit_of_mem_toDigits (by decide) (by decide) h
  simp only [Char.isDigit, Bool.and_eq_true, decide_eq_true_eq, ge_iff_le, UInt32.le_iff_toNat_le] at hd
  exact hd

theorem decimal_isDigit {n : Nat} {c : UInt8} (h : c ∈ decimal n) : isDigit c = true := by
  obtain ⟨d, hd, rfl⟩ := List.mem_map.mp h
  obtain ⟨hl, hu⟩ := digit_toNat hd
  simp only [isDigit, Bool.and_eq_true, decide_eq_true_eq, UInt8.le_iff_toNat_le, UInt8.toNat_ofNat']
  constructor
  · change 48 ≤ d.toNat % 2 ^ 8; omega
  · change d.toNat % 2 ^ 8 ≤ 57; omega

theorem decimal_ne_nil (n : Nat) : decimal n ≠ [] := by
  simp [decimal, Nat.toDigits_ne_nil]

theorem isSpace_of_isDigit {c : UInt8} (h : isDigit c = true) : isSpace c = false := by
  simp only [isDigit, Bool.and_eq_true, decide_eq_true_eq, UInt8.le_iff_toNat_le] at h
  have h48 : (48 : UInt8).toNat = 48 := rfl
  have h9 : (9 : UInt8).toNat = 9 := rfl
  have h13 : (13 : UInt8).toNat = 13 := rfl
  have hne : c ≠ 32 := by
    rintro rfl
    exact absurd h.1 (by decide)
  have h13' : ¬ c ≤ 13 := by
    rw [UInt8.le_iff_toNat_le]
    omega
  simp [isSpace, hne, h13']

theorem decimal_spaceFree (n : Nat) : SpaceFree (decimal n) :=
  fun _ hc => isSpace_of_isDigit (decimal_isDigit hc)

theorem decimalValue_decimal (n : Nat) : decimalValue (decimal n) = n := by
  have hfold : ∀ (cs : List Char) (m : Nat), (∀ c ∈ cs, 48 ≤ c.toNat ∧ c.toNat ≤ 57) →
      (cs.map (fun c => UInt8.ofNat c.toNat)).foldl (fun n c => 10 * n + (c.toNat - 48)) m =
        Nat.ofDigitChars 10 cs m := by
    intro cs
    induction cs with
    | nil => intro m _; rfl
    | cons c cs ih =>
        intro m h
        have hc := h c (by simp)
        have hb : (UInt8.ofNat c.toNat).toNat = c.toNat := by
          rw [UInt8.toNat_ofNat']
          omega
        rw [List.map_cons, List.foldl_cons, hb, ih _ (fun d hd => h d (by simp [hd])), Nat.ofDigitChars_cons]
        rfl
  rw [decimalValue, decimal, hfold _ _ (fun c hc => digit_toNat hc), Nat.ofDigitChars_ten_toDigits]

theorem fromChars_decimal (n : UInt64) : fromChars (decimal n.toNat) = ⟨some n, []⟩ := by
  have hall : ∀ c ∈ decimal n.toNat, isDigit c = true := fun c hc => decimal_isDigit hc
  have ht : (decimal n.toNat).takeWhile isDigit = decimal n.toNat := by simpa using hall
  have hd : (decimal n.toNat).dropWhile isDigit = [] := by simpa using hall
  have hlt := n.toNat_lt
  simp [fromChars, ht, hd, decimal_ne_nil, decimalValue_decimal, hlt]

end BeaconNode.TextStream
