import BeaconNode.Words
import Mathlib.Data.Char

namespace BeaconNode.Utf8

open Words

section Below

variable {α : Type} [LinearOrder α]

/-- Lexicographically smaller, and not only by being shorter: the lists
differ at a place that both of them have. -/
inductive Below : List α → List α → Prop
  | head {a b : α} {s t : List α} (h : a < b) : Below (a :: s) (b :: t)
  | tail {a b : α} {s t : List α} (he : a = b) (h : Below s t) : Below (a :: s) (b :: t)

theorem Below.append {s t : List α} (h : Below s t) (u v : List α) : Below (s ++ u) (t ++ v) := by
  induction h with
  | head hlt => exact .head hlt
  | tail he _ ih => exact .tail he ih

theorem Below.lt {s t : List α} (h : Below s t) : s < t := by
  induction h with
  | head hlt => exact .rel hlt
  | tail he _ ih =>
      subst he
      exact .cons ih

end Below

/-- The bytes of a text. Characters are the Unicode scalar values, so every
text has an encoding. -/
def encode (text : List Char) : Bytes := text.flatMap String.utf8EncodeChar

theorem encode_cons (c : Char) (text : List Char) : encode (c :: text) = String.utf8EncodeChar c ++ encode text :=
  List.flatMap_cons

theorem encode_append (s t : List Char) : encode (s ++ t) = encode s ++ encode t :=
  List.flatMap_append

theorem byte_lt {m n : Nat} (h : m < n) (hn : n < 256) : UInt8.ofNat m < UInt8.ofNat n := by
  rw [UInt8.lt_iff_toNat_lt, UInt8.toNat_ofNat', UInt8.toNat_ofNat']
  omega

theorem encodeChar_one {c : Char} (h : c.toNat ≤ 0x7f) : String.utf8EncodeChar c = [UInt8.ofNat c.toNat] :=
  if_pos h

theorem encodeChar_two {c : Char} (h : 0x7f < c.toNat) (hu : c.toNat ≤ 0x7ff) :
    String.utf8EncodeChar c =
      [UInt8.ofNat (c.toNat / 64 % 0x20 + 0xc0), UInt8.ofNat (c.toNat % 0x40 + 0x80)] :=
  (if_neg (not_le.mpr h)).trans (if_pos hu)

theorem encodeChar_three {c : Char} (h : 0x7ff < c.toNat) (hu : c.toNat ≤ 0xffff) :
    String.utf8EncodeChar c =
      [UInt8.ofNat (c.toNat / 4096 % 0x10 + 0xe0), UInt8.ofNat (c.toNat / 64 % 0x40 + 0x80),
        UInt8.ofNat (c.toNat % 0x40 + 0x80)] :=
  (if_neg (by change ¬ c.toNat ≤ 0x7f; omega)).trans ((if_neg (not_le.mpr h)).trans (if_pos hu))

theorem encodeChar_four {c : Char} (h : 0xffff < c.toNat) :
    String.utf8EncodeChar c =
      [UInt8.ofNat (c.toNat / 262144 % 0x08 + 0xf0), UInt8.ofNat (c.toNat / 4096 % 0x40 + 0x80),
        UInt8.ofNat (c.toNat / 64 % 0x40 + 0x80), UInt8.ofNat (c.toNat % 0x40 + 0x80)] :=
  (if_neg (by change ¬ c.toNat ≤ 0x7f; omega)).trans
    ((if_neg (by change ¬ c.toNat ≤ 0x7ff; omega)).trans (if_neg (not_le.mpr h)))

theorem toNat_lt (c : Char) : c.toNat < 0x110000 := by
  have hv : c.toNat.isValidChar := c.valid
  rcases hv with h | ⟨-, h⟩
  · omega
  · exact h

theorem below_last {m n : Nat} (h : m % 64 < n % 64) :
    Below [UInt8.ofNat (m % 0x40 + 0x80)] [UInt8.ofNat (n % 0x40 + 0x80)] :=
  .head (byte_lt (by omega) (by omega))

theorem below_pair {m n : Nat} (hlt : m % 4096 < n % 4096) :
    Below [UInt8.ofNat (m / 64 % 0x40 + 0x80), UInt8.ofNat (m % 0x40 + 0x80)]
      [UInt8.ofNat (n / 64 % 0x40 + 0x80), UInt8.ofNat (n % 0x40 + 0x80)] := by
  by_cases h : m / 64 % 64 < n / 64 % 64
  · exact .head (byte_lt (by omega) (by omega))
  · have he : m / 64 % 64 = n / 64 % 64 := by omega
    exact .tail (by rw [he]) (below_last (by omega))

theorem below_triple {m n : Nat} (hlt : m % 262144 < n % 262144) :
    Below [UInt8.ofNat (m / 4096 % 0x40 + 0x80), UInt8.ofNat (m / 64 % 0x40 + 0x80), UInt8.ofNat (m % 0x40 + 0x80)]
      [UInt8.ofNat (n / 4096 % 0x40 + 0x80), UInt8.ofNat (n / 64 % 0x40 + 0x80),
        UInt8.ofNat (n % 0x40 + 0x80)] := by
  by_cases h : m / 4096 % 64 < n / 4096 % 64
  · exact .head (byte_lt (by omega) (by omega))
  · have he : m / 4096 % 64 = n / 4096 % 64 := by omega
    exact .tail (by rw [he]) (below_pair (by omega))

/-- Longer encodings start with larger bytes, and encodings of one length
are ordered by their payload bits. -/
theorem encodeChar_below {c d : Char} (h : c < d) : Below (String.utf8EncodeChar c) (String.utf8EncodeChar d) := by
  have hlt : c.toNat < d.toNat := h
  have hd := toNat_lt d
  by_cases h1 : c.toNat ≤ 0x7f
  · rw [encodeChar_one h1]
    by_cases k1 : d.toNat ≤ 0x7f
    · rw [encodeChar_one k1]
      exact .head (byte_lt hlt (by omega))
    by_cases k2 : d.toNat ≤ 0x7ff
    · rw [encodeChar_two (by omega) k2]
      exact .head (byte_lt (by omega) (by omega))
    by_cases k3 : d.toNat ≤ 0xffff
    · rw [encodeChar_three (by omega) k3]
      exact .head (byte_lt (by omega) (by omega))
    · rw [encodeChar_four (by omega)]
      exact .head (byte_lt (by omega) (by omega))
  by_cases h2 : c.toNat ≤ 0x7ff
  · rw [encodeChar_two (by omega) h2]
    by_cases k2 : d.toNat ≤ 0x7ff
    · rw [encodeChar_two (by omega) k2]
      by_cases hh : c.toNat / 64 < d.toNat / 64
      · exact .head (byte_lt (by omega) (by omega))
      · have he : c.toNat / 64 = d.toNat / 64 := by omega
        exact .tail (by rw [he]) (below_last (by omega))
    by_cases k3 : d.toNat ≤ 0xffff
    · rw [encodeChar_three (by omega) k3]
      exact .head (byte_lt (by omega) (by omega))
    · rw [encodeChar_four (by omega)]
      exact .head (byte_lt (by omega) (by omega))
  by_cases h3 : c.toNat ≤ 0xffff
  · rw [encodeChar_three (by omega) h3]
    by_cases k3 : d.toNat ≤ 0xffff
    · rw [encodeChar_three (by omega) k3]
      by_cases hh : c.toNat / 4096 < d.toNat / 4096
      · exact .head (byte_lt (by omega) (by omega))
      · have he : c.toNat / 4096 = d.toNat / 4096 := by omega
        exact .tail (by rw [he]) (below_pair (by omega))
    · rw [encodeChar_four (by omega)]
      exact .head (byte_lt (by omega) (by omega))
  · rw [encodeChar_four (by omega), encodeChar_four (by omega)]
    by_cases hh : c.toNat / 262144 < d.toNat / 262144
    · exact .head (byte_lt (by omega) (by omega))
    · have he : c.toNat / 262144 = d.toNat / 262144 := by omega
      exact .tail (by rw [he]) (below_triple (by omega))

/-- The order of bytes on encodings is the order of code points on texts, a
text and its own beginning included. -/
theorem encode_lt {s t : List Char} (h : s < t) : encode s < encode t := by
  have hlex : List.Lex (· < ·) s t := h
  induction hlex with
  | @nil c _ =>
      rw [encode_cons]
      cases hc : String.utf8EncodeChar c with
      | nil => exact absurd hc String.utf8EncodeChar_ne_nil
      | cons b bs => exact .nil
  | cons _ ih =>
      rw [encode_cons, encode_cons]
      exact List.Lex.append_left _ (ih ‹_›) _
  | rel hcd =>
      rw [encode_cons, encode_cons]
      exact ((encodeChar_below hcd).append _ _).lt

theorem encode_injective {s t : List Char} (h : encode s = encode t) : s = t := by
  rcases lt_trichotomy s t with hlt | he | hgt
  · exact absurd h (encode_lt hlt).ne
  · exact he
  · exact absurd h (encode_lt hgt).ne'

/-- The text of the bytes, if they are the encoding of one. -/
def decode (bytes : Bytes) : Option (List Char) := bytes.toByteArray.utf8Decode?.map Array.toList

theorem decode_encode (text : List Char) : decode (encode text) = some text := by
  have hdecode : text.utf8Encode.utf8Decode? = some text.toArray := List.utf8Decode?_utf8Encode
  rw [List.utf8Encode] at hdecode
  rw [decode, encode, hdecode]
  rfl

theorem encode_of_decode {bytes : Bytes} {text : List Char} (h : decode bytes = some text) : encode text = bytes := by
  obtain ⟨chars, hchars, rfl⟩ := Option.map_eq_some_iff.mp h
  have hsome : bytes.toByteArray.utf8Decode?.isSome := by
    rw [hchars]
    rfl
  have hget : bytes.toByteArray.utf8Decode?.get hsome = chars := Option.get_of_eq_some hsome hchars
  have hbytes := ByteArray.utf8Encode_get_utf8Decode? (h := hsome)
  rw [hget, List.utf8Encode] at hbytes
  have hdata := congrArg (fun b => b.data.toList) hbytes
  simpa only [List.data_toByteArray, encode] using hdata

theorem toNat_eq_of_mem_encodeChar {c : Char} {b : UInt8} (h : b ∈ String.utf8EncodeChar c) (hb : b.toNat < 128) :
    c.toNat = b.toNat := by
  have hhigh {n : Nat} (hn : 128 ≤ n) (hn' : n < 256) (he : b = UInt8.ofNat n) : False := by
    have hv := congrArg UInt8.toNat he
    rw [UInt8.toNat_ofNat'] at hv
    omega
  have hc := toNat_lt c
  by_cases h1 : c.toNat ≤ 0x7f
  · rw [encodeChar_one h1, List.mem_singleton] at h
    rw [h, UInt8.toNat_ofNat']
    omega
  · by_cases h2 : c.toNat ≤ 0x7ff
    · rw [encodeChar_two (by omega) h2] at h
      simp only [List.mem_cons, List.not_mem_nil, or_false] at h
      rcases h with h | h
      · exact (hhigh (by omega) (by omega) h).elim
      · exact (hhigh (by omega) (by omega) h).elim
    · by_cases h3 : c.toNat ≤ 0xffff
      · rw [encodeChar_three (by omega) h3] at h
        simp only [List.mem_cons, List.not_mem_nil, or_false] at h
        rcases h with h | h | h
        · exact (hhigh (by omega) (by omega) h).elim
        · exact (hhigh (by omega) (by omega) h).elim
        · exact (hhigh (by omega) (by omega) h).elim
      · rw [encodeChar_four (by omega)] at h
        simp only [List.mem_cons, List.not_mem_nil, or_false] at h
        rcases h with h | h | h | h
        · exact (hhigh (by omega) (by omega) h).elim
        · exact (hhigh (by omega) (by omega) h).elim
        · exact (hhigh (by omega) (by omega) h).elim
        · exact (hhigh (by omega) (by omega) h).elim

theorem exists_char_of_mem_encode {text : List Char} {b : UInt8} (h : b ∈ encode text) (hb : b.toNat < 128) :
    ∃ c ∈ text, c.toNat = b.toNat := by
  obtain ⟨c, hc, hbc⟩ := List.mem_flatMap.mp h
  exact ⟨c, hc, toNat_eq_of_mem_encodeChar hbc hb⟩

end BeaconNode.Utf8
