import Mathlib.Data.List.TakeWhile
import Mathlib.Data.String.Basic

/-!
# Base64

The standard alphabet with padding (RFC 4648), as Go reads it and as Node writes and reads it.

* `decodeString` — Go's `base64.StdEncoding.DecodeString`: line breaks are skipped, the padding has
  to be right, the bits it leaves over are not looked at.
* `ofText` — Node's `Buffer.from(text, 'base64')`: what is not of the alphabet is skipped, and the
  first `=` ends it.
* `encode` — `buffer.toString('base64')`.
* `encodeUrl` — `buffer.toString('base64url')`; `ofText_encodeUrl`, which is read back.
* `length_bytesOf` — six bits a character, eight a byte.
-/

set_option autoImplicit false

namespace Base64

def alphabet : List Char :=
  "ABCDEFGHIJKLMNOPQRSTUVWXYZabcdefghijklmnopqrstuvwxyz0123456789+/".toList

def inAlphabet (c : Char) : Bool := alphabet.contains c

def value (c : Char) : Nat := alphabet.idxOf c

/-- The bytes of a list of six-bit values; the bits that fill no byte are dropped. -/
def bytesOf : List Nat → List Nat
  | a :: b :: c :: d :: rest =>
    (a * 4 + b / 16) :: (b % 16 * 16 + c / 4) :: (c % 4 * 64 + d) :: bytesOf rest
  | [a, b, c] => [a * 4 + b / 16, b % 16 * 16 + c / 4]
  | [a, b] => [a * 4 + b / 16]
  | _ => []

theorem length_bytesOf (l : List Nat) : (bytesOf l).length = l.length * 6 / 8 := by
  fun_induction bytesOf l with
  | case1 a b c d rest ih =>
    simp only [List.length_cons, ih]
    omega
  | case2 => simp
  | case3 => simp
  | case4 l h1 h2 h3 =>
    match l with
    | [] => simp
    | [_] => simp
    | [a, b] => exact absurd rfl (h3 a b)
    | [a, b, c] => exact absurd rfl (h2 a b c)
    | a :: b :: c :: d :: rest => exact absurd rfl (h1 a b c d rest)

/-- `base64.StdEncoding.DecodeString` -/
def decodeString (s : String) : Option (List Nat) :=
  let cs := s.toList.filter fun c => c ≠ '\r' && c ≠ '\n'
  let body := cs.takeWhile (· ≠ '=')
  let padding := cs.dropWhile (· ≠ '=')
  if body.all inAlphabet && padding.all (· = '=') && decide (padding.length ≤ 2)
      && decide ((body.length + padding.length) % 4 = 0) then
    some (bytesOf (body.map value))
  else none

/-- `Buffer.from(text, 'base64')`, the URL alphabet read as the standard one. -/
def ofText (s : String) : List Nat :=
  let standard := fun c => if c = '-' then '+' else if c = '_' then '/' else c
  let body := (s.toList.takeWhile (· ≠ '=')).map standard
  bytesOf ((body.filter inAlphabet).map value)

def digit (n : Nat) : Char := alphabet.getD n 'A'

/-- `buffer.toString('base64')`, by characters. -/
def encodeChars : List Nat → List Char
  | a :: b :: c :: rest =>
    digit (a / 4) :: digit (a % 4 * 16 + b / 16) :: digit (b % 16 * 4 + c / 64) :: digit (c % 64) ::
      encodeChars rest
  | [a, b] => [digit (a / 4), digit (a % 4 * 16 + b / 16), digit (b % 16 * 4), '=']
  | [a] => [digit (a / 4), digit (a % 4 * 16), '=', '=']
  | [] => []

def encode (bytes : List Nat) : String := String.ofList (encodeChars bytes)

theorem digit_mem (n : Nat) : digit n ∈ alphabet := by
  unfold digit
  rw [List.getD_eq_getElem?_getD]
  cases h : alphabet[n]? with
  | none => decide
  | some c => exact List.mem_of_getElem? h

variable {bytes : List Nat}

theorem mem_encodeChars {c : Char} (h : c ∈ encodeChars bytes) : c ∈ alphabet ∨ c = '=' := by
  fun_induction encodeChars bytes with
  | case1 a b d rest ih =>
    simp only [List.mem_cons] at h
    rcases h with rfl | rfl | rfl | rfl | h
    · exact .inl (digit_mem _)
    · exact .inl (digit_mem _)
    · exact .inl (digit_mem _)
    · exact .inl (digit_mem _)
    · exact ih h
  | case2 a b =>
    simp only [List.mem_cons, List.not_mem_nil, or_false] at h
    rcases h with rfl | rfl | rfl | rfl
    · exact .inl (digit_mem _)
    · exact .inl (digit_mem _)
    · exact .inl (digit_mem _)
    · exact .inr rfl
  | case3 a =>
    simp only [List.mem_cons, List.not_mem_nil, or_false] at h
    rcases h with rfl | rfl | rfl | rfl
    · exact .inl (digit_mem _)
    · exact .inl (digit_mem _)
    · exact .inr rfl
    · exact .inr rfl
  | case4 => cases h

example : decodeString (encode [72, 105, 33, 10]) = some [72, 105, 33, 10] := by decide

/-! ## The URL alphabet -/

/-- The six-bit values of a list of bytes. -/
def sextets : List Nat → List Nat
  | a :: b :: c :: rest =>
    a / 4 :: (a % 4 * 16 + b / 16) :: (b % 16 * 4 + c / 64) :: c % 64 :: sextets rest
  | [a, b] => [a / 4, a % 4 * 16 + b / 16, b % 16 * 4]
  | [a] => [a / 4, a % 4 * 16]
  | [] => []

def urlDigit (n : Nat) : Char :=
  if digit n = '+' then '-' else if digit n = '/' then '_' else digit n

/-- `buffer.toString('base64url')`: no padding. -/
def encodeUrl (bytes : List Nat) : String := String.ofList ((sextets bytes).map urlDigit)

theorem sextets_lt (h : ∀ b ∈ bytes, b < 256) : ∀ n ∈ sextets bytes, n < 64 := by
  fun_induction sextets bytes with
  | case1 a b c rest ih =>
    simp only [List.forall_mem_cons] at h ⊢
    obtain ⟨ha, hb, hc, hrest⟩ := h
    exact ⟨by omega, by omega, by omega, by omega, ih hrest⟩
  | case2 a b =>
    simp only [List.forall_mem_cons, List.not_mem_nil] at h ⊢
    obtain ⟨ha, hb, -⟩ := h
    exact ⟨by omega, by omega, by omega, nofun⟩
  | case3 a =>
    simp only [List.forall_mem_cons, List.not_mem_nil] at h ⊢
    obtain ⟨ha, -⟩ := h
    exact ⟨by omega, by omega, nofun⟩
  | case4 => nofun

theorem bytesOf_sextets (h : ∀ b ∈ bytes, b < 256) : bytesOf (sextets bytes) = bytes := by
  fun_induction sextets bytes with
  | case1 a b c rest ih =>
    simp only [List.forall_mem_cons] at h
    obtain ⟨ha, hb, hc, hrest⟩ := h
    rw [bytesOf, ih hrest]
    congr 1
    · omega
    congr 1
    · omega
    congr 1
    omega
  | case2 a b =>
    simp only [List.forall_mem_cons, List.not_mem_nil] at h
    obtain ⟨ha, hb, -⟩ := h
    rw [bytesOf]
    congr 1
    · omega
    congr 1
    omega
  | case3 a =>
    simp only [List.forall_mem_cons, List.not_mem_nil] at h
    obtain ⟨ha, -⟩ := h
    rw [bytesOf]
    congr 1
    omega
  | case4 => rfl

/-- What the URL alphabet writes, the standard one reads. -/
theorem urlDigit_read {n : Nat} (h : n < 64) :
    urlDigit n ≠ '=' ∧
      (if urlDigit n = '-' then '+' else if urlDigit n = '_' then '/' else urlDigit n) = digit n ∧
      inAlphabet (digit n) = true ∧ value (digit n) = n :=
  (by decide +kernel : ∀ n : Fin 64, urlDigit n ≠ '=' ∧
    (if urlDigit n = '-' then '+' else if urlDigit n = '_' then '/' else urlDigit n) = digit n ∧
      inAlphabet (digit n) = true ∧ value (digit n) = n) ⟨n, h⟩

/-- **Bytes written in the URL alphabet are read back.** -/
theorem ofText_encodeUrl (h : ∀ b ∈ bytes, b < 256) : ofText (encodeUrl bytes) = bytes := by
  have hlt := sextets_lt h
  have htake : ((sextets bytes).map urlDigit).takeWhile (· ≠ '=') = (sextets bytes).map urlDigit := by
    rw [List.takeWhile_eq_self_iff]
    intro c hc
    obtain ⟨n, hn, rfl⟩ := List.mem_map.mp hc
    simpa using (urlDigit_read (hlt n hn)).1
  have hstandard : ((sextets bytes).map urlDigit).map
      (fun c => if c = '-' then '+' else if c = '_' then '/' else c) = (sextets bytes).map digit := by
    rw [List.map_map]
    exact List.map_congr_left fun n hn => (urlDigit_read (hlt n hn)).2.1
  have hfilter : ((sextets bytes).map digit).filter inAlphabet = (sextets bytes).map digit := by
    rw [List.filter_eq_self]
    intro c hc
    obtain ⟨n, hn, rfl⟩ := List.mem_map.mp hc
    exact (urlDigit_read (hlt n hn)).2.2.1
  have hvalue : ((sextets bytes).map digit).map value = sextets bytes := by
    rw [List.map_map]
    exact (List.map_congr_left fun n hn => (urlDigit_read (hlt n hn)).2.2.2).trans (List.map_id _)
  rw [encodeUrl, ofText, String.toList_ofList, htake, hstandard, hfilter, hvalue, bytesOf_sextets h]

end Base64
