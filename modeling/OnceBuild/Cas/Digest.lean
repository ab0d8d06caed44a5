import OnceBuild.Lib.PathText

/-!
# Digests and action results of the content-addressed store

A digest is 32 bytes that the store only ever compares, prints as lowercase hex and parses back
from it.  Printing and parsing are inverse to each other, so the hex text stands for the bytes.
-/

namespace OnceBuild.Cas

open List

/-- Characters that `Digest::from_hex` accepts. -/
def isLowerHex (c : Char) : Bool := ('0' ≤ c && c ≤ '9') || ('a' ≤ c && c ≤ 'f')

/-- A BLAKE3-256 digest by its 64-character lowercase hex text. -/
structure Digest where
  hex : List Char
  length_hex : hex.length = 64
  all_hex : hex.all isLowerHex = true
  deriving DecidableEq

namespace Digest

/-- `Digest::from_hex`: `none` for any other length, character set or case. -/
def fromHex (s : List Char) : Option Digest :=
  if h : s.length = 64 ∧ s.all isLowerHex = true then
    some { hex := s, length_hex := h.1, all_hex := h.2 }
  else
    none

@[simp] lemma fromHex_hex (d : Digest) : fromHex d.hex = some d := by
  simp [fromHex, d.length_hex, d.all_hex]

lemma isLowerHex_digitChar (digit : Nat) : isLowerHex (Nat.digitChar (digit % 16)) = true := by
  have h : ∀ d : Fin 16, isLowerHex (Nat.digitChar d) = true := by decide
  exact h ⟨digit % 16, Nat.mod_lt _ (by decide)⟩

def ofDigit (digit : Nat) : Digest where
  hex := List.replicate 64 (Nat.digitChar (digit % 16))
  length_hex := length_replicate
  all_hex := all_eq_true.mpr fun _ hc =>
    eq_of_mem_replicate hc ▸ isLowerHex_digitChar digit

lemma isLowerHex_of_mem (d : Digest) {c : Char} (hc : c ∈ d.hex) : isLowerHex c = true :=
  all_eq_true.mp d.all_hex c hc

end Digest

/-! ## Bytes -/

def hexValue (c : Char) : Nat := if c.toNat ≤ 57 then c.toNat - 48 else c.toNat - 87

lemma toNat_of_isLowerHex {c : Char} (h : isLowerHex c = true) :
    (48 ≤ c.toNat ∧ c.toNat ≤ 57) ∨ (97 ≤ c.toNat ∧ c.toNat ≤ 102) := by
  have hle : ∀ a b : Char, a ≤ b ↔ a.toNat ≤ b.toNat := fun a b => Iff.rfl
  simp only [isLowerHex, Bool.or_eq_true, Bool.and_eq_true, decide_eq_true_eq, hle] at h
  exact h

lemma hexValue_lt {c : Char} (h : isLowerHex c = true) : hexValue c < 16 := by
  have hrange := toNat_of_isLowerHex h
  unfold hexValue
  split <;> omega

lemma hexValue_injective {a b : Char} (ha : isLowerHex a = true) (hb : isLowerHex b = true)
    (h : hexValue a = hexValue b) : a = b := by
  have hrangeA := toNat_of_isLowerHex ha
  have hrangeB := toNat_of_isLowerHex hb
  unfold hexValue at h
  have hnat : a.toNat = b.toNat := by
    split at h <;> split at h <;> omega
  exact Char.ext (UInt32.toNat_inj.mp hnat)

def hexBytes : List Char → List UInt8
  | high :: low :: rest => UInt8.ofNat (16 * hexValue high + hexValue low) :: hexBytes rest
  | _ => []

lemma length_hexBytes (digits : List Char) : (hexBytes digits).length = digits.length / 2 := by
  fun_induction hexBytes digits with
  | case1 high low rest ih =>
    simp only [length_cons, ih]
    omega
  | case2 digits hshort =>
    cases digits with
    | nil => rfl
    | cons high rest =>
      cases rest with
      | nil => simp
      | cons low rest => exact absurd rfl (hshort high low rest)

lemma hexBytes_injective {digits digits' : List Char} (hlength : digits.length = digits'.length)
    (heven : digits.length % 2 = 0) (hhex : ∀ c ∈ digits, isLowerHex c = true)
    (hhex' : ∀ c ∈ digits', isLowerHex c = true) (h : hexBytes digits = hexBytes digits') :
    digits = digits' := by
  fun_induction hexBytes digits generalizing digits' with
  | case1 high low rest ih =>
    obtain _ | ⟨high', _ | ⟨low', rest'⟩⟩ := digits'
    · cases hlength
    · cases hlength
    · obtain ⟨hbyte, hrest⟩ := cons.inj h
      have hmem : ∀ c ∈ [high, low, high', low'], isLowerHex c = true := by
        intro c hc
        simp only [mem_cons, not_mem_nil, or_false] at hc
        rcases hc with rfl | rfl | rfl | rfl
        · exact hhex _ (by simp)
        · exact hhex _ (by simp)
        · exact hhex' _ (by simp)
        · exact hhex' _ (by simp)
      have hlt := fun c hc => hexValue_lt (hmem c hc)
      have hhigh := hlt high (by simp)
      have hlow := hlt low (by simp)
      have hhigh' := hlt high' (by simp)
      have hlow' := hlt low' (by simp)
      -- sixteen times one digit plus the other fits in a byte
      have hnat : 16 * hexValue high + hexValue low = 16 * hexValue high' + hexValue low' := by
        have := congrArg UInt8.toNat hbyte
        simp only [UInt8.toNat_ofNat'] at this
        omega
      have heqHigh : high = high' :=
        hexValue_injective (hmem _ (by simp)) (hmem _ (by simp)) (by omega)
      have heqLow : low = low' :=
        hexValue_injective (hmem _ (by simp)) (hmem _ (by simp)) (by omega)
      simp only [length_cons] at hlength heven
      have heqRest := ih (by omega) (by omega)
        (fun c hc => hhex c (by simp [hc])) (fun c hc => hhex' c (by simp [hc])) hrest
      rw [heqHigh, heqLow, heqRest]
  | case2 digits hshort =>
    obtain rfl : digits = [] := by
      obtain _ | ⟨high, _ | ⟨low, rest⟩⟩ := digits
      · rfl
      · cases heven
      · exact absurd rfl (hshort high low rest)
    exact (length_eq_zero_iff.mp hlength.symm).symm

namespace Digest

/-- `Digest::as_bytes`. -/
def asBytes (d : Digest) : List UInt8 := hexBytes d.hex

lemma length_asBytes (d : Digest) : d.asBytes.length = 32 := by
  rw [asBytes, length_hexBytes, d.length_hex]

lemma ext_hex {d d' : Digest} (h : d.hex = d'.hex) : d = d' := by
  cases d
  cases h
  rfl

lemma asBytes_injective {d d' : Digest} (h : d.asBytes = d'.asBytes) : d = d' := by
  refine ext_hex (hexBytes_injective (d.length_hex.trans d'.length_hex.symm) ?_
    (fun c hc => d.isLowerHex_of_mem hc) (fun c hc => d'.isLowerHex_of_mem hc) h)
  rw [d.length_hex]

end Digest
/-- Cached result of one action: its exit code, captured streams and declared outputs. -/
structure ActionResult where
  exitCode : Int
  stdout : Option Digest
  stderr : Option Digest
  outputs : List (Lib.Text × Digest)
  deriving DecidableEq

end OnceBuild.Cas
