import Mathlib.Data.List.Basic

/-!
# Texts as bytes

Reading bytes as text either gives the text or fails; the lossy reading puts one replacement
character for each run of bytes that starts a character and does not complete it.
-/

namespace OnceBuild.Lib

open List

def utf8Encode (t : List Char) : List UInt8 := t.flatMap String.utf8EncodeChar

def utf8Head (bytes : List UInt8) : Option Char := bytes.toByteArray.utf8DecodeChar? 0

/-- One character after the other; `invalid` says what a byte that starts none gives. -/
def decodeWith {α : Type} (done : α) (char : Char → α → α)
    (invalid : List UInt8 → (List UInt8 → α) → α) : Nat → List UInt8 → α
  | 0, _ => done
  | _ + 1, [] => done
  | fuel + 1, b :: bytes =>
    match utf8Head (b :: bytes) with
    | some c => char c (decodeWith done char invalid fuel ((b :: bytes).drop c.utf8Size))
    | none => invalid (b :: bytes) (decodeWith done char invalid fuel)

/-- `str::from_utf8`. -/
def fromUtf8 (bytes : List UInt8) : Option (List Char) :=
  decodeWith (some []) (fun c rest => rest.map (c :: ·)) (fun _ _ => none) bytes.length bytes

def isContinuation (b : UInt8) : Bool := b &&& 0xC0 == 0x80

/-- Whether the second byte can follow the first one of a character of three or four bytes. -/
def canFollow (first second : UInt8) : Bool :=
  if first = 0xE0 then 0xA0 ≤ second && second ≤ 0xBF
  else if first = 0xED then 0x80 ≤ second && second ≤ 0x9F
  else if first = 0xF0 then 0x90 ≤ second && second ≤ 0xBF
  else if first = 0xF4 then 0x80 ≤ second && second ≤ 0x8F
  else isContinuation second

/-- How many bytes one replacement character stands for. -/
def invalidLength : List UInt8 → Nat
  | first :: second :: third :: _ =>
    if 0xE0 ≤ first && first ≤ 0xEF && canFollow first second then 2
    else if 0xF0 ≤ first && first ≤ 0xF4 && canFollow first second then
      if isContinuation third then 3 else 2
    else 1
  | [first, second] =>
    if 0xE0 ≤ first && first ≤ 0xF4 && canFollow first second then 2 else 1
  | _ => 1

def replacementChar : Char := '�'

/-- `String::from_utf8_lossy`. -/
def fromUtf8Lossy (bytes : List UInt8) : List Char :=
  decodeWith [] (· :: ·)
    (fun invalid rest => replacementChar :: rest (invalid.drop (invalidLength invalid)))
    bytes.length bytes

@[simp] lemma utf8Encode_cons (c : Char) (t : List Char) :
    utf8Encode (c :: t) = String.utf8EncodeChar c ++ utf8Encode t := rfl

@[simp] lemma utf8Encode_append (s t : List Char) :
    utf8Encode (s ++ t) = utf8Encode s ++ utf8Encode t :=
  flatMap_append

lemma toByteArray_append (a b : List UInt8) :
    (a ++ b).toByteArray = a.toByteArray ++ b.toByteArray := by
  simp

@[simp] lemma utf8Head_encode (c : Char) (bytes : List UInt8) :
    utf8Head (String.utf8EncodeChar c ++ bytes) = some c := by
  unfold utf8Head
  rw [toByteArray_append]
  exact ByteArray.utf8DecodeChar?_utf8EncodeChar_append

variable {bytes : List UInt8}

lemma eq_of_utf8Head {c : Char} (h : utf8Head bytes = some c) :
    ∃ rest, bytes = String.utf8EncodeChar c ++ rest := by
  obtain ⟨rest, hrest⟩ := ByteArray.exists_of_utf8DecodeChar?_eq_some h
  refine ⟨rest.data.toList, ?_⟩
  have := congrArg (fun b : ByteArray => b.data.toList) hrest
  simpa using this

section Decode

variable {α : Type} {done : α} {char : Char → α → α}
  {invalid : List UInt8 → (List UInt8 → α) → α}

lemma length_utf8Encode_le (t : List Char) : (utf8Encode t).length ≤ 4 * t.length := by
  induction t with
  | nil => exact Nat.le_refl _
  | cons c t ih =>
    have hsize : (String.utf8EncodeChar c).length ≤ 4 :=
      Nat.le_trans (Nat.le_of_eq (String.length_utf8EncodeChar c)) c.utf8Size_le_four
    rw [utf8Encode_cons, length_append, length_cons]
    omega

lemma decodeWith_encode (t : List Char) {fuel : Nat} (h : (utf8Encode t).length ≤ fuel) :
    decodeWith done char invalid fuel (utf8Encode t) = t.foldr char done := by
  induction t generalizing fuel with
  | nil => cases fuel <;> rfl
  | cons c t ih =>
    have hsize : (String.utf8EncodeChar c).length = c.utf8Size := String.length_utf8EncodeChar c
    have hpos : 0 < c.utf8Size := c.utf8Size_pos
    rw [utf8Encode_cons, length_append] at h
    obtain ⟨fuel, rfl⟩ : ∃ rest, fuel = rest + 1 := ⟨fuel - 1, by omega⟩
    obtain ⟨b, bytes, hbytes⟩ : ∃ b bytes, utf8Encode (c :: t) = b :: bytes := by
      refine exists_cons_of_ne_nil fun hnil => ?_
      exact String.utf8EncodeChar_ne_nil (append_eq_nil_iff.mp hnil).1
    have hhead : utf8Head (b :: bytes) = some c := by
      rw [← hbytes]
      exact utf8Head_encode c _
    have hdrop : (b :: bytes).drop c.utf8Size = utf8Encode t := by
      rw [← hbytes, utf8Encode_cons, ← hsize, drop_left]
    rw [hbytes]
    simp only [decodeWith, hhead, hdrop, foldr_cons]
    rw [ih (by omega)]

end Decode

lemma fromUtf8Lossy_encode (t : List Char) : fromUtf8Lossy (utf8Encode t) = t := by
  unfold fromUtf8Lossy
  rw [decodeWith_encode t (Nat.le_refl _)]
  exact foldr_cons_nil

@[simp] lemma fromUtf8_encode (t : List Char) : fromUtf8 (utf8Encode t) = some t := by
  unfold fromUtf8
  rw [decodeWith_encode t (Nat.le_refl _)]
  induction t with
  | nil => rfl
  | cons c t ih => rw [foldr_cons, ih, Option.map_some]

variable {t : List Char}

lemma encode_of_decodeWith {fuel : Nat} (hfuel : bytes.length ≤ fuel)
    (h : decodeWith (some []) (fun c rest => rest.map (c :: ·)) (fun _ _ => none) fuel bytes =
      some t) : bytes = utf8Encode t := by
  induction fuel generalizing bytes t with
  | zero =>
    obtain rfl : bytes = [] := length_eq_zero_iff.mp (Nat.le_zero.mp hfuel)
    obtain rfl := Option.some.inj h
    rfl
  | succ fuel ih =>
    cases bytes with
    | nil =>
      obtain rfl := Option.some.inj h
      rfl
    | cons b bytes =>
      simp only [decodeWith] at h
      cases hhead : utf8Head (b :: bytes) with
      | none =>
        rw [hhead] at h
        cases h
      | some c =>
        obtain ⟨rest, hrest⟩ := eq_of_utf8Head hhead
        have hsize : (String.utf8EncodeChar c).length = c.utf8Size := String.length_utf8EncodeChar c
        have hpos : 0 < c.utf8Size := c.utf8Size_pos
        have hdrop : (b :: bytes).drop c.utf8Size = rest := by
          rw [hrest, ← hsize, drop_left]
        have hlength := congrArg length hrest
        rw [length_append] at hlength
        simp only [hhead, hdrop] at h
        obtain ⟨t', ht', rfl⟩ := Option.map_eq_some_iff.mp h
        rw [hrest, utf8Encode_cons, ← ih (by omega) ht']

lemma fromUtf8_eq_some : fromUtf8 bytes = some t ↔ bytes = utf8Encode t := by
  constructor
  · exact encode_of_decodeWith (Nat.le_refl _)
  · rintro rfl
    exact fromUtf8_encode t

lemma utf8Encode_injective : Function.Injective utf8Encode := by
  intro s t h
  rw [← fromUtf8Lossy_encode s, h, fromUtf8Lossy_encode]

lemma isPrefix_of_utf8Encode {s : List Char} (h : utf8Encode s <+: utf8Encode t) : s <+: t := by
  induction s generalizing t with
  | nil => exact nil_prefix
  | cons c s ih =>
    obtain ⟨rest, hrest⟩ := h
    rw [utf8Encode_cons, append_assoc] at hrest
    have hhead := utf8Head_encode c (utf8Encode s ++ rest)
    rw [hrest] at hhead
    cases t with
    | nil => cases hhead
    | cons c' t =>
      rw [utf8Encode_cons, utf8Head_encode] at hhead
      obtain rfl := Option.some.inj hhead
      rw [utf8Encode_cons, append_cancel_left_eq] at hrest
      exact (cons_prefix_cons).mpr ⟨rfl, ih ⟨rest, hrest⟩⟩

/-! ## Zero bytes -/

lemma ofNat_ne_zero {n : Nat} (hpos : 0 < n) (hlt : n < 256) : UInt8.ofNat n ≠ 0 := by
  intro h
  have hnat : n % 256 = 0 := by simpa using congrArg UInt8.toNat h
  omega

lemma zero_notMem_utf8EncodeChar {c : Char} (h : c ≠ '\x00') :
    (0 : UInt8) ∉ String.utf8EncodeChar c := by
  have hpos : 0 < c.val.toNat := by
    refine Nat.pos_of_ne_zero fun hzero => h ?_
    exact Char.ext (UInt32.toNat_inj.mp hzero)
  unfold String.utf8EncodeChar
  intro hmem
  dsimp only at hmem
  split at hmem
  · obtain heq := mem_singleton.mp hmem
    exact ofNat_ne_zero hpos (by omega) heq.symm
  · split at hmem
    · simp only [mem_cons, not_mem_nil, or_false] at hmem
      rcases hmem with heq | heq <;> exact ofNat_ne_zero (by omega) (by omega) heq.symm
    · split at hmem
      · simp only [mem_cons, not_mem_nil, or_false] at hmem
        rcases hmem with heq | heq | heq <;> exact ofNat_ne_zero (by omega) (by omega) heq.symm
      · simp only [mem_cons, not_mem_nil, or_false] at hmem
        rcases hmem with heq | heq | heq | heq <;>
          exact ofNat_ne_zero (by omega) (by omega) heq.symm

lemma count_utf8Encode (t : List Char) : (utf8Encode t).count 0 = t.count '\x00' := by
  induction t with
  | nil => rfl
  | cons c t ih =>
    rw [utf8Encode_cons, count_append, ih, count_cons]
    by_cases hc : c = '\x00'
    · subst hc
      exact Nat.add_comm _ _
    · rw [count_eq_zero_of_not_mem (zero_notMem_utf8EncodeChar hc), Nat.zero_add,
        if_neg (by simpa using hc), Nat.add_zero]

end OnceBuild.Lib
