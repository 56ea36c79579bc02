import Mathlib.Data.List.Basic
import Mathlib.Tactic.NormNum

/-!
UTF-8 with a decoder that never fails. A lead byte says which continuation bytes
may follow; the decoder takes as many of them as are there. A complete sequence
gives its character, and an ill-formed or truncated one gives a single replacement
character for the bytes taken, after which decoding goes on. Decoding an encoded
string gives the string back.
-/

namespace HpcProfiler.Utf8Replace

def encode (s : String) : List UInt8 := s.toList.flatMap String.utf8EncodeChar

/-- The range of a continuation byte. -/
abbrev Range := ℕ × ℕ

def Range.has (r : Range) (b : UInt8) : Bool := r.1 ≤ b.toNat && b.toNat ≤ r.2

def anyTail : Range := (0x80, 0xBF)

/-- The continuation bytes that may follow a lead byte, none for an invalid lead.
The second byte excludes overlong forms, surrogates and values past the last
code point. -/
def followers (lead : ℕ) : Option (List Range) :=
  if lead < 0x80 then some []
  else if lead < 0xC2 then none
  else if lead < 0xE0 then some [anyTail]
  else if lead = 0xE0 then some [(0xA0, 0xBF), anyTail]
  else if lead = 0xED then some [(0x80, 0x9F), anyTail]
  else if lead < 0xF0 then some [anyTail, anyTail]
  else if lead = 0xF0 then some [(0x90, 0xBF), anyTail, anyTail]
  else if lead = 0xF4 then some [(0x80, 0x8F), anyTail, anyTail]
  else if lead < 0xF4 then some [anyTail, anyTail, anyTail]
  else none

/-- How many of the expected continuation bytes are there. -/
def matched : List Range → List UInt8 → ℕ
  | r :: rs, b :: bs => if r.has b then matched rs bs + 1 else 0
  | _, _ => 0

/-- The payload bits of a lead byte with `n` continuation bytes. -/
def leadBits (n lead : ℕ) : ℕ :=
  match n with
  | 0 => lead
  | 1 => lead - 0xC0
  | 2 => lead - 0xE0
  | _ => lead - 0xF0

def codePoint (bits : ℕ) (tail : List UInt8) : ℕ :=
  tail.foldl (fun acc b => acc * 64 + (b.toNat - 0x80)) bits

/-- The character at the front and the number of bytes it takes; none stands for
the replacement character. -/
def scan (b : UInt8) (rest : List UInt8) : Option Char × ℕ :=
  match followers b.toNat with
  | none => (none, 1)
  | some ranges =>
    let k := matched ranges rest
    if k = ranges.length then
      (some (Char.ofNat (codePoint (leadBits k b.toNat) (rest.take k))), k + 1)
    else (none, k + 1)

def replacement : Char := Char.ofNat 0xFFFD

/-- `skip` counts bytes that belong to the character decoded last. -/
def decodeFrom : ℕ → List UInt8 → List Char
  | _, [] => []
  | skip + 1, _ :: bs => decodeFrom skip bs
  | 0, b :: bs =>
    let (c, n) := scan b bs
    c.getD replacement :: decodeFrom (n - 1) bs

def decodeReplace (bytes : List UInt8) : String := String.ofList (decodeFrom 0 bytes)

theorem decodeFrom_drop (k : ℕ) (bytes : List UInt8) :
    decodeFrom k bytes = decodeFrom 0 (bytes.drop k) := by
  induction k generalizing bytes with
  | zero => rfl
  | succ k ih =>
    cases bytes with
    | nil => rfl
    | cons b bs =>
      rw [decodeFrom, ih, List.drop_succ_cons]

/-- Continuation bytes that all lie in their ranges are all matched. -/
theorem matched_append (ranges : List Range) (tail rest : List UInt8)
    (hlen : tail.length = ranges.length)
    (hin : ∀ p ∈ ranges.zip tail, p.1.has p.2 = true) :
    matched ranges (tail ++ rest) = ranges.length := by
  induction ranges generalizing tail with
  | nil => cases tail <;> cases rest <;> rfl
  | cons r rs ih =>
    cases tail with
    | nil => simp at hlen
    | cons b bs =>
      have hb : r.has b = true := hin (r, b) (by simp)
      have hbs := ih bs (by simpa using hlen)
        (fun p hp => hin p (by rw [List.zip_cons_cons]; exact List.mem_cons_of_mem _ hp))
      rw [List.cons_append, matched, if_pos hb, hbs, List.length_cons]

/-- The first ones of them are matched too. -/
theorem matched_take (ranges : List Range) (tail : List UInt8) (hlen : tail.length = ranges.length)
    (hin : ∀ p ∈ ranges.zip tail, p.1.has p.2 = true) {k : ℕ} (hk : k ≤ tail.length) :
    matched ranges (tail.take k) = k := by
  induction ranges generalizing tail k with
  | nil =>
    have hzero : k = 0 := by simpa [hlen] using hk
    subst hzero
    rfl
  | cons r rs ih =>
    cases tail with
    | nil => simp at hlen
    | cons b bs =>
      cases k with
      | zero => rfl
      | succ k =>
        have hb : r.has b = true := hin (r, b) (by simp)
        have hbs := ih bs (by simpa using hlen)
          (fun p hp => hin p (by rw [List.zip_cons_cons]; exact List.mem_cons_of_mem _ hp))
          (by simpa using hk)
        rw [List.take_succ_cons, matched, if_pos hb, hbs]

/-- A lead byte and the continuation bytes of a complete sequence for a code point. -/
structure Sequence (b : UInt8) (ranges : List Range) (tail : List UInt8) (v : ℕ) : Prop where
  lead : followers b.toNat = some ranges
  length_eq : tail.length = ranges.length
  inside : ∀ p ∈ ranges.zip tail, p.1.has p.2 = true
  code : codePoint (leadBits tail.length b.toNat) tail = v

section

variable {b : UInt8} {ranges : List Range} {tail : List UInt8} {v : ℕ}

theorem Sequence.scan_append (h : Sequence b ranges tail v) (rest : List UInt8) :
    scan b (tail ++ rest) = (some (Char.ofNat v), tail.length + 1) := by
  have hk := matched_append ranges tail rest h.length_eq h.inside
  rw [scan, h.lead]
  dsimp only
  rw [hk, if_pos rfl, ← h.length_eq, List.take_left, h.code]

/-- A complete sequence decodes to the character of its code point. -/
theorem Sequence.decodeFrom (h : Sequence b ranges tail v) (rest : List UInt8) :
    decodeFrom 0 (b :: (tail ++ rest)) = Char.ofNat v :: decodeFrom 0 rest := by
  rw [Utf8Replace.decodeFrom, h.scan_append rest]
  dsimp only
  rw [Nat.add_sub_cancel, decodeFrom_drop, List.drop_left, Option.getD_some]

/-- The bytes of a sequence that ends too early decode to one replacement character. -/
theorem Sequence.decodeFrom_take (h : Sequence b ranges tail v) {k : ℕ} (hk : k < tail.length) :
    Utf8Replace.decodeFrom 0 (b :: tail.take k) = [replacement] := by
  have hmatched : matched ranges (tail.take k) = k :=
    matched_take ranges tail h.length_eq h.inside (le_of_lt hk)
  have hscan : scan b (tail.take k) = (none, k + 1) := by
    have hlen := h.length_eq
    rw [scan, h.lead]
    dsimp only
    rw [hmatched, if_neg (by omega)]
  have hrest : (tail.take k).drop k = [] := by
    rw [List.drop_eq_nil_iff, List.length_take]
    exact Nat.min_le_left _ _
  rw [Utf8Replace.decodeFrom, hscan]
  dsimp only
  rw [Nat.add_sub_cancel, decodeFrom_drop, hrest, Option.getD_none]
  rfl

end

theorem followers_two {v : ℕ} (hlo : 0x80 ≤ v) (hhi : v ≤ 0x7FF) :
    followers (v / 64 % 32 + 0xC0) = some [anyTail] := by
  unfold followers
  rw [if_neg (by omega), if_neg (by omega), if_pos (by omega)]

theorem followers_three {v : ℕ} (hlo : 0x800 ≤ v) (hhi : v ≤ 0xFFFF)
    (hscalar : v < 0xD800 ∨ 0xDFFF < v) :
    ∃ r : Range, followers (v / 4096 % 16 + 0xE0) = some [r, anyTail] ∧
      r.1 ≤ v / 64 % 64 + 0x80 ∧ v / 64 % 64 + 0x80 ≤ r.2 := by
  unfold followers
  rw [if_neg (by omega), if_neg (by omega), if_neg (by omega)]
  by_cases hE0 : v / 4096 % 16 + 0xE0 = 0xE0
  · exact ⟨_, if_pos hE0, by dsimp only; omega, by dsimp only; omega⟩
  rw [if_neg hE0]
  by_cases hED : v / 4096 % 16 + 0xE0 = 0xED
  · exact ⟨_, if_pos hED, by dsimp only; omega, by dsimp only; omega⟩
  rw [if_neg hED, if_pos (by omega)]
  exact ⟨_, rfl, by dsimp only [anyTail]; omega, by dsimp only [anyTail]; omega⟩

theorem followers_four {v : ℕ} (hlo : 0x10000 ≤ v) (hhi : v < 0x110000) :
    ∃ r : Range, followers (v / 262144 % 8 + 0xF0) = some [r, anyTail, anyTail] ∧
      r.1 ≤ v / 4096 % 64 + 0x80 ∧ v / 4096 % 64 + 0x80 ≤ r.2 := by
  unfold followers
  rw [if_neg (by omega), if_neg (by omega), if_neg (by omega), if_neg (by omega),
    if_neg (by omega), if_neg (by omega)]
  by_cases hF0 : v / 262144 % 8 + 0xF0 = 0xF0
  · exact ⟨_, if_pos hF0, by dsimp only; omega, by dsimp only; omega⟩
  rw [if_neg hF0]
  by_cases hF4 : v / 262144 % 8 + 0xF0 = 0xF4
  · exact ⟨_, if_pos hF4, by dsimp only; omega, by dsimp only; omega⟩
  rw [if_neg hF4, if_pos (by omega)]
  exact ⟨_, rfl, by dsimp only [anyTail]; omega, by dsimp only [anyTail]; omega⟩

theorem toNat_ofNat_of_lt {n : ℕ} (h : n < 256) : (UInt8.ofNat n).toNat = n := by
  rw [UInt8.toNat_ofNat']
  exact Nat.mod_eq_of_lt h

theorem Range.has_ofNat {r : Range} {n : ℕ} (hn : n < 256) (hlo : r.1 ≤ n) (hhi : n ≤ r.2) :
    r.has (UInt8.ofNat n) = true := by
  rw [Range.has, toNat_ofNat_of_lt hn]
  simp [hlo, hhi]

theorem anyTail_has {n : ℕ} (hn : n < 64) : anyTail.has (UInt8.ofNat (n + 0x80)) = true :=
  Range.has_ofNat (by omega) (by dsimp only [anyTail]; omega) (by dsimp only [anyTail]; omega)

theorem leadBits_one (lead : ℕ) : leadBits 1 lead = lead - 0xC0 := rfl

theorem leadBits_two (lead : ℕ) : leadBits 2 lead = lead - 0xE0 := rfl

theorem leadBits_three (lead : ℕ) : leadBits 3 lead = lead - 0xF0 := rfl

theorem codePoint_cons (bits n : ℕ) (hn : n < 64) (tail : List UInt8) :
    codePoint bits (UInt8.ofNat (n + 0x80) :: tail) = codePoint (bits * 64 + n) tail := by
  rw [codePoint, List.foldl_cons, toNat_ofNat_of_lt (by omega), Nat.add_sub_cancel]
  rfl

theorem sequence_one {v : ℕ} (hv : v ≤ 0x7F) : Sequence (UInt8.ofNat v) [] [] v := by
  have hbyte : (UInt8.ofNat v).toNat = v := toNat_ofNat_of_lt (by omega)
  refine ⟨?_, rfl, by simp, hbyte⟩
  rw [hbyte, followers, if_pos (by omega)]

theorem sequence_two {v : ℕ} (hlo : 0x80 ≤ v) (hhi : v ≤ 0x7FF) :
    Sequence (UInt8.ofNat (v / 64 % 32 + 0xC0)) [anyTail] [UInt8.ofNat (v % 64 + 0x80)] v := by
  have hbyte : (UInt8.ofNat (v / 64 % 32 + 0xC0)).toNat = v / 64 % 32 + 0xC0 :=
    toNat_ofNat_of_lt (by omega)
  refine ⟨?_, rfl, ?_, ?_⟩
  · rw [hbyte]
    exact followers_two hlo hhi
  · simp only [List.zip_cons_cons, List.zip_nil_right, List.forall_mem_cons]
    exact ⟨anyTail_has (by omega), by simp⟩
  · change codePoint (leadBits 1 _) _ = v
    rw [codePoint_cons _ _ (by omega), leadBits_one, hbyte, codePoint, List.foldl_nil]
    omega

theorem exists_sequence_three {v : ℕ} (hlo : 0x800 ≤ v) (hhi : v ≤ 0xFFFF)
    (hscalar : v < 0xD800 ∨ 0xDFFF < v) :
    ∃ r, Sequence (UInt8.ofNat (v / 4096 % 16 + 0xE0)) [r, anyTail]
      [UInt8.ofNat (v / 64 % 64 + 0x80), UInt8.ofNat (v % 64 + 0x80)] v := by
  obtain ⟨r, hfollow, hsecond, hsecond'⟩ := followers_three hlo hhi hscalar
  have hbyte : (UInt8.ofNat (v / 4096 % 16 + 0xE0)).toNat = v / 4096 % 16 + 0xE0 :=
    toNat_ofNat_of_lt (by omega)
  refine ⟨r, ?_, rfl, ?_, ?_⟩
  · rw [hbyte]
    exact hfollow
  · simp only [List.zip_cons_cons, List.zip_nil_right, List.forall_mem_cons]
    exact ⟨Range.has_ofNat (by omega) hsecond hsecond', anyTail_has (by omega), by simp⟩
  · change codePoint (leadBits 2 _) _ = v
    rw [codePoint_cons _ _ (by omega), codePoint_cons _ _ (by omega), leadBits_two, hbyte,
      codePoint, List.foldl_nil]
    omega

theorem exists_sequence_four {v : ℕ} (hlo : 0x10000 ≤ v) (hhi : v < 0x110000) :
    ∃ r, Sequence (UInt8.ofNat (v / 262144 % 8 + 0xF0)) [r, anyTail, anyTail]
      [UInt8.ofNat (v / 4096 % 64 + 0x80), UInt8.ofNat (v / 64 % 64 + 0x80),
        UInt8.ofNat (v % 64 + 0x80)] v := by
  obtain ⟨r, hfollow, hsecond, hsecond'⟩ := followers_four hlo hhi
  have hbyte : (UInt8.ofNat (v / 262144 % 8 + 0xF0)).toNat = v / 262144 % 8 + 0xF0 :=
    toNat_ofNat_of_lt (by omega)
  refine ⟨r, ?_, rfl, ?_, ?_⟩
  · rw [hbyte]
    exact hfollow
  · simp only [List.zip_cons_cons, List.zip_nil_right, List.forall_mem_cons]
    exact ⟨Range.has_ofNat (by omega) hsecond hsecond', anyTail_has (by omega),
      anyTail_has (by omega), by simp⟩
  · change codePoint (leadBits 3 _) _ = v
    rw [codePoint_cons _ _ (by omega), codePoint_cons _ _ (by omega),
      codePoint_cons _ _ (by omega), leadBits_three, hbyte, codePoint, List.foldl_nil]
    omega

theorem encodeChar_eq (c : Char) : String.utf8EncodeChar c =
    let v := c.val.toNat
    if v ≤ 0x7F then [UInt8.ofNat v]
    else if v ≤ 0x7FF then [UInt8.ofNat (v / 64 % 32 + 0xC0), UInt8.ofNat (v % 64 + 0x80)]
    else if v ≤ 0xFFFF then
      [UInt8.ofNat (v / 4096 % 16 + 0xE0), UInt8.ofNat (v / 64 % 64 + 0x80),
        UInt8.ofNat (v % 64 + 0x80)]
    else
      [UInt8.ofNat (v / 262144 % 8 + 0xF0), UInt8.ofNat (v / 4096 % 64 + 0x80),
        UInt8.ofNat (v / 64 % 64 + 0x80), UInt8.ofNat (v % 64 + 0x80)] := rfl

/-- A character is encoded as a complete sequence for its code point. -/
theorem exists_sequence (c : Char) :
    ∃ b ranges tail, String.utf8EncodeChar c = b :: tail ∧
      Sequence b ranges tail c.val.toNat := by
  have hscalar : c.val.toNat < 0xD800 ∨ 0xDFFF < c.val.toNat ∧ c.val.toNat < 0x110000 := c.valid
  rw [encodeChar_eq]
  dsimp only
  generalize c.val.toNat = v at hscalar ⊢
  by_cases h1 : v ≤ 0x7F
  · rw [if_pos h1]
    exact ⟨_, _, _, rfl, sequence_one h1⟩
  rw [if_neg h1]
  by_cases h2 : v ≤ 0x7FF
  · rw [if_pos h2]
    exact ⟨_, _, _, rfl, sequence_two (by omega) h2⟩
  rw [if_neg h2]
  by_cases h3 : v ≤ 0xFFFF
  · obtain ⟨r, hr⟩ := exists_sequence_three (v := v) (by omega) h3 (by omega)
    rw [if_pos h3]
    exact ⟨_, _, _, rfl, hr⟩
  · obtain ⟨r, hr⟩ := exists_sequence_four (v := v) (by omega) (by omega)
    rw [if_neg h3]
    exact ⟨_, _, _, rfl, hr⟩

/-- A character's encoding decodes to the character, whatever follows it. -/
theorem decodeFrom_encodeChar (c : Char) (rest : List UInt8) :
    decodeFrom 0 (String.utf8EncodeChar c ++ rest) = c :: decodeFrom 0 rest := by
  have hchar : Char.ofNat c.val.toNat = c := Char.ofNat_toNat c
  obtain ⟨b, ranges, tail, hbytes, hsequence⟩ := exists_sequence c
  rw [hbytes, List.cons_append, hsequence.decodeFrom, hchar]

theorem decodeFrom_flatMap_append (cs : List Char) (rest : List UInt8) :
    decodeFrom 0 (cs.flatMap String.utf8EncodeChar ++ rest) = cs ++ decodeFrom 0 rest := by
  induction cs with
  | nil => rfl
  | cons c cs ih =>
    rw [List.flatMap_cons, List.append_assoc, decodeFrom_encodeChar, ih, List.cons_append]

theorem decodeFrom_encode (cs : List Char) :
    decodeFrom 0 (cs.flatMap String.utf8EncodeChar) = cs := by
  have happend := decodeFrom_flatMap_append cs []
  rwa [List.append_nil, decodeFrom, List.append_nil] at happend

theorem decodeReplace_encode (s : String) : decodeReplace (encode s) = s := by
  rw [decodeReplace, encode, decodeFrom_encode, String.ofList_toList]

end HpcProfiler.Utf8Replace
