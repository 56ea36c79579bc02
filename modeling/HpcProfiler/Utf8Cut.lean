import HpcProfiler.Utf8Replace

/-!
Strings of which only the first bytes of the UTF-8 form are kept. Where the cut falls
into a character, the bytes left of it decode to one replacement character. That
character takes three bytes itself, so keeping it may need another cut; the bytes
left of it decode to a replacement character again, and a second pass through the
same limit changes nothing.
-/

namespace HpcProfiler.Utf8Cut

open Utf8Replace

def encodeList (cs : List Char) : List UInt8 := cs.flatMap String.utf8EncodeChar

def cut (n : ℕ) (cs : List Char) : List Char := decodeFrom 0 ((encodeList cs).take n)

@[simp] theorem encodeList_nil : encodeList [] = [] := rfl

@[simp] theorem encodeList_cons (c : Char) (cs : List Char) :
    encodeList (c :: cs) = String.utf8EncodeChar c ++ encodeList cs := List.flatMap_cons

theorem encodeList_concat (cs : List Char) (c : Char) :
    encodeList (cs ++ [c]) = encodeList cs ++ String.utf8EncodeChar c := by
  simp [encodeList]

/-- The first bytes of a character, not all of them, decode to one replacement
character. -/
theorem decodeFrom_take (c : Char) {k : ℕ} (hpos : 0 < k)
    (hlt : k < (String.utf8EncodeChar c).length) :
    decodeFrom 0 ((String.utf8EncodeChar c).take k) = [replacement] := by
  obtain ⟨b, ranges, tail, hbytes, hsequence⟩ := exists_sequence c
  rw [hbytes, List.length_cons] at hlt
  obtain ⟨j, rfl⟩ : ∃ j, k = j + 1 := ⟨k - 1, by omega⟩
  rw [hbytes, List.take_succ_cons]
  exact hsequence.decodeFrom_take (by omega)

/-- How a byte string stands to a limit: it ends with a character, or the limit falls
into one and the first bytes of that character end it. -/
inductive Ending (n : ℕ) (ds : List Char) : List UInt8 → Prop
  | whole (hle : (encodeList ds).length ≤ n) : Ending n ds (encodeList ds)
  | inside (c : Char) (k : ℕ) (hpos : 0 < k) (hlt : k < (String.utf8EncodeChar c).length)
      (hlen : (encodeList ds).length + k = n) :
      Ending n ds (encodeList ds ++ (String.utf8EncodeChar c).take k)

theorem Ending.cons {n : ℕ} {ds : List Char} {bytes : List UInt8} (h : Ending n ds bytes)
    (c : Char) :
    Ending ((String.utf8EncodeChar c).length + n) (c :: ds) (String.utf8EncodeChar c ++ bytes) := by
  cases h with
  | whole hle =>
    rw [← encodeList_cons]
    refine .whole ?_
    rw [encodeList_cons, List.length_append]
    omega
  | inside e k hpos hlt hlen =>
    rw [← List.append_assoc, ← encodeList_cons]
    refine .inside e k hpos hlt ?_
    rw [encodeList_cons, List.length_append]
    omega

theorem exists_ending (cs : List Char) (n : ℕ) : ∃ ds, Ending n ds ((encodeList cs).take n) := by
  induction cs generalizing n with
  | nil =>
    have hwhole : Ending n [] (encodeList []) := .whole (Nat.zero_le n)
    exact ⟨[], by simpa using hwhole⟩
  | cons c cs ih =>
    rw [encodeList_cons, List.take_append]
    by_cases hfits : (String.utf8EncodeChar c).length ≤ n
    · obtain ⟨ds, hds⟩ := ih (n - (String.utf8EncodeChar c).length)
      have hcons := hds.cons c
      rw [Nat.add_sub_cancel' hfits] at hcons
      rw [List.take_of_length_le hfits]
      exact ⟨c :: ds, hcons⟩
    · have hrest : n - (String.utf8EncodeChar c).length = 0 := by omega
      rw [hrest, List.take_zero, List.append_nil]
      refine ⟨[], ?_⟩
      by_cases hzero : n = 0
      · subst hzero
        exact .whole (le_refl 0)
      · exact .inside c n (by omega) (by omega) (by simp)

/-- The replacement character comes back from any number of its own bytes but none. -/
theorem decodeFrom_replacement {k : ℕ} (hpos : 0 < k) :
    decodeFrom 0 ((String.utf8EncodeChar replacement).take k) = [replacement] := by
  by_cases hlt : k < (String.utf8EncodeChar replacement).length
  · exact decodeFrom_take replacement hpos hlt
  · have hwhole := decodeFrom_encodeChar replacement []
    rw [List.append_nil] at hwhole
    rw [List.take_of_length_le (by omega), hwhole]
    rfl

theorem cut_of_le {n : ℕ} {cs : List Char} (h : (encodeList cs).length ≤ n) : cut n cs = cs := by
  rw [cut, List.take_of_length_le h]
  exact decodeFrom_encode cs

/-- A second cut at the same limit changes nothing. -/
theorem cut_cut (n : ℕ) (cs : List Char) : cut n (cut n cs) = cut n cs := by
  obtain ⟨ds, hds⟩ := exists_ending cs n
  have hcut : cut n cs = decodeFrom 0 ((encodeList cs).take n) := rfl
  generalize (encodeList cs).take n = bytes at hds hcut
  cases hds with
  | whole hle =>
    have hwhole : decodeFrom 0 (encodeList ds) = ds := decodeFrom_encode ds
    rw [hcut, hwhole]
    exact cut_of_le hle
  | inside c k hpos hlt hlen =>
    have hinside : cut n cs = ds ++ [replacement] := by
      rw [hcut, encodeList, decodeFrom_flatMap_append, decodeFrom_take c hpos hlt]
    -- at the same place the limit leaves as many bytes of the replacement character
    have hagain : (encodeList (ds ++ [replacement])).take n =
        encodeList ds ++ (String.utf8EncodeChar replacement).take k := by
      rw [encodeList_concat, List.take_append, List.take_of_length_le (by omega), ← hlen,
        Nat.add_sub_cancel_left]
    rw [hinside, cut, hagain, encodeList, decodeFrom_flatMap_append, decodeFrom_replacement hpos]

theorem decodeReplace_take_decodeReplace_take (n : ℕ) (s : String) :
    decodeReplace ((encode (decodeReplace ((encode s).take n))).take n) =
      decodeReplace ((encode s).take n) := by
  have hcut := cut_cut n s.toList
  unfold decodeReplace encode
  rw [String.toList_ofList]
  exact congrArg String.ofList hcut

end HpcProfiler.Utf8Cut
