import HpcProfiler.PythonText
import Mathlib.Data.List.TakeWhile

/-!
String literals of Python source. A literal in single quotes, short or triple, of
characters or of bytes, is scanned up to its closing quote and its escapes are decoded.
Source code that a generator puts together from fixed code and from texts between
single quotes is read back as it was meant exactly if every text is plain: it has no
quote and no line end, and none of its backslashes begins an escape.
-/

namespace HpcProfiler.PythonLiteral

open PythonText

/-- A literal of characters or, with a b before its quote, of bytes. -/
inductive LiteralKind
  | str
  | bytes
  deriving DecidableEq

def LiteralKind.marker : LiteralKind → List Char
  | .str => []
  | .bytes => ['b']

/-- The escapes of one character, with the code that each stands for. -/
def simpleEscapes : List (Char × ℕ) :=
  [('\\', 92), ('\'', 39), ('"', 34), ('a', 7), ('b', 8), ('f', 12), ('n', 10), ('r', 13),
    ('t', 9), ('v', 11)]

def isOctal (c : Char) : Bool := '0' ≤ c && c ≤ '7'

/-- The value of digits in a base, the most significant first. -/
def digitsValue (base : ℕ) (digits : List Char) : ℕ :=
  digits.foldl (fun value c => base * value + (digitValue c).getD 0) 0

/-- The given number of hexadecimal digits and the letter before them. -/
def hexEscape (count : ℕ) (rest : List Char) : Option (List ℕ × ℕ) :=
  let digits := rest.take count
  if digits.length = count ∧ (digits.all fun c => (digitValue c).isSome) ∧
      digitsValue 16 digits ≤ 0x10FFFF then
    some ([digitsValue 16 digits], count + 1)
  else none

/-- A name in braces, looked up in Unicode's database, and the letter before them. -/
def namedEscape (named : List Char → Option ℕ) : List Char → Option (List ℕ × ℕ)
  | '{' :: rest =>
    let name := rest.takeWhile (· ≠ '}')
    if name.length < rest.length then (named name).map fun code => ([code], name.length + 3)
    else none
  | _ => none

/-- The codes that a backslash before this text stands for and how many characters of the
text are used for them, if they are well formed. What is no escape is kept. -/
def escape (named : List Char → Option ℕ) (kind : LiteralKind) :
    List Char → Option (List ℕ × ℕ)
  | [] => none
  | c :: rest =>
    match simpleEscapes.lookup c with
    | some code => some ([code], 1)
    | none =>
      if c = '\n' then some ([], 1)
      else if isOctal c then
        let digits := c :: (rest.take 2).takeWhile isOctal
        let value := digitsValue 8 digits
        some ([if kind = .bytes then value % 256 else value], digits.length)
      else if c = 'x' then hexEscape 2 rest
      else if kind = .str ∧ c = 'u' then hexEscape 4 rest
      else if kind = .str ∧ c = 'U' then hexEscape 8 rest
      else if kind = .str ∧ c = 'N' then namedEscape named rest
      else some (['\\'.toNat, c.toNat], 1)

/-- The codes of a literal's body, where so many of its characters are used up already. -/
def decode (named : List Char → Option ℕ) (kind : LiteralKind) : ℕ → List Char → Option (List ℕ)
  | _, [] => some []
  | used + 1, _ :: rest => decode named kind used rest
  | 0, c :: rest =>
    if c = '\\' then
      (escape named kind rest).bind fun (codes, used) =>
        (decode named kind used rest).map (codes ++ ·)
    else (decode named kind 0 rest).map (c.toNat :: ·)

/-- The body of a literal in single quotes and what stands behind it. -/
def scanShort : List Char → Option (List Char × List Char)
  | [] => none
  | '\'' :: rest => some ([], rest)
  | '\n' :: _ => none
  | ['\\'] => none
  | '\\' :: c :: rest => (scanShort rest).map fun (body, rest) => ('\\' :: c :: body, rest)
  | c :: rest => (scanShort rest).map fun (body, rest) => (c :: body, rest)

/-- The body of a literal in triple quotes, which may extend over lines. -/
def scanTriple : List Char → Option (List Char × List Char)
  | [] => none
  | '\'' :: '\'' :: '\'' :: rest => some ([], rest)
  | ['\\'] => none
  | '\\' :: c :: rest => (scanTriple rest).map fun (body, rest) => ('\\' :: c :: body, rest)
  | c :: rest => (scanTriple rest).map fun (body, rest) => (c :: body, rest)

def scan : List Char → Option (List Char × List Char)
  | '\'' :: '\'' :: '\'' :: rest => scanTriple rest
  | '\'' :: rest => scanShort rest
  | _ => none

/-- The codes of a literal that the text begins with, and what stands behind it. A
literal of bytes has ASCII characters only. -/
def readLiteral (named : List Char → Option ℕ) (kind : LiteralKind) (text : List Char) :
    Option (List ℕ × List Char) :=
  (scan text).bind fun (body, rest) =>
    if kind = .bytes ∧ (body.any fun c => 128 ≤ c.toNat) then none
    else (decode named kind 0 body).map (·, rest)

example : readLiteral (fun _ => none) .str "'a\\x41\\q' + 1".toList =
    some ("aA\\q".toList.map Char.toNat, " + 1".toList) := by decide

/-! Texts that a literal denotes as they stand. -/

/-- A backslash before the character begins no escape. -/
def keepsBackslash (kind : LiteralKind) (c : Char) : Bool :=
  (simpleEscapes.lookup c).isNone && c != '\n' && !isOctal c && c != 'x' &&
    (kind == .bytes || (c != 'u' && c != 'U' && c != 'N'))

/-- Each backslash is followed by a character that keeps it. -/
def Kept (kind : LiteralKind) : List Char → Prop
  | [] => True
  | c :: rest => (c = '\\' → rest.head?.any (keepsBackslash kind) = true) ∧ Kept kind rest

/-- No quote, no line end, no NUL, and in a literal of bytes ASCII only. -/
def PlainChar (kind : LiteralKind) (c : Char) : Prop :=
  c ∉ ['\'', '\n', '\r', '\x00'] ∧ (kind = .bytes → c.toNat < 128)

structure Plain (kind : LiteralKind) (text : List Char) : Prop where
  kept : Kept kind text
  chars : ∀ c ∈ text, PlainChar kind c

theorem keepsBackslash_iff {kind : LiteralKind} {c : Char} : keepsBackslash kind c = true ↔
    simpleEscapes.lookup c = none ∧ c ≠ '\n' ∧ isOctal c = false ∧ c ≠ 'x' ∧
      (kind = .str → c ≠ 'u' ∧ c ≠ 'U' ∧ c ≠ 'N') := by
  cases kind <;> simp [keepsBackslash, and_assoc]

theorem hexEscape_length {count : ℕ} {rest : List Char} {codes : List ℕ} {used : ℕ}
    (h : hexEscape count rest = some (codes, used)) : codes.length ≤ 1 ∧ 1 ≤ used := by
  simp only [hexEscape] at h
  split at h
  · cases h
    exact ⟨Nat.le_refl _, by omega⟩
  · cases h

theorem namedEscape_length {named : List Char → Option ℕ} {rest : List Char} {codes : List ℕ}
    {used : ℕ} (h : namedEscape named rest = some (codes, used)) :
    codes.length ≤ 1 ∧ 1 ≤ used := by
  unfold namedEscape at h
  split at h
  · dsimp only at h
    split at h
    · obtain ⟨code, -, heq⟩ := Option.map_eq_some_iff.mp h
      cases heq
      exact ⟨Nat.le_refl _, by omega⟩
    · cases h
  · cases h

/-- A backslash is kept together with the character behind it, or it and what it uses
stand for one code at most. -/
theorem escape_cases {named : List Char → Option ℕ} {kind : LiteralKind} {text : List Char}
    {codes : List ℕ} {used : ℕ} (h : escape named kind text = some (codes, used)) :
    (∃ c rest, text = c :: rest ∧ keepsBackslash kind c = true ∧
        codes = ['\\'.toNat, c.toNat] ∧ used = 1) ∨
      text ≠ [] ∧ codes.length ≤ 1 ∧ 1 ≤ used := by
  cases text with
  | nil => cases h
  | cons c rest =>
    have hne : c :: rest ≠ [] := List.cons_ne_nil c rest
    simp only [escape] at h
    cases hsimple : simpleEscapes.lookup c with
    | some code =>
      rw [hsimple] at h
      cases h
      exact .inr ⟨hne, Nat.le_refl _, Nat.le_refl _⟩
    | none =>
      rw [hsimple] at h
      dsimp only at h
      split at h
      · cases h
        exact .inr ⟨hne, Nat.zero_le 1, Nat.le_refl _⟩
      split at h
      · cases h
        exact .inr ⟨hne, Nat.le_refl _, Nat.succ_pos _⟩
      split at h
      · exact .inr ⟨hne, hexEscape_length h⟩
      split at h
      · exact .inr ⟨hne, hexEscape_length h⟩
      split at h
      · exact .inr ⟨hne, hexEscape_length h⟩
      split at h
      · exact .inr ⟨hne, namedEscape_length h⟩
      · rename_i hline hoctal hx hu hU hN
        cases h
        refine .inl ⟨c, rest, rfl, keepsBackslash_iff.mpr ?_, rfl, rfl⟩
        refine ⟨hsimple, hline, by simpa using hoctal, hx, ?_⟩
        intro hstr
        exact ⟨fun hc => hu ⟨hstr, hc⟩, fun hc => hU ⟨hstr, hc⟩, fun hc => hN ⟨hstr, hc⟩⟩

theorem escape_kept {named : List Char → Option ℕ} {kind : LiteralKind} {c : Char}
    (h : keepsBackslash kind c = true) (rest : List Char) :
    escape named kind (c :: rest) = some (['\\'.toNat, c.toNat], 1) := by
  obtain ⟨hsimple, hline, hoctal, hx, hletters⟩ := keepsBackslash_iff.mp h
  simp only [escape, hsimple, if_neg hline, hoctal, if_neg hx]
  cases kind with
  | str =>
    obtain ⟨hu, hU, hN⟩ := hletters rfl
    simp [hu, hU, hN]
  | bytes => simp

theorem ne_backslash_of_keeps {kind : LiteralKind} {c : Char} (h : keepsBackslash kind c = true) :
    c ≠ '\\' := by
  rintro rfl
  cases kind <;> cases h

/-- A body has no more codes than characters, and as many only if it stands for itself. -/
theorem decode_length {named : List Char → Option ℕ} {kind : LiteralKind} {used : ℕ}
    {body : List Char} {codes : List ℕ} (h : decode named kind used body = some codes) :
    codes.length ≤ (body.drop used).length ∧ (codes.length = (body.drop used).length →
      Kept kind (body.drop used) ∧ codes = (body.drop used).map Char.toNat) := by
  induction body generalizing used codes with
  | nil =>
    cases h
    rw [List.drop_nil]
    exact ⟨Nat.le_refl _, fun _ => ⟨trivial, rfl⟩⟩
  | cons c rest ih =>
    cases used with
    | succ used =>
      rw [List.drop_succ_cons]
      exact ih h
    | zero =>
      rw [decode] at h
      rw [List.drop_zero, List.length_cons]
      split at h
      · rename_i hc
        obtain ⟨⟨first, taken⟩, hescape, hmore⟩ := Option.bind_eq_some_iff.mp h
        obtain ⟨more, hdecode, rfl⟩ := Option.map_eq_some_iff.mp hmore
        obtain ⟨hle, heq⟩ := ih hdecode
        rw [List.length_append]
        rcases escape_cases hescape with ⟨d, tail, rfl, hkeeps, rfl, rfl⟩ | ⟨hne, hfirst, htaken⟩
        · rw [List.drop_succ_cons, List.drop_zero] at hle heq
          simp only [List.length_cons, List.length_nil]
          refine ⟨by omega, ?_⟩
          intro hlength
          obtain ⟨hkept, rfl⟩ := heq (by omega)
          subst hc
          exact ⟨⟨fun _ => hkeeps, fun hd => absurd hd (ne_backslash_of_keeps hkeeps), hkept⟩, rfl⟩
        · -- An escape that is none of the kept ones leaves a code less.
          have hpos := List.length_pos_iff.mpr hne
          rw [List.length_drop] at hle
          exact ⟨by omega, fun hlength => by omega⟩
      · rename_i hc
        obtain ⟨more, hdecode, rfl⟩ := Option.map_eq_some_iff.mp h
        obtain ⟨hle, heq⟩ := ih hdecode
        rw [List.drop_zero] at hle heq
        rw [List.length_cons]
        refine ⟨by omega, ?_⟩
        intro hlength
        obtain ⟨hkept, rfl⟩ := heq (by omega)
        exact ⟨⟨fun heq => absurd heq hc, hkept⟩, rfl⟩

theorem decode_kept {named : List Char → Option ℕ} {kind : LiteralKind} {used : ℕ}
    {body : List Char} (h : Kept kind (body.drop used)) :
    decode named kind used body = some ((body.drop used).map Char.toNat) := by
  induction body generalizing used with
  | nil => simp [decode]
  | cons c rest ih =>
    cases used with
    | succ used => exact ih h
    | zero =>
      obtain ⟨hbackslash, hkept⟩ := h
      rw [decode, List.drop_zero]
      split
      · rename_i hc
        cases rest with
        | nil => cases hbackslash hc
        | cons d tail =>
          have htail : Kept kind ((d :: tail).drop 1) := hkept.2
          rw [escape_kept (hbackslash hc), Option.bind_some]
          dsimp only
          rw [ih htail, hc]
          rfl
      · have hrest : Kept kind (rest.drop 0) := hkept
        rw [ih hrest]
        rfl

theorem clean_of_keeps {kind : LiteralKind} {c : Char} (h : keepsBackslash kind c = true) :
    c ≠ '\'' ∧ c ≠ '\n' := by
  refine ⟨?_, (keepsBackslash_iff.mp h).2.1⟩
  rintro rfl
  cases kind <;> cases h

/-- What is scanned as the body ends at a quote; if it has no escapes then it has no
other quote and no line end. -/
theorem scanShort_eq_some {text body rest : List Char} (h : scanShort text = some (body, rest)) :
    text = body ++ '\'' :: rest ∧
      ∀ kind, Kept kind body → ∀ c ∈ body, c ≠ '\'' ∧ c ≠ '\n' := by
  induction text using scanShort.induct generalizing body with
  | case1 => cases h
  | case2 tail =>
    cases h
    exact ⟨rfl, by simp⟩
  | case3 tail => cases h
  | case4 => cases h
  | case5 c tail ih =>
    obtain ⟨⟨inner, rest'⟩, hscan, heq⟩ := Option.map_eq_some_iff.mp h
    cases heq
    obtain ⟨htext, hclean⟩ := ih hscan
    refine ⟨by rw [htext]; rfl, ?_⟩
    intro kind hkept d hd
    have hkeeps : keepsBackslash kind c = true := hkept.1 rfl
    rcases List.mem_cons.mp hd with rfl | hd
    · exact ⟨by decide, by decide⟩
    rcases List.mem_cons.mp hd with rfl | hd
    · exact clean_of_keeps hkeeps
    · exact hclean kind hkept.2.2 d hd
  | case6 c tail hquote hline hlast hbackslash ih =>
    obtain ⟨⟨inner, rest'⟩, hscan, heq⟩ := Option.map_eq_some_iff.mp
      ((scanShort.eq_6 c tail hquote hline hlast hbackslash).symm.trans h)
    cases heq
    obtain ⟨htext, hclean⟩ := ih hscan
    refine ⟨by rw [htext]; rfl, ?_⟩
    intro kind hkept d hd
    rcases List.mem_cons.mp hd with rfl | hd
    · exact ⟨fun hd => hquote hd, fun hd => hline hd⟩
    · exact hclean kind hkept.2 d hd

theorem scanTriple_eq_some {text body rest : List Char} (h : scanTriple text = some (body, rest)) :
    text = body ++ '\'' :: '\'' :: '\'' :: rest := by
  induction text using scanTriple.induct generalizing body with
  | case1 => cases h
  | case2 tail =>
    cases h
    rfl
  | case3 => cases h
  | case4 c tail ih =>
    obtain ⟨⟨inner, rest'⟩, hscan, heq⟩ := Option.map_eq_some_iff.mp h
    cases heq
    rw [ih hscan]
    rfl
  | case5 c tail hquotes hlast hbackslash ih =>
    obtain ⟨⟨inner, rest'⟩, hscan, heq⟩ := Option.map_eq_some_iff.mp
      ((scanTriple.eq_5 c tail hquotes hlast hbackslash).symm.trans h)
    cases heq
    rw [ih hscan]
    rfl

theorem PlainChar.clean {kind : LiteralKind} {c : Char} (h : PlainChar kind c) :
    c ≠ '\'' ∧ c ≠ '\n' ∧ c ≠ '\r' ∧ c ≠ '\x00' := by
  have hmem := h.1
  simp only [List.mem_cons, List.not_mem_nil, or_false, not_or] at hmem
  exact hmem

theorem Plain.tail {kind : LiteralKind} {c : Char} {text : List Char} (h : Plain kind (c :: text)) :
    Plain kind text :=
  ⟨h.kept.2, fun d hd => h.chars d (List.mem_cons_of_mem c hd)⟩

theorem scanShort_plain {kind : LiteralKind} {text : List Char} (h : Plain kind text)
    (rest : List Char) : scanShort (text ++ '\'' :: rest) = some (text, rest) := by
  induction text using scanShort.induct with
  | case1 => rfl
  | case2 tail => exact absurd rfl (h.chars _ List.mem_cons_self).clean.1
  | case3 tail => exact absurd rfl (h.chars _ List.mem_cons_self).clean.2.1
  | case4 => cases h.kept.1 rfl
  | case5 c tail ih =>
    show (scanShort (tail ++ '\'' :: rest)).map _ = _
    rw [ih h.tail.tail]
    rfl
  | case6 c tail hquote hline hlast hbackslash ih =>
    have hc : c ≠ '\\' := by
      rintro rfl
      cases tail with
      | nil => exact hlast rfl rfl
      | cons d tail => exact hbackslash d tail rfl rfl
    rw [List.cons_append, scanShort.eq_6 c _ hquote hline (fun hlast _ => hc hlast)
      (fun _ _ hbackslash _ => hc hbackslash), ih h.tail]
    rfl

/-- A literal is longer than what it denotes by its quotes at least, and by no more only
if it is short and its body stands for itself. -/
theorem readLiteral_length {named : List Char → Option ℕ} {kind : LiteralKind}
    {text rest : List Char} {codes : List ℕ}
    (h : readLiteral named kind text = some (codes, rest)) :
    codes.length + 2 + rest.length ≤ text.length ∧
      (codes.length + 2 + rest.length = text.length →
        ∃ body, text = '\'' :: body ++ '\'' :: rest ∧ codes = body.map Char.toNat ∧
          Kept kind body ∧ ∀ c ∈ body, c ≠ '\'' ∧ c ≠ '\n' ∧ (kind = .bytes → c.toNat < 128)) := by
  obtain ⟨⟨body, rest'⟩, hscan, hbody⟩ := Option.bind_eq_some_iff.mp h
  dsimp only at hbody
  split at hbody
  · cases hbody
  rename_i hascii
  obtain ⟨codes', hdecode, heq⟩ := Option.map_eq_some_iff.mp hbody
  cases heq
  obtain ⟨hle, hsame⟩ := decode_length hdecode
  rw [List.drop_zero] at hle hsame
  unfold scan at hscan
  split at hscan
  · have htext := scanTriple_eq_some hscan
    subst htext
    simp only [List.length_cons, List.length_append]
    exact ⟨by omega, fun hlength => by omega⟩
  · obtain ⟨htext, hclean⟩ := scanShort_eq_some hscan
    subst htext
    simp only [List.length_cons, List.length_append]
    refine ⟨by omega, ?_⟩
    intro hlength
    obtain ⟨hkept, rfl⟩ := hsame (by omega)
    refine ⟨body, rfl, rfl, hkept, ?_⟩
    intro c hc
    obtain ⟨hquote, hline⟩ := hclean kind hkept c hc
    refine ⟨hquote, hline, ?_⟩
    intro hbytes
    by_contra hlarge
    exact hascii ⟨hbytes, List.any_eq_true.mpr ⟨c, hc, by simpa using hlarge⟩⟩
  · cases hscan

theorem readLiteral_plain {named : List Char → Option ℕ} {kind : LiteralKind} {text : List Char}
    (h : Plain kind text) {rest : List Char} (hrest : rest.head? ≠ some '\'') :
    readLiteral named kind ('\'' :: text ++ '\'' :: rest) = some (text.map Char.toNat, rest) := by
  have hscan : scan ('\'' :: text ++ '\'' :: rest) = some (text, rest) := by
    rw [List.cons_append, scan]
    · exact scanShort_plain h rest
    · intro tail htriple
      cases text with
      | nil =>
        cases htriple
        exact hrest rfl
      | cons c text =>
        have hc : c = '\'' := (List.cons.inj htriple).1
        exact (h.chars c List.mem_cons_self).clean.1 hc
  have hdecode : decode named kind 0 text = some (text.map Char.toNat) := by
    have hkept : Kept kind (text.drop 0) := h.kept
    exact decode_kept hkept
  have hascii : ¬(kind = .bytes ∧ (text.any fun c => 128 ≤ c.toNat) = true) := by
    rintro ⟨hbytes, hany⟩
    obtain ⟨c, hc, hlarge⟩ := List.any_eq_true.mp hany
    have hsmall := (h.chars c hc).2 hbytes
    simp only [decide_eq_true_iff] at hlarge
    omega
  rw [readLiteral, hscan, Option.bind_some]
  dsimp only
  rw [if_neg hascii, hdecode]
  rfl

/-! Code with texts put between quotes. -/

/-- Fixed code, or a text that the code has in a literal. -/
inductive Piece
  | code (text : List Char)
  | literal (kind : LiteralKind) (text : List Char)

def Piece.source : Piece → List Char
  | .code text => text
  | .literal kind text => kind.marker ++ '\'' :: text ++ ['\'']

def render (pieces : List Piece) : List Char := pieces.flatMap Piece.source

/-- Every line end is read as a line feed. -/
def translateNewlines : List Char → List Char
  | [] => []
  | '\r' :: '\n' :: rest => '\n' :: translateNewlines rest
  | '\r' :: rest => '\n' :: translateNewlines rest
  | c :: rest => c :: translateNewlines rest

/-- What the interpreter reads of a text that it is given as a C string. -/
def sourceOf (text : List Char) : List Char := translateNewlines (text.takeWhile (· ≠ '\x00'))

/-- The source consists of the pieces in their order: the code stands there as it is, and
each literal denotes its text. -/
def ReadsBack (named : List Char → Option ℕ) : List Piece → List Char → Prop
  | [], source => source = []
  | .code text :: pieces, source => ∃ rest, source = text ++ rest ∧ ReadsBack named pieces rest
  | .literal kind text :: pieces, source => ∃ quoted rest, source = kind.marker ++ quoted ∧
      readLiteral named kind quoted = some (text.map Char.toNat, rest) ∧
      ReadsBack named pieces rest

/-- The code has no carriage return and no NUL, and no literal has a quote behind it. -/
def Closed : List Piece → Prop
  | [] => True
  | .code text :: pieces => (∀ c ∈ text, c ≠ '\r' ∧ c ≠ '\x00') ∧ Closed pieces
  | .literal _ _ :: pieces => (render pieces).head? ≠ some '\'' ∧ Closed pieces

theorem render_cons (piece : Piece) (pieces : List Piece) :
    render (piece :: pieces) = piece.source ++ render pieces := List.flatMap_cons

theorem length_translateNewlines (text : List Char) :
    (translateNewlines text).length ≤ text.length := by
  induction text using translateNewlines.induct with
  | case1 => exact Nat.le_refl _
  | case2 rest ih =>
    rw [translateNewlines, List.length_cons, List.length_cons, List.length_cons]
    omega
  | case3 rest hnot ih =>
    rw [translateNewlines, List.length_cons, List.length_cons]
    · omega
    · exact hnot
  | case4 c rest hpair hreturn ih =>
    rw [translateNewlines, List.length_cons, List.length_cons]
    · omega
    · exact hpair
    · exact hreturn

theorem length_sourceOf (text : List Char) : (sourceOf text).length ≤ text.length := by
  have htake := (List.takeWhile_prefix (l := text) (· ≠ '\x00')).length_le
  have htranslate := length_translateNewlines (text.takeWhile (· ≠ '\x00'))
  rw [sourceOf]
  omega

theorem mem_translateNewlines {text : List Char} {c : Char} (h : c ∈ translateNewlines text) :
    c ≠ '\r' ∧ (c = '\n' ∨ c ∈ text) := by
  induction text using translateNewlines.induct with
  | case1 => cases h
  | case2 rest ih =>
    rw [translateNewlines] at h
    rcases List.mem_cons.mp h with rfl | hmem
    · exact ⟨by decide, .inl rfl⟩
    · exact ⟨(ih hmem).1, (ih hmem).2.imp_right fun hc => .tail _ (.tail _ hc)⟩
  | case3 rest hnot ih =>
    rw [translateNewlines] at h
    · rcases List.mem_cons.mp h with rfl | hmem
      · exact ⟨by decide, .inl rfl⟩
      · exact ⟨(ih hmem).1, (ih hmem).2.imp_right (.tail _)⟩
    · exact hnot
  | case4 d rest hpair hreturn ih =>
    rw [translateNewlines] at h
    · rcases List.mem_cons.mp h with rfl | hmem
      · exact ⟨fun hd => hreturn hd, .inr List.mem_cons_self⟩
      · exact ⟨(ih hmem).1, (ih hmem).2.imp_right (.tail _)⟩
    · exact hpair
    · exact hreturn

theorem mem_sourceOf {text : List Char} {c : Char} (h : c ∈ sourceOf text) :
    c ≠ '\r' ∧ c ≠ '\x00' := by
  obtain ⟨hreturn, hline | hmem⟩ := mem_translateNewlines h
  · subst hline
    exact ⟨hreturn, by decide⟩
  · have hnul := List.mem_takeWhile_imp hmem
    exact ⟨hreturn, by simpa using hnul⟩

theorem translateNewlines_eq_self {text : List Char} (h : ∀ c ∈ text, c ≠ '\r') :
    translateNewlines text = text := by
  induction text using translateNewlines.induct with
  | case1 => rfl
  | case2 rest ih => exact absurd rfl (h _ List.mem_cons_self)
  | case3 rest hnot ih => exact absurd rfl (h _ List.mem_cons_self)
  | case4 c rest hpair hreturn ih =>
    rw [translateNewlines, ih fun d hd => h d (List.mem_cons_of_mem c hd)]
    · exact hpair
    · exact hreturn

theorem sourceOf_eq_self {text : List Char} (h : ∀ c ∈ text, c ≠ '\r' ∧ c ≠ '\x00') :
    sourceOf text = text := by
  have htake : text.takeWhile (· ≠ '\x00') = text := by
    rw [List.takeWhile_eq_self_iff]
    intro c hc
    exact decide_eq_true (h c hc).2
  rw [sourceOf, htake]
  exact translateNewlines_eq_self fun c hc => (h c hc).1

/-- What reads back as the pieces is as long as they are at least, and no longer only if
it is the pieces, with every text standing for itself. -/
theorem ReadsBack.length {named : List Char → Option ℕ} {pieces : List Piece}
    {source : List Char} (h : ReadsBack named pieces source) :
    (render pieces).length ≤ source.length ∧ ((render pieces).length = source.length →
      source = render pieces ∧ ∀ kind text, .literal kind text ∈ pieces →
        Kept kind text ∧
          ∀ c ∈ text, c ≠ '\'' ∧ c ≠ '\n' ∧ (kind = .bytes → c.toNat < 128)) := by
  induction pieces generalizing source with
  | nil =>
    cases h
    exact ⟨Nat.le_refl _, fun _ => ⟨rfl, by simp⟩⟩
  | cons piece pieces ih =>
    cases piece with
    | code text =>
      obtain ⟨rest, rfl, hrest⟩ := h
      obtain ⟨hle, hsame⟩ := ih hrest
      rw [render_cons, Piece.source, List.length_append, List.length_append]
      refine ⟨by omega, ?_⟩
      intro hlength
      obtain ⟨rfl, htexts⟩ := hsame (by omega)
      refine ⟨rfl, ?_⟩
      intro kind text' hmem
      cases hmem with
      | tail _ hmem => exact htexts kind text' hmem
    | literal kind text =>
      obtain ⟨quoted, rest, rfl, hread, hrest⟩ := h
      obtain ⟨hle, hsame⟩ := ih hrest
      obtain ⟨hlong, hbody⟩ := readLiteral_length hread
      rw [render_cons, Piece.source]
      rw [List.length_map] at hlong hbody
      simp only [List.length_append, List.length_cons, List.length_nil]
      refine ⟨by omega, ?_⟩
      intro hlength
      obtain ⟨rfl, htexts⟩ := hsame (by omega)
      obtain ⟨body, rfl, hcodes, hkept, hclean⟩ := hbody (by omega)
      have hbody : text = body := List.map_injective_iff.mpr (fun _ _ => Char.toNat_inj.mp) hcodes
      subst hbody
      refine ⟨by simp, ?_⟩
      intro kind' text' hmem
      cases hmem with
      | head => exact ⟨hkept, hclean⟩
      | tail _ hmem => exact htexts kind' text' hmem

theorem mem_render {pieces : List Piece} {c : Char} :
    c ∈ render pieces ↔ ∃ piece ∈ pieces, c ∈ piece.source := List.mem_flatMap

theorem plain_of_readsBack {named : List Char → Option ℕ} {pieces : List Piece}
    (h : ReadsBack named pieces (sourceOf (render pieces))) {kind : LiteralKind}
    {text : List Char} (hmem : .literal kind text ∈ pieces) : Plain kind text := by
  obtain ⟨hle, hsame⟩ := h.length
  have hshort := length_sourceOf (render pieces)
  obtain ⟨hsource, htexts⟩ := hsame (by omega)
  obtain ⟨hkept, hclean⟩ := htexts kind text hmem
  refine ⟨hkept, ?_⟩
  intro c hc
  have hin : c ∈ render pieces := by
    refine mem_render.mpr ⟨.literal kind text, hmem, ?_⟩
    simp [Piece.source, hc]
  rw [← hsource] at hin
  obtain ⟨hreturn, hnul⟩ := mem_sourceOf hin
  obtain ⟨hquote, hline, hascii⟩ := hclean c hc
  refine ⟨?_, hascii⟩
  simp [hquote, hline, hreturn, hnul]

theorem Closed.clean {pieces : List Piece} (hclosed : Closed pieces)
    (hplain : ∀ kind text, .literal kind text ∈ pieces → Plain kind text) :
    ∀ c ∈ render pieces, c ≠ '\r' ∧ c ≠ '\x00' := by
  induction pieces with
  | nil => simp [render]
  | cons piece pieces ih =>
    have htail := fun kind text hmem => hplain kind text (List.mem_cons_of_mem piece hmem)
    intro c hc
    rw [render_cons, List.mem_append] at hc
    cases piece with
    | code text =>
      rcases hc with hcode | hrest
      · exact hclosed.1 c hcode
      · exact ih hclosed.2 htail c hrest
    | literal kind text =>
      rcases hc with hliteral | hrest
      · have hin : c = 'b' ∨ c = '\'' ∨ c ∈ text := by
          cases kind <;> simp [Piece.source, LiteralKind.marker] at hliteral <;> tauto
        rcases hin with rfl | rfl | htext
        · exact ⟨by decide, by decide⟩
        · exact ⟨by decide, by decide⟩
        · exact ((hplain kind text List.mem_cons_self).chars c htext).clean.2.2
      · exact ih hclosed.2 htail c hrest

theorem readsBack_render {named : List Char → Option ℕ} {pieces : List Piece}
    (hclosed : Closed pieces)
    (hplain : ∀ kind text, .literal kind text ∈ pieces → Plain kind text) :
    ReadsBack named pieces (render pieces) := by
  induction pieces with
  | nil => rfl
  | cons piece pieces ih =>
    have htail := fun kind text hmem => hplain kind text (List.mem_cons_of_mem piece hmem)
    cases piece with
    | code text => exact ⟨render pieces, List.flatMap_cons, ih hclosed.2 htail⟩
    | literal kind text =>
      refine ⟨'\'' :: text ++ '\'' :: render pieces, render pieces, ?_, ?_, ih hclosed.2 htail⟩
      · rw [render_cons, Piece.source]
        simp
      · exact readLiteral_plain (hplain kind text List.mem_cons_self) hclosed.1

/-- The source is read back as the pieces exactly if the text of every literal is plain. -/
theorem readsBack_iff {named : List Char → Option ℕ} {pieces : List Piece}
    (hclosed : Closed pieces) : ReadsBack named pieces (sourceOf (render pieces)) ↔
      ∀ kind text, .literal kind text ∈ pieces → Plain kind text := by
  constructor
  · intro h kind text hmem
    exact plain_of_readsBack h hmem
  · intro hplain
    rw [sourceOf_eq_self (hclosed.clean hplain)]
    exact readsBack_render hclosed hplain

end HpcProfiler.PythonLiteral
