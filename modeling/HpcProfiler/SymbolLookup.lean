import HpcProfiler.PythonText
import Mathlib.Algebra.Group.Basic
import Mathlib.Algebra.Group.Int.Defs
import Mathlib.Data.List.AList
import Mathlib.Data.List.Induction

/-!
Resolving the addresses of the three functions that the shellcode calls, from the
outputs of nm and of nm -D. The lookup stops after the first output that lists any of
them, so that it fails for a binary whose symbols stand partly in the one and partly in
the other.
-/

namespace HpcProfiler.SymbolLookup

open PythonText

def required : List String := ["PyGILState_Ensure", "PyGILState_Release", "PyRun_SimpleString"]

abbrev Found : Type := AList fun _ : String => ℤ

inductive ResolveError
  | symbols (missing : List String) (pythonBinary : String)
  | loadBase (pythonBinary : String) (pid : ℤ)
  deriving DecidableEq

/-- The missing names are a set, which may be printed in any order. -/
def ResolveError.message : ResolveError → String
  | .symbols missing pythonBinary =>
    "Could not resolve symbols \x7b" ++
      ", ".intercalate (missing.map fun name => "'" ++ name ++ "'") ++ "\x7d from " ++
      pythonBinary ++ ". Ensure nm is installed and the binary has symbols."
  | .loadBase pythonBinary pid =>
    "Could not find load base for " ++ pythonBinary ++ " in /proc/" ++ toString pid ++ "/maps"

/-- One line of the output. -/
def readLine (found : Found) (line : String) : Found :=
  match split line with
  | addrStr :: symType :: symName :: _ =>
    if symName ∈ required ∧ upper symType ∈ ["T", "W"] then
      match int16 addrStr with
      | some addr => found.insert symName addr
      | none => found
    else found
  | _ => found

/-- The outputs one after another, up to the first that lists any of the symbols. -/
def readOutputs (found : Found) : List (List String) → Found
  | [] => found
  | lines :: rest =>
    let found := lines.foldl readLine found
    if found.keys ≠ [] then found else readOutputs found rest

def resolveSymbols (plain dynamic : List String) (pythonBinary : String) :
    Except ResolveError Found :=
  let found := readOutputs ∅ [plain, dynamic]
  let missing := required.filter fun name => name ∉ found
  if missing ≠ [] then .error (.symbols missing pythonBinary) else .ok found

/-- The addresses with the load base of the binary added to each. -/
def rebase (base : ℤ) (offsets : Found) : Found where
  entries := offsets.entries.map fun entry => ⟨entry.1, base + entry.2⟩
  nodupKeys := by
    rw [List.NodupKeys, List.keys, List.map_map]
    exact offsets.nodupKeys

/-- The load base is what _get_load_base returns or raises. -/
def resolveForPid (plain dynamic : List String) (pythonBinary : String)
    (loadBase : Except ResolveError ℤ) : Except ResolveError Found := do
  let offsets ← resolveSymbols plain dynamic pythonBinary
  let base ← loadBase
  return rebase base offsets

/-- The line is of type T or W, in either case, and gives the symbol an address. -/
def Gives (line name : String) (addr : ℤ) : Prop :=
  ∃ addrStr symType rest, split line = addrStr :: symType :: name :: rest ∧
    symType ∈ ["T", "t", "W", "w"] ∧ int16 addrStr = some addr

def Listed (lines : List String) (name : String) : Prop :=
  ∃ line ∈ lines, ∃ addr, Gives line name addr

theorem upper_mem_iff (symType : String) :
    upper symType ∈ ["T", "W"] ↔ symType ∈ ["T", "t", "W", "w"] := by
  have hT : upper symType = "T" ↔ symType = "T" ∨ symType = "t" :=
    upper_eq_iff 'T' 't' (by decide) rfl
  have hW : upper symType = "W" ↔ symType = "W" ∨ symType = "w" :=
    upper_eq_iff 'W' 'w' (by decide) rfl
  simp only [List.mem_cons, List.not_mem_nil, or_false, hT, hW, or_assoc]

theorem Gives.name_eq {line name name' : String} {addr addr' : ℤ} (h : Gives line name addr)
    (h' : Gives line name' addr') : name = name' := by
  obtain ⟨addrStr, symType, rest, hsplit, -⟩ := h
  obtain ⟨addrStr', symType', rest', hsplit', -⟩ := h'
  rw [hsplit] at hsplit'
  cases hsplit'
  rfl

/-- A line gives one of the symbols an address, which is noted, or it is passed over. -/
theorem readLine_cases (found : Found) (line : String) :
    (∃ name ∈ required, ∃ addr, Gives line name addr ∧
      readLine found line = found.insert name addr) ∨
    (∀ name ∈ required, ∀ addr, ¬Gives line name addr) ∧ readLine found line = found := by
  unfold readLine
  split
  · rename_i addrStr symType symName rest hsplit
    have hgives : ∀ name addr, Gives line name addr →
        name = symName ∧ upper symType ∈ ["T", "W"] ∧ int16 addrStr = some addr := by
      rintro name addr ⟨addrStr', symType', rest', hsplit', htype, haddr⟩
      rw [hsplit] at hsplit'
      cases hsplit'
      exact ⟨rfl, (upper_mem_iff symType).mpr htype, haddr⟩
    split
    · rename_i hmatch
      obtain ⟨hname, htype⟩ := hmatch
      cases haddr : int16 addrStr with
      | some addr =>
        refine .inl ⟨symName, hname, addr, ?_, rfl⟩
        exact ⟨addrStr, symType, rest, hsplit, (upper_mem_iff symType).mp htype, haddr⟩
      | none =>
        refine .inr ⟨?_, rfl⟩
        intro name _ addr hline
        obtain ⟨-, -, haddr'⟩ := hgives name addr hline
        rw [haddr] at haddr'
        cases haddr'
    · rename_i hmatch
      refine .inr ⟨?_, rfl⟩
      intro name hname addr hline
      obtain ⟨rfl, htype, -⟩ := hgives name addr hline
      exact hmatch ⟨hname, htype⟩
  · rename_i hsplit
    refine .inr ⟨?_, rfl⟩
    rintro name - addr ⟨addrStr, symType, rest, hline, -, -⟩
    exact hsplit addrStr symType name rest hline

/-- What has been noted after these lines: an address for each symbol that one of them
lists, and none besides. -/
structure Noted (lines : List String) (found : Found) : Prop where
  mem_iff : ∀ name, name ∈ found ↔ name ∈ required ∧ Listed lines name
  given : ∀ name addr, found.lookup name = some addr → ∃ line ∈ lines, Gives line name addr

theorem noted_nil : Noted [] ∅ where
  mem_iff := by
    intro name
    constructor
    · intro hname
      cases hname
    · rintro ⟨-, line, hline, -⟩
      cases hline
  given := by
    intro name addr hlookup
    cases hlookup

theorem listed_concat {lines : List String} {line name : String} :
    Listed (lines ++ [line]) name ↔ Listed lines name ∨ ∃ addr, Gives line name addr := by
  simp [Listed]

theorem Noted.readLine {lines : List String} {found : Found} (h : Noted lines found)
    (line : String) : Noted (lines ++ [line]) (readLine found line) := by
  rcases readLine_cases found line with ⟨name, hname, addr, hgives, heq⟩ | ⟨hnone, heq⟩
  · rw [heq]
    refine ⟨?_, ?_⟩
    · intro other
      rw [AList.mem_insert, h.mem_iff, listed_concat]
      constructor
      · rintro (rfl | ⟨hother, hlisted⟩)
        · exact ⟨hname, .inr ⟨addr, hgives⟩⟩
        · exact ⟨hother, .inl hlisted⟩
      · rintro ⟨hother, hlisted | ⟨addr', hgives'⟩⟩
        · exact .inr ⟨hother, hlisted⟩
        · exact .inl (hgives'.name_eq hgives)
    · intro other addr' hlookup
      by_cases hsame : other = name
      · subst hsame
        rw [AList.lookup_insert] at hlookup
        cases hlookup
        exact ⟨line, List.mem_append_right _ (List.mem_singleton_self line), hgives⟩
      · rw [AList.lookup_insert_ne hsame] at hlookup
        obtain ⟨line', hmem, hgives'⟩ := h.given other addr' hlookup
        exact ⟨line', List.mem_append_left _ hmem, hgives'⟩
  · rw [heq]
    refine ⟨?_, ?_⟩
    · intro other
      rw [h.mem_iff, listed_concat]
      constructor
      · rintro ⟨hother, hlisted⟩
        exact ⟨hother, .inl hlisted⟩
      · rintro ⟨hother, hlisted | ⟨addr, hgives⟩⟩
        · exact ⟨hother, hlisted⟩
        · exact absurd hgives (hnone other hother addr)
    · intro other addr hlookup
      obtain ⟨line', hmem, hgives⟩ := h.given other addr hlookup
      exact ⟨line', List.mem_append_left _ hmem, hgives⟩

theorem noted_foldl (lines : List String) : Noted lines (lines.foldl readLine ∅) := by
  induction lines using List.reverseRec with
  | nil => exact noted_nil
  | append_singleton lines line ih =>
    rw [List.foldl_concat]
    exact ih.readLine line

theorem Noted.keys_eq_nil {lines : List String} {found : Found} (h : Noted lines found) :
    found.keys = [] ↔ ∀ name ∈ required, ¬Listed lines name := by
  rw [List.eq_nil_iff_forall_not_mem]
  constructor
  · intro hnil name hname hlisted
    exact hnil name (AList.mem_keys.mp ((h.mem_iff name).mpr ⟨hname, hlisted⟩))
  · intro hnone name hmem
    obtain ⟨hname, hlisted⟩ := (h.mem_iff name).mp (AList.mem_keys.mpr hmem)
    exact hnone name hname hlisted

/-- The outputs are read up to the first that lists any of the symbols. -/
theorem noted_readOutputs (plain dynamic : List String) :
    (∃ name ∈ required, Listed plain name) ∧ Noted plain (readOutputs ∅ [plain, dynamic]) ∨
      (∀ name ∈ required, ¬Listed plain name) ∧
        Noted dynamic (readOutputs ∅ [plain, dynamic]) := by
  have hplain := noted_foldl plain
  simp only [readOutputs]
  by_cases hkeys : (plain.foldl readLine ∅).keys = []
  · have hempty : plain.foldl readLine ∅ = ∅ := by
      apply AList.ext
      exact List.map_eq_nil_iff.mp hkeys
    rw [if_neg (not_not.mpr hkeys), hempty, ite_self]
    exact .inr ⟨hplain.keys_eq_nil.mp hkeys, noted_foldl dynamic⟩
  · rw [if_pos hkeys]
    rw [hplain.keys_eq_nil] at hkeys
    push Not at hkeys
    exact .inl ⟨hkeys, hplain⟩

/-- The error names the symbols that were not found. -/
theorem resolveSymbols_cases (plain dynamic : List String) (pythonBinary : String) :
    (∀ name ∈ required, name ∈ readOutputs ∅ [plain, dynamic]) ∧
        resolveSymbols plain dynamic pythonBinary = .ok (readOutputs ∅ [plain, dynamic]) ∨
      ∃ missing, (∀ name, name ∈ missing ↔
          name ∈ required ∧ name ∉ readOutputs ∅ [plain, dynamic]) ∧ missing ≠ [] ∧
        resolveSymbols plain dynamic pythonBinary = .error (.symbols missing pythonBinary) := by
  have hmem : ∀ name, name ∈ (required.filter fun name => name ∉ readOutputs ∅ [plain, dynamic]) ↔
      name ∈ required ∧ name ∉ readOutputs ∅ [plain, dynamic] := by
    intro name
    rw [List.mem_filter, decide_eq_true_iff]
  by_cases hmissing : (required.filter fun name => name ∉ readOutputs ∅ [plain, dynamic]) = []
  · refine .inl ⟨?_, if_neg (not_not.mpr hmissing)⟩
    intro name hname
    by_contra hnot
    have hin := (hmem name).mpr ⟨hname, hnot⟩
    rw [hmissing] at hin
    cases hin
  · exact .inr ⟨_, hmem, hmissing, if_pos hmissing⟩

/-- The lookup succeeds if each symbol is listed in one of the outputs, with an address
that one of them gives, and raises only if some symbol is listed in neither. -/
structure Resolves (plain dynamic : List String) (result : Except ResolveError Found) : Prop where
  succeeds : (∃ found, result = .ok found) ↔
    ∀ name ∈ required, Listed plain name ∨ Listed dynamic name
  addresses : ∀ found, result = .ok found → ∀ name, (name ∈ found ↔ name ∈ required) ∧
    ∀ addr, found.lookup name = some addr → ∃ line ∈ plain ++ dynamic, Gives line name addr
  raises : ∀ e, result = .error e →
    (∃ missing pythonBinary, e = .symbols missing pythonBinary) ∧
      ∃ name ∈ required, ¬Listed plain name ∧ ¬Listed dynamic name

/-- If the first output lists any of the symbols then it lists them all, or the second
does not have what it lacks. -/
def FirstSuffices (plain dynamic : List String) : Prop :=
  (∃ name ∈ required, Listed plain name) →
    (∀ name ∈ required, Listed plain name) ∨
      ∃ name ∈ required, ¬Listed plain name ∧ ¬Listed dynamic name

theorem firstSuffices_of_resolves {plain dynamic : List String} {pythonBinary : String}
    (h : Resolves plain dynamic (resolveSymbols plain dynamic pythonBinary)) :
    FirstSuffices plain dynamic := by
  rintro ⟨first, hfirst, hlisted⟩
  rcases resolveSymbols_cases plain dynamic pythonBinary with ⟨hall, -⟩ | ⟨missing, -, -, herror⟩
  · rcases noted_readOutputs plain dynamic with ⟨-, hnoted⟩ | ⟨hnone, -⟩
    · exact .inl fun name hname => ((hnoted.mem_iff name).mp (hall name hname)).2
    · exact absurd hlisted (hnone first hfirst)
  · exact .inr (h.raises _ herror).2

theorem listed_of_mem {plain dynamic : List String} {name : String}
    (h : name ∈ readOutputs ∅ [plain, dynamic]) :
    name ∈ required ∧ (Listed plain name ∨ Listed dynamic name) := by
  rcases noted_readOutputs plain dynamic with ⟨-, hnoted⟩ | ⟨-, hnoted⟩
  · obtain ⟨hname, hlisted⟩ := (hnoted.mem_iff name).mp h
    exact ⟨hname, .inl hlisted⟩
  · obtain ⟨hname, hlisted⟩ := (hnoted.mem_iff name).mp h
    exact ⟨hname, .inr hlisted⟩

theorem gives_of_lookup {plain dynamic : List String} {name : String} {addr : ℤ}
    (h : (readOutputs ∅ [plain, dynamic]).lookup name = some addr) :
    ∃ line ∈ plain ++ dynamic, Gives line name addr := by
  rcases noted_readOutputs plain dynamic with ⟨-, hnoted⟩ | ⟨-, hnoted⟩
  · obtain ⟨line, hline, hgives⟩ := hnoted.given name addr h
    exact ⟨line, List.mem_append_left _ hline, hgives⟩
  · obtain ⟨line, hline, hgives⟩ := hnoted.given name addr h
    exact ⟨line, List.mem_append_right _ hline, hgives⟩

theorem FirstSuffices.found {plain dynamic : List String} (h : FirstSuffices plain dynamic)
    (hlisted : ∀ name ∈ required, Listed plain name ∨ Listed dynamic name) :
    ∀ name ∈ required, name ∈ readOutputs ∅ [plain, dynamic] := by
  intro name hname
  rcases noted_readOutputs plain dynamic with ⟨hany, hnoted⟩ | ⟨hnone, hnoted⟩
  · rcases h hany with hall | ⟨other, hother, hplain, hdynamic⟩
    · exact (hnoted.mem_iff name).mpr ⟨hname, hall name hname⟩
    · rcases hlisted other hother with hin | hin
      · exact absurd hin hplain
      · exact absurd hin hdynamic
  · have hin := (hlisted name hname).resolve_left (hnone name hname)
    exact (hnoted.mem_iff name).mpr ⟨hname, hin⟩

theorem resolves_of_firstSuffices {plain dynamic : List String} (pythonBinary : String)
    (h : FirstSuffices plain dynamic) :
    Resolves plain dynamic (resolveSymbols plain dynamic pythonBinary) := by
  rcases resolveSymbols_cases plain dynamic pythonBinary with
    ⟨hall, hok⟩ | ⟨missing, hmissing, hne, herror⟩
  · rw [hok]
    refine ⟨?_, ?_, ?_⟩
    · exact iff_of_true ⟨_, rfl⟩ fun name hname => (listed_of_mem (hall name hname)).2
    · rintro _ ⟨⟩ name
      exact ⟨⟨fun hmem => (listed_of_mem hmem).1, hall name⟩, fun addr => gives_of_lookup⟩
    · rintro e ⟨⟩
  · rw [herror]
    obtain ⟨name, hname⟩ := List.exists_mem_of_ne_nil missing hne
    obtain ⟨hrequired, hnot⟩ := (hmissing name).mp hname
    have hnever : ¬∀ name ∈ required, Listed plain name ∨ Listed dynamic name :=
      fun hlisted => hnot (h.found hlisted name hrequired)
    refine ⟨?_, ?_, ?_⟩
    · refine iff_of_false ?_ hnever
      rintro ⟨found, ⟨⟩⟩
    · rintro found ⟨⟩
    · rintro _ ⟨⟩
      push Not at hnever
      exact ⟨⟨missing, pythonBinary, rfl⟩, hnever⟩

/-- The lookup does what it should for two outputs exactly if the first suffices. -/
theorem resolves_iff_firstSuffices (plain dynamic : List String) (pythonBinary : String) :
    Resolves plain dynamic (resolveSymbols plain dynamic pythonBinary) ↔
      FirstSuffices plain dynamic :=
  ⟨firstSuffices_of_resolves, resolves_of_firstSuffices pythonBinary⟩

theorem lookup_rebase (base : ℤ) (offsets : Found) (name : String) :
    (rebase base offsets).lookup name = (offsets.lookup name).map (base + ·) := by
  obtain ⟨entries, hkeys⟩ := offsets
  show List.dlookup name (entries.map fun entry => (⟨entry.1, base + entry.2⟩ : Σ _, ℤ)) =
    Option.map (fun offset : ℤ => base + offset) (List.dlookup name entries)
  clear hkeys
  induction entries with
  | nil => rfl
  | cons entry entries ih =>
    obtain ⟨first, offset⟩ := entry
    by_cases hsame : first = name
    · subst hsame
      rw [List.map_cons, List.dlookup_cons_eq, List.dlookup_cons_eq]
      rfl
    · rw [List.map_cons, List.dlookup_cons_ne _ _ (Ne.symm hsame),
        List.dlookup_cons_ne _ _ (Ne.symm hsame)]
      exact ih

/-- What attach gets is the load base added to the addresses of the listings. -/
theorem resolveForPid_ok {plain dynamic : List String} {pythonBinary : String}
    {loadBase : Except ResolveError ℤ} {addresses : Found}
    (h : resolveForPid plain dynamic pythonBinary loadBase = .ok addresses) :
    ∃ base, loadBase = .ok base ∧ ∀ name addr, addresses.lookup name = some addr →
      ∃ line ∈ plain ++ dynamic, Gives line name (addr - base) := by
  rcases resolveSymbols_cases plain dynamic pythonBinary with
    ⟨-, hok⟩ | ⟨missing, -, -, herror⟩
  · rw [resolveForPid, hok] at h
    cases loadBase with
    | error e => cases h
    | ok base =>
      cases h
      refine ⟨base, rfl, ?_⟩
      intro name addr hlookup
      rw [lookup_rebase] at hlookup
      obtain ⟨offset, hoffset, rfl⟩ := Option.map_eq_some_iff.mp hlookup
      rw [add_sub_cancel_left]
      exact gives_of_lookup hoffset
  · rw [resolveForPid, herror] at h
    cases h

/-- A binary stripped of its symbol table but for one function. -/
def partlyStripped : List String := ["0000000000418e2a t PyGILState_Ensure"]

def dynamicSymbols : List String :=
  ["0000000000418e2a T PyGILState_Ensure", "0000000000418f90 T PyGILState_Release",
    "000000000061c0d4 T PyRun_SimpleString"]

theorem partlyStripped_unresolved :
    ¬ ∀ (plain dynamic : List String) (pythonBinary : String),
      Resolves plain dynamic (resolveSymbols plain dynamic pythonBinary) := by
  intro h
  have hresolves := h partlyStripped dynamicSymbols "/usr/bin/python3"
  have hlisted : ∀ name ∈ required, Listed partlyStripped name ∨ Listed dynamicSymbols name := by
    intro name hname
    refine .inr ?_
    rcases List.mem_cons.mp hname with rfl | hname
    · exact ⟨_, List.mem_cons_self, 0x418E2A, "0000000000418e2a", "T", [], by decide⟩
    rcases List.mem_cons.mp hname with rfl | hname
    · exact ⟨_, .tail _ (.head _), 0x418F90, "0000000000418f90", "T", [], by decide⟩
    cases List.mem_singleton.mp hname
    exact ⟨_, .tail _ (.tail _ (.head _)), 0x61C0D4, "000000000061c0d4", "T", [], by decide⟩
  obtain ⟨found, hfound⟩ := hresolves.succeeds.mpr hlisted
  have herror : resolveSymbols partlyStripped dynamicSymbols "/usr/bin/python3" =
      .error (.symbols ["PyGILState_Release", "PyRun_SimpleString"] "/usr/bin/python3") := by
    decide
  rw [herror] at hfound
  cases hfound

end HpcProfiler.SymbolLookup
