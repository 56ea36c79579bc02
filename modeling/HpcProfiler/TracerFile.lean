import HpcProfiler.DecimalText
import HpcProfiler.SharedFile
import HpcProfiler.TracerCallbacks

/-!
The file of the tracer. The tracer writes its lines at the place it keeps, while the traced
program opens the same file again to append its marks. Whatever the order of their writes,
every line of the tracer is in the file, whole and in its order; of the marks only an end is
left, the shorter the more the tracer writes behind them. The lines that shutdown_tracer
writes, those of its last flush and one of its own, come after the run and are left out.
-/

namespace HpcProfiler.TracerFile

open DecimalText SharedFile TracerCallbacks StepSystem

/-- A part of a format with its value: a literal text, %s, %u or %llu or %zu, and %.3f. -/
inductive Piece
  | lit (s : String)
  | str (s : String)
  | num (n : ℕ)
  | micros (ns : ℕ)

def Piece.text : Piece → List Char
  | .lit s => s.toList
  | .str s => s.toList
  | .num n => Nat.toDigits 10 n
  | .micros ns => Nat.toDigits 10 (ns / 1000) ++
      ['.', Nat.digitChar (ns / 100 % 10), Nat.digitChar (ns / 10 % 10), Nat.digitChar (ns % 10)]

def triple (xyz : ℕ × ℕ × ℕ) : List Piece :=
  [.num xyz.1, .lit ",", .num xyz.2.1, .lit ",", .num xyz.2.2]

/-- The formats of the calls of out_printf. -/
def format : Line → List Piece
  | .status msg => [.lit "\x7b\"type\":\"meta\",\"msg\":\"", .str msg, .lit "\"\x7d"]
  | .enter api corr t =>
    [.lit "\x7b\"type\":\"callback\",\"side\":\"cpu\",\"site\":\"enter\",\"api\":\"", .str api,
      .lit "\",\"corr\":", .num corr.toNat, .lit ",\"t_ns\":", .num t, .lit "\x7d"]
  | .exit api corr t dur =>
    [.lit "\x7b\"type\":\"callback\",\"side\":\"cpu\",\"site\":\"exit\",\"api\":\"", .str api,
      .lit "\",\"corr\":", .num corr.toNat, .lit ",\"t_ns\":", .num t, .lit ",\"dur_us\":",
      dur.elim (.lit "-1.000") .micros, .lit "\x7d"]
  | .meminfo tag t freeB totalB =>
    [.lit "\x7b\"type\":\"meminfo\",\"side\":\"device\",\"tag\":\"", .str tag, .lit "\",\"t_ns\":",
      .num t, .lit ",\"free_mb\":", .num (freeB / 1048576).toNat, .lit ",\"total_mb\":",
      .num (totalB / 1048576).toNat, .lit ",\"used_mb\":", .num ((totalB - freeB) / 1048576).toNat,
      .lit "\x7d"]
  | .memcpy m dur =>
    [.lit "\x7b\"type\":\"activity\",\"side\":\"gpu\",\"kind\":\"memcpy\",\"op\":\"",
      .str m.copyKind.op, .lit "\",\"bytes\":", .num m.bytes.toNat, .lit ",\"start\":",
      .num m.start.toNat, .lit ",\"end\":", .num m.finish.toNat, .lit ",\"dur_us\":", .micros dur,
      .lit ",\"stream\":", .num m.streamId.toNat, .lit ",\"corr\":", .num m.correlationId.toNat,
      .lit "\x7d"]
  | .kernel k name dur =>
    [.lit "\x7b\"type\":\"activity\",\"side\":\"gpu\",\"kind\":\"kernel\",\"name\":\"", .str name,
      .lit "\",\"start\":", .num k.start.toNat, .lit ",\"end\":", .num k.finish.toNat,
      .lit ",\"dur_us\":", .micros dur, .lit ",\"grid\":["] ++ triple k.grid ++
      [.lit "],\"block\":["] ++ triple k.block ++ [.lit "],\"stream\":", .num k.streamId.toNat,
      .lit ",\"corr\":", .num k.correlationId.toNat, .lit "\x7d"]

def text (line : Line) : List Char := ((format line).map Piece.text).flatten

/-- What one call of out_printf writes. -/
def written (line : Line) : List Char := text line ++ ['\n']

/-- The name in a line. -/
def nameOf : Line → String
  | .status msg => msg
  | .enter api .. | .exit api .. => api
  | .meminfo tag .. => tag
  | .memcpy m _ => m.copyKind.op
  | .kernel _ name _ => name

/-- A part that has no end of a line in it, if a name has none. -/
def Piece.Plain (name : String) : Piece → Prop
  | .lit s => '\n' ∉ s.toList
  | .str s => s = name
  | .num _ => True
  | .micros _ => True

instance (name : String) : (p : Piece) → Decidable (p.Plain name)
  | .lit s => inferInstanceAs (Decidable ('\n' ∉ s.toList))
  | .str s => inferInstanceAs (Decidable (s = name))
  | .num _ => isTrue trivial
  | .micros _ => isTrue trivial

theorem newline_not_mem_digits (n : ℕ) : '\n' ∉ Nat.toDigits 10 n := by
  intro h
  cases isDigit_of_mem_digits h

theorem newline_not_digitChar : ∀ d < 10, '\n' ≠ Nat.digitChar d := by decide

theorem Piece.Plain.newline_not_mem {name : String} (hname : '\n' ∉ name.toList) {p : Piece}
    (h : p.Plain name) : '\n' ∉ p.text := by
  cases p with
  | lit s => exact h
  | str s =>
    rw [Piece.text, show s = name from h]
    exact hname
  | num n => exact newline_not_mem_digits n
  | micros ns =>
    have hdigit : ∀ n, '\n' ≠ Nat.digitChar (n % 10) :=
      fun n => newline_not_digitChar _ (Nat.mod_lt n (by decide))
    simp [Piece.text, newline_not_mem_digits, hdigit]

theorem plain_format (line : Line) : ∀ p ∈ format line, p.Plain (nameOf line) := by
  cases line with
  | exit api corr t dur => cases dur <;> simp [format, nameOf, Piece.Plain]
  | _ => simp [format, nameOf, Piece.Plain, triple]

theorem newline_not_mem_text {line : Line} (hname : '\n' ∉ (nameOf line).toList) :
    '\n' ∉ text line := by
  intro h
  obtain ⟨_, hpiece, hmem⟩ := List.mem_flatten.mp h
  obtain ⟨p, hp, rfl⟩ := List.mem_map.mp hpiece
  exact (plain_format line p hp).newline_not_mem hname hmem

theorem text_ne_nil (line : Line) : text line ≠ [] := by
  intro h
  rw [text, List.flatten_eq_nil_iff] at h
  cases line <;> simp [format, Piece.text] at h

/-! The names in a trace. -/

def PlainName (name : String) : Prop := '\n' ∉ name.toList

instance (name : String) : Decidable (PlainName name) := inferInstanceAs (Decidable (_ ∉ _))

/-- CUPTI gives names without an end of a line in them. -/
def PlainAction : Action → Prop
  | .enter (some name) _ => PlainName name
  | .activity (.kernel ⟨some name, _, _, _, _, _, _⟩) => PlainName name
  | _ => True

/-- The names of the calls, and those in the lines that are about no call. -/
structure PlainNames (s : Tracer) : Prop where
  calls : ∀ call ∈ s.calls, PlainName call.api
  out : ∀ line, (none, line) ∈ s.out → PlainName (nameOf line)

theorem PlainNames.set {s : Tracer} (h : PlainNames s) {i : ℕ} {next : Call}
    (hnext : PlainName next.api) : ∀ call ∈ s.calls.set i next, PlainName call.api := by
  intro call hcall
  rcases List.mem_or_eq_of_mem_set hcall with hmem | heq
  · exact h.calls call hmem
  · rw [heq]
    exact hnext

theorem plain_meminfo {name : String} (h : PlainName name) : PlainName (name ++ "_exit") := by
  unfold PlainName at h ⊢
  rw [String.toList_append, List.mem_append, not_or]
  exact ⟨h, by decide⟩

theorem logMeminfo_plain {s s' : Tracer} {i : ℕ} {call : Call}
    {memory : Option (UInt64 × UInt64)} (h : PlainNames s) (hi : s.calls[i]? = some call)
    (hstep : logMeminfo s i call memory = some s') : PlainNames s' := by
  have hapi := h.calls call (List.mem_of_getElem? hi)
  -- With or without its line.
  have hreport : ∀ t t' t0, PlainNames ((memory.elim s fun sizes =>
      s.outPrintf none (.meminfo (call.api ++ "_exit") t' sizes.1 sizes.2)).moveTo i call
        (.logged t t' t0)) := by
    intro t t' t0
    cases memory with
    | none => exact ⟨h.set hapi, h.out⟩
    | some memory =>
      refine ⟨h.set hapi, ?_⟩
      intro line hmem
      rcases List.mem_append.mp hmem with hmem | hmem
      · exact h.out line hmem
      · rw [(Prod.mk.inj (List.mem_singleton.mp hmem)).2]
        exact plain_meminfo hapi
  unfold logMeminfo at hstep
  dsimp only at hstep
  split at hstep
  · split at hstep
    · rw [← Option.some.inj hstep]
      apply hreport
    · cases hstep
  · split at hstep
    · rw [← Option.some.inj hstep]
      apply hreport
    · cases hstep
  · cases hstep

theorem step_plain {s s' : Tracer} {a : Action} (hs : Consistent s) (h : PlainNames s)
    (ha : PlainAction a) (hstep : step s a = some s') : PlainNames s' := by
  cases a with
  | wait ns =>
    cases hstep
    exact ⟨h.calls, h.out⟩
  | enter functionName correlationId =>
    unfold step at hstep
    dsimp only at hstep
    split at hstep
    · cases hstep
      refine ⟨List.forall_mem_append.mpr ⟨h.calls, List.forall_mem_singleton.mpr ?_⟩, h.out⟩
      cases functionName with
      | none => exact (by decide : PlainName "(unknown)")
      | some name => exact ha
    · cases hstep
  | callback i =>
    obtain ⟨call, hi, hcall⟩ := Option.bind_eq_some_iff.mp hstep
    obtain ⟨next, hmoves⟩ := callbackHandler_moves hs hi hcall
    obtain ⟨printed, hout, -⟩ := hmoves.out
    refine ⟨?_, ?_⟩
    · rw [hmoves.calls]
      apply h.set
      rw [hmoves.api]
      exact h.calls call (List.mem_of_getElem? hi)
    · intro line hmem
      rw [hout] at hmem
      rcases List.mem_append.mp hmem with hmem | hmem
      · exact h.out line hmem
      · obtain ⟨_, _, heq⟩ := List.mem_map.mp hmem
        cases (Prod.mk.inj heq).1
  | ask i =>
    obtain ⟨call, hi, hcall⟩ := Option.bind_eq_some_iff.mp hstep
    have hapi := h.calls call (List.mem_of_getElem? hi)
    unfold askMemory at hcall
    split at hcall
    · split at hcall
      · cases hcall
        refine ⟨List.forall_mem_append.mpr ⟨h.set hapi, List.forall_mem_singleton.mpr ?_⟩, h.out⟩
        exact (by decide : PlainName "cudaMemGetInfo")
      · cases hcall
    · cases hcall
  | log i memory =>
    obtain ⟨call, hi, hcall⟩ := Option.bind_eq_some_iff.mp hstep
    exact logMeminfo_plain h hi hcall
  | activity record =>
    cases hstep
    refine ⟨h.calls, ?_⟩
    intro line hmem
    rcases List.mem_append.mp hmem with hmem | hmem
    · exact h.out line hmem
    · obtain ⟨line, hline, heq⟩ := List.mem_map.mp hmem
      rw [← (Prod.mk.inj heq).2]
      cases record with
      | memcpy m =>
        rw [List.mem_singleton.mp hline]
        cases hkind : m.copyKind <;> simp [nameOf, hkind, CopyKind.op, PlainName]
      | kernel k =>
        rw [List.mem_singleton.mp hline]
        obtain ⟨name, _, _, _, _, _, _⟩ := k
        cases name with
        | none => exact (by decide : PlainName "(null)")
        | some name => exact ha
      | other => cases hline

theorem run_plain {as : List Action} {s : Tracer} (hrun : run step init as = some s)
    (hnames : ∀ a ∈ as, PlainAction a) : ∀ line ∈ trace s, PlainName (nameOf line) := by
  have hinit : Consistent init ∧ PlainNames init := by
    refine ⟨consistent_init, ?_, ?_⟩
    · intro call hcall
      cases hcall
    · intro line hmem
      rw [(Prod.mk.inj (List.mem_singleton.mp hmem)).2]
      exact (by decide : PlainName "cupti tracer init")
  have hkeeps : ∀ s a s', Consistent s ∧ PlainNames s → PlainAction a → step s a = some s' →
      Consistent s' ∧ PlainNames s' :=
    fun _ _ _ h ha hstep => ⟨step_consistent h.1 hstep, step_plain h.1 h.2 ha hstep⟩
  obtain ⟨hs, hplain⟩ := run_invariant hkeeps hinit hnames hrun
  intro line hline
  obtain ⟨⟨owner, line⟩, hmem, rfl⟩ := List.mem_map.mp hline
  cases owner with
  | none => exact hplain.out line hmem
  | some j =>
    obtain ⟨call, hj, hown⟩ := hs.call_of_mem hmem
    have hname : nameOf line = call.api := by
      have hkey := Call.call_of_mem_lines hown
      cases line <;> cases hkey <;> rfl
    dsimp only
    rw [hname]
    exact hplain.calls call (List.mem_of_getElem? hj)

/-- In whatever order the tracer and the marks of the program write: the file has every line
of the trace, whole and in order, and behind them the lines of an end of what was marked;
what the tracer writes after the last mark takes as much of this end away as it is long. -/
theorem trace_survives_marks (as : List Action) (s : Tracer) (hrun : run step init as = some s)
    (hnames : ∀ a ∈ as, PlainAction a) (ws : List (Write Char))
    (howned : owned ws = (trace s).map written) :
    fullLines '\n' (writeAll opened ws).data =
      (trace s).map text ++ fullLines '\n' (behind [] ws) ∧
    behind [] ws <:+ (appended ws).flatten ∧
    ∀ (before : List (Write Char)) (texts : List (List Char)), ws = before ++ texts.map .own →
      behind [] ws = (behind [] before).drop texts.flatten.length := by
  refine ⟨?_, behind_suffix List.suffix_rfl ws, ?_⟩
  · have hmap : (trace s).map written = ((trace s).map text).map (· ++ ['\n']) := by
      rw [List.map_map]
      rfl
    rw [writeAll_opened, howned, hmap]
    apply fullLines_append
    intro line hline
    obtain ⟨line, hmem, rfl⟩ := List.mem_map.mp hline
    exact ⟨text_ne_nil line, newline_not_mem_text (run_plain hrun hnames line hmem)⟩
  · rintro before texts rfl
    rw [behind_append, behind_own]

/-- A copy, with a mark after the first line of the tracer. -/
def markedRun : List Action :=
  [.wait 40, .enter (some "cudaMemcpy") 1, .callback 0, .callback 0, .callback 0, .callback 0,
    .callback 0]

def marked : List Line → List (Write Char)
  | [] => []
  | line :: lines => .own (written line) :: .append "\x7b\"msg\":\"htoD_begin\"\x7d\n".toList ::
      lines.map fun line => .own (written line)

theorem owned_marked (lines : List Line) : owned (marked lines) = lines.map written := by
  cases lines with
  | nil => rfl
  | cons line lines =>
    unfold owned marked
    rw [List.filterMap_cons_some (by rfl), List.filterMap_cons_none (by rfl), List.filterMap_map]
    exact congrArg _ (congrFun List.filterMap_eq_map _)

theorem trace_survives_marks_markedRun : ∃ s, run step init markedRun = some s ∧
    fullLines '\n' (writeAll opened (marked (trace s))).data =
      (trace s).map text ++ fullLines '\n' (behind [] (marked (trace s))) ∧
    behind [] (marked (trace s)) <:+ (appended (marked (trace s))).flatten ∧
    ∀ (before : List (Write Char)) (texts : List (List Char)),
      marked (trace s) = before ++ texts.map .own →
        behind [] (marked (trace s)) = (behind [] before).drop texts.flatten.length := by
  have hsome : (run step init markedRun).isSome := by decide +kernel
  obtain ⟨s, hrun⟩ := Option.isSome_iff_exists.mp hsome
  have hnames : ∀ a ∈ markedRun, PlainAction a := by
    intro a ha
    simp only [markedRun, List.mem_cons, List.not_mem_nil, or_false] at ha
    rcases ha with rfl | rfl | rfl | rfl | rfl | rfl | rfl
    · trivial
    · exact (by decide : PlainName "cudaMemcpy")
    all_goals trivial
  exact ⟨s, hrun, trace_survives_marks markedRun s hrun hnames (marked (trace s))
    (owned_marked (trace s))⟩

end HpcProfiler.TracerFile
