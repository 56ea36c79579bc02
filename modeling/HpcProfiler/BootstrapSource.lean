import HpcProfiler.PythonLiteral
import HpcProfiler.Utf8Replace

/-!
The Python source that is injected to start the two layers. The name of the shared
memory and the path of the library are put between single quotes as they are, so that
the source is what was meant exactly if they are plain; the name of the GPU layer's
memory stands in a literal of bytes and has to be ASCII besides.
-/

namespace HpcProfiler.BootstrapSource

open PythonLiteral

def lines (texts : List String) : List Char := texts.flatMap fun line => line.toList ++ ['\n']

def bootstrapHead : List Char :=
  lines ["",
    "import sys",
    "import threading",
    "",
    "if not getattr(sys, '_hpc_profiler_active', False):",
    "    sys._hpc_profiler_active = True",
    "    try:",
    "        import sys as _sys"] ++
  "        _sys.path.insert(0, ".toList

def bootstrapMiddle : List Char :=
  lines [")",
    "        from python_memory_layer import PythonMemoryLayer",
    "        from bridge import Bridge",
    "",
    "        _hpc_layer  = PythonMemoryLayer(nframe=16)"] ++
  "        _hpc_bridge = Bridge(shm_name=".toList

def bootstrapTail : List Char :=
  lines [")",
    "        _hpc_bridge.open(create=False)",
    "",
    "        def _hpc_profiler_thread():",
    "            _hpc_layer.start()",
    "            import time",
    "            while getattr(_sys, '_hpc_profiler_active', False):",
    "                events = _hpc_layer.collect()",
    "                for e in events:",
    "                    _hpc_bridge.write(e)",
    "                time.sleep(0.05)",
    "            _hpc_layer.stop()",
    "            _hpc_bridge.close()",
    "",
    "        _hpc_thread = threading.Thread(",
    "            target=_hpc_profiler_thread,",
    "            name='hpc_profiler',",
    "            daemon=True,",
    "        )",
    "        _hpc_thread.start()",
    "        _sys._hpc_profiler_thread = _hpc_thread",
    "    except Exception as _e:",
    "        import traceback",
    "        _sys._hpc_inject_error = traceback.format_exc()"]

/-- The parent is the directory of the module. -/
def bootstrapPieces (parent shmName : String) : List Piece :=
  [.code bootstrapHead, .literal .str parent.toList, .code bootstrapMiddle,
    .literal .str shmName.toList, .code bootstrapTail]

def bootstrapCode (parent shmName : String) : String :=
  String.ofList (render (bootstrapPieces parent shmName))

/-- The path of the bridge library is not used. -/
def makeBootstrap (parent shmName _soPath : String) : List UInt8 :=
  Utf8Replace.encode (bootstrapCode parent shmName) ++ [0]

def gpuBootstrapHead : List Char :=
  lines ["",
    "import sys as _sys",
    "import threading as _threading",
    "",
    "if not getattr(_sys, '_hpc_cupti_active', False):",
    "    _sys._hpc_cupti_active = False",
    "    _sys._hpc_cupti_ready  = _threading.Event()",
    "",
    "    def _hpc_cupti_start():",
    "        import ctypes as _ct",
    "        try:"] ++
  "            _lib = _ct.CDLL(".toList

def gpuBootstrapMiddle : List Char :=
  lines [")",
    "            _lib.cupti_start.restype  = _ct.c_int",
    "            _lib.cupti_start.argtypes = [_ct.c_char_p]",
    "            _lib.cupti_stop.restype   = None",
    "            _lib.cupti_stop.argtypes  = []"] ++
  "            _ok = _lib.cupti_start(".toList

def gpuBootstrapTail : List Char :=
  lines [")",
    "            if _ok:",
    "                _sys._hpc_cupti_lib    = _lib",
    "                _sys._hpc_cupti_active = True",
    "            else:",
    "                _sys._hpc_cupti_error  = 'cupti_start returned 0'",
    "        except Exception as _e:",
    "            _sys._hpc_cupti_error = str(_e)",
    "        finally:",
    "            _sys._hpc_cupti_ready.set()",
    "",
    "    _threading.Thread(target=_hpc_cupti_start,",
    "                      name='hpc_cupti', daemon=True).start()"]

def gpuBootstrapPieces (shmName cuptiSo : String) : List Piece :=
  [.code gpuBootstrapHead, .literal .str cuptiSo.toList, .code gpuBootstrapMiddle,
    .literal .bytes shmName.toList, .code gpuBootstrapTail]

def makeGpuBootstrap (shmName cuptiSo : String) : String :=
  String.ofList (render (gpuBootstrapPieces shmName cuptiSo))

/-- The characters of a literal are at hand without decoding its bytes. -/
theorem clean_toList {text : List Char}
    (h : (text.all fun c => c != '\r' && c != '\x00') = true) :
    ∀ c ∈ (String.ofList text).toList, c ≠ '\r' ∧ c ≠ '\x00' := by
  rw [String.toList_ofList]
  intro c hc
  simpa using List.all_eq_true.mp h c hc

/-- Fixed code has no carriage return and no NUL. -/
theorem bootstrap_clean : ∀ text ∈ [bootstrapHead, bootstrapMiddle, bootstrapTail,
    gpuBootstrapHead, gpuBootstrapMiddle, gpuBootstrapTail], ∀ c ∈ text,
      c ≠ '\r' ∧ c ≠ '\x00' := by
  simp only [bootstrapHead, bootstrapMiddle, bootstrapTail, gpuBootstrapHead, gpuBootstrapMiddle,
    gpuBootstrapTail, lines, List.flatMap_cons, List.flatMap_nil, List.forall_mem_append,
    List.forall_mem_cons]
  and_intros
  all_goals first | exact clean_toList (by decide +kernel) | simp

/-- Each literal is the last argument of a call. -/
theorem closed_of_call {first second third : List Char} {kind kind' : LiteralKind}
    {text text' : List Char} (hfirst : ∀ c ∈ first, c ≠ '\r' ∧ c ≠ '\x00')
    (hsecond : ∀ c ∈ second, c ≠ '\r' ∧ c ≠ '\x00')
    (hthird : ∀ c ∈ third, c ≠ '\r' ∧ c ≠ '\x00') (hhead : second.head? = some ')')
    (hhead' : third.head? = some ')') :
    Closed [.code first, .literal kind text, .code second, .literal kind' text', .code third] := by
  refine ⟨hfirst, ?_, hsecond, ?_, hthird, trivial⟩
  · simp [render_cons, Piece.source, hhead]
  · simp [render_cons, Piece.source, hhead']

theorem head_lines (texts : List String) (rest : List Char) :
    (lines (")" :: texts) ++ rest).head? = some ')' := rfl

theorem head_lines_nil (texts : List String) : (lines (")" :: texts)).head? = some ')' := rfl

theorem bootstrap_closed (parent shmName : String) : Closed (bootstrapPieces parent shmName) :=
  closed_of_call (bootstrap_clean _ (by simp)) (bootstrap_clean _ (by simp))
    (bootstrap_clean _ (by simp)) (head_lines _ _) (head_lines_nil _)

theorem gpuBootstrap_closed (shmName cuptiSo : String) :
    Closed (gpuBootstrapPieces shmName cuptiSo) :=
  closed_of_call (bootstrap_clean _ (by simp)) (bootstrap_clean _ (by simp))
    (bootstrap_clean _ (by simp)) (head_lines _ _) (head_lines_nil _)

theorem length_bootstrapCode :
    ((bootstrapHead ++ bootstrapMiddle ++ bootstrapTail).flatMap
      String.utf8EncodeChar).length = 1113 := by
  decide +kernel

/-- The length of the injected source: the code, four quotes and the zero, besides the
path and the name in UTF-8. -/
theorem length_makeBootstrap (parent shmName soPath : String) :
    (makeBootstrap parent shmName soPath).length =
      1118 + (Utf8Replace.encode parent).length + (Utf8Replace.encode shmName).length := by
  have hcode := length_bootstrapCode
  have hquote : (String.utf8EncodeChar '\'').length = 1 := by decide
  simp only [List.flatMap_append, List.length_append] at hcode
  simp only [makeBootstrap, bootstrapCode, bootstrapPieces, Utf8Replace.encode,
    String.toList_ofList, render, Piece.source, LiteralKind.marker, List.flatMap_cons,
    List.flatMap_nil, List.nil_append, List.append_nil, List.flatMap_append, List.length_append,
    List.length_cons, List.length_nil, hquote]
  omega

/-- Both sources are read back as they were meant if and only if the path is plain, and
the name plain in a literal of its kind. -/
theorem bootstraps_readBack_iff (named : List Char → Option ℕ)
    (parent shmName gpuShmName cuptiSo : String) :
    (ReadsBack named (bootstrapPieces parent shmName)
        (sourceOf (bootstrapCode parent shmName).toList) ↔
      Plain .str parent.toList ∧ Plain .str shmName.toList) ∧
    (ReadsBack named (gpuBootstrapPieces gpuShmName cuptiSo)
        (sourceOf (makeGpuBootstrap gpuShmName cuptiSo).toList) ↔
      Plain .str cuptiSo.toList ∧ Plain .bytes gpuShmName.toList) := by
  rw [bootstrapCode, makeGpuBootstrap, String.toList_ofList, String.toList_ofList,
    readsBack_iff (bootstrap_closed parent shmName),
    readsBack_iff (gpuBootstrap_closed gpuShmName cuptiSo)]
  constructor
  · simp [bootstrapPieces, or_imp, forall_and]
  · simp [gpuBootstrapPieces, or_imp, forall_and]

/-- A name whose quote ends the literal, so that a call of print is run in the target. -/
def callingName : String := "/hpc'); print('"

theorem callingName_runs :
    ¬ ∀ (named : List Char → Option ℕ) (parent shmName gpuShmName cuptiSo : String),
      (∀ text ∈ [parent, shmName, gpuShmName, cuptiSo], '\x00' ∉ text.toList) →
      ReadsBack named (bootstrapPieces parent shmName)
          (sourceOf (bootstrapCode parent shmName).toList) ∧
        ReadsBack named (gpuBootstrapPieces gpuShmName cuptiSo)
          (sourceOf (makeGpuBootstrap gpuShmName cuptiSo).toList) := by
  intro h
  obtain ⟨hcpu, -⟩ := h (fun _ => none) "" callingName "" "" (by decide)
  rw [bootstrapCode, String.toList_ofList] at hcpu
  have hplain : Plain .str callingName.toList := plain_of_readsBack hcpu (by simp [bootstrapPieces])
  have hquote := (hplain.chars '\'' (by decide)).clean.1
  exact hquote rfl

end HpcProfiler.BootstrapSource
